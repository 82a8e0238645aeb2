import SuperRaid.Board
import SuperRaid.BootSpec
import SuperRaid.MountReport

namespace SuperRaid.SysctlRestore

open Image Footer Sys Machine Storage Recovery Calls StorageSpec VerifySpec CopySpec RecoverSpec MountReport

variable {env : Env} {L : Layout} {sha : Sha} {α β : Type} {P : World → Prop} {Q : α → World → Prop}
  {init : DirtySettings} {m : Option Dev}

def Follows (P : World → Prop) (p : Run env α) (Q : α → World → Prop) : Prop :=
  Meets false 0 P p Q (fun _ => True)

theorem Follows.of_meets {p : Run env α} {n : Nat} {C : World → Prop} (h : Meets false n P p Q C) : Follows P p Q :=
  Spec.conseq h (fun _ h => h) (fun _ _ h => h) (fun _ _ => trivial) le_rfl

theorem Follows.ret {a : α} (h : ∀ w, P w → Q a w) : Follows P (pure a : Run env α) Q := Meets.ret h

theorem Follows.call {f : Answer env.Choice → World → α × World} (hP : Stable env P)
    (h : ∀ r w, P w → Q (f r w).1 (f r w).2) : Follows P (sys f) Q :=
  of_meets (Meets.call hP (fun _ hw => hw) (fun r w _ hw => h r w hw))

theorem Follows.bind {p : Run env α} {f : α → Run env β} {S : β → World → Prop} (hp : Follows P p Q)
    (hf : ∀ a, Follows (Q a) (f a) S) : Follows P (p >>= f) S :=
  of_meets (Meets.bind (F := fun _ => True) (hp.post (fun _ _ h => ⟨h, trivial⟩)) (fun a _ => hf a))

theorem Follows.succeeds (hP : Stable env P) : Follows P (succeeds : Run env Bool) (fun _ => P) :=
  Follows.call hP (fun _ _ hw => hw)

theorem Follows.verify {path : Path} (hP : Stable env P) (hnote : ∀ w e, P w → P (w.note e)) :
    Follows P (powerctlVerifyPathDigest L sha path : Run env (Except Failure Bytes)) (fun _ => P) :=
  of_meets (meets_verify hP (fun _ hw => hw) (fun _ w hw _ => hnote w _ hw))

theorem marked_of_update {done : Writes} {j k : Knob} (h : Function.update done k false j = true) : done j = true := by
  by_cases hjk : j = k
  · rw [hjk, Function.update_self] at h
    exact absurd h (by decide)
  · rwa [Function.update_of_ne hjk] at h

def Written (settings : DirtySettings) (done : Writes) (w : World) : Prop :=
  ∀ k, done k = true → w.ctl.dirty k = settings k

theorem follows_writeSysctlU32 {settings : DirtySettings} (hP : Stable env P)
    (hset : ∀ w k v, P w → P (setDirty w k v)) (done : Writes) (k : Knob) :
    Follows (fun w => P w ∧ Written settings done w) (writeSysctlU32 k (settings k) : Run env Bool)
      (fun ok w => P w ∧ Written settings (Function.update done k ok) w) := by
  refine Follows.call (fun w r hw => ⟨hP w r hw.1, hw.2⟩) (fun r w hw => ?_)
  dsimp only
  split_ifs with hstored
  · refine ⟨hset w k _ hw.1, fun j hj => ?_⟩
    show Function.update w.ctl.dirty k (settings k) j = settings j
    by_cases hjk : j = k
    · rw [hjk, Function.update_self]
    · rw [Function.update_of_ne hjk] at hj ⊢
      exact hw.2 j hj
  · have hfailed : r.ok = false ∧ r.count = 0 := by simpa using hstored
    refine ⟨hw.1, fun j hj => hw.2 j ?_⟩
    rw [hfailed.1] at hj
    exact marked_of_update hj

theorem follows_writeKnobs (hP : Stable env P) (hset : ∀ w k v, P w → P (setDirty w k v))
    (settings : DirtySettings) :
    Follows P (writeKnobs settings : Run env Writes) (fun writes w => P w ∧ Written settings writes w) := by
  refine Follows.bind
    ((follows_writeSysctlU32 hP hset (fun _ => false) _).pre (fun w hw => ⟨hw, by simp [Written]⟩))
    (fun writeback => Follows.bind (follows_writeSysctlU32 hP hset _ _) (fun background =>
      Follows.bind (follows_writeSysctlU32 hP hset _ _)
        (fun ratio => Follows.ret (fun w hw => ⟨hw.1, fun k hk => ?_⟩))))
  refine hw.2 k ?_
  cases k <;> exact hk

def Saved (init : DirtySettings) (w : World) : Prop := w.ctl.original = init

/-- A setting has its initial value, or the write that restores it failed. -/
def Restored (init : DirtySettings) (restored : Option Writes) (w : World) : Prop :=
  ∀ k, w.ctl.dirty k = init k ∨ ∃ writes, restored = some writes ∧ writes k = false

theorem Written.restored {w : World} {writes : Writes} (h : Written init writes w) : Restored init (some writes) w := by
  intro k
  cases hk : writes k with
  | true => exact .inl (h k hk)
  | false => exact .inr ⟨writes, rfl, hk⟩

theorem follows_restoreKnobs (hP : Stable env P) (hset : ∀ w k v, P w → P (setDirty w k v)) :
    Follows (fun w => P w ∧ Saved init w) (restoreKnobs : Run env Writes)
      (fun writes w => P w ∧ Restored init (some writes) w) := by
  intro rs w hr hw
  have hwrites : Follows P (writeKnobs init : Run env Writes) (fun writes w => P w ∧ Restored init (some writes) w) :=
    (follows_writeKnobs hP hset init).post (fun _ _ h => ⟨h.1, h.2.restored⟩)
  have hsaved : w.ctl.original = init := hw.2
  have hsame : (restoreKnobs : Run env Writes) rs w = writeKnobs init rs w := by rw [← hsaved]; rfl
  rw [hsame]
  exact hwrites rs w hr hw.1

def Kept (init : DirtySettings) (done : Writes) (w : World) : Prop :=
  w.ctl.dirty = init ∧ ∀ k, done k = true → w.ctl.original k = init k

theorem follows_readSysctlU32 (hP : Stable env P) (hsave : ∀ w k, P w → P (saveDirty w k)) (done : Writes)
    (k : Knob) :
    Follows (fun w => P w ∧ Kept init done w) (readSysctlU32 k : Run env Bool)
      (fun ok w => P w ∧ Kept init (Function.update done k ok) w) := by
  refine Follows.call (fun w r hw => ⟨hP w r hw.1, hw.2⟩) (fun r w hw => ?_)
  obtain ⟨hw, hdirty, hdone⟩ := hw
  dsimp only
  split_ifs with hstored
  · refine ⟨hsave w k hw, hdirty, fun j hj => ?_⟩
    show Function.update w.ctl.original k (w.ctl.dirty k) j = init j
    by_cases hjk : j = k
    · rw [hjk, Function.update_self, hdirty]
    · rw [Function.update_of_ne hjk] at hj ⊢
      exact hdone j hj
  · have hfailed : r.ok = false ∧ r.count = 0 := by simpa using hstored
    refine ⟨hw, hdirty, fun j hj => hdone j ?_⟩
    rw [hfailed.1] at hj
    exact marked_of_update hj

theorem follows_readDirtySettings (hP : Stable env P) (hsave : ∀ w k, P w → P (saveDirty w k)) :
    Follows (fun w => P w ∧ w.ctl.dirty = init) (readDirtySettings : Run env Bool)
      (fun ok w => P w ∧ w.ctl.dirty = init ∧ (ok = true → Saved init w)) := by
  have hfail {done : Writes} : Follows (fun w => P w ∧ Kept init done w) (pure false : Run env Bool)
      (fun ok w => P w ∧ w.ctl.dirty = init ∧ (ok = true → Saved init w)) :=
    Follows.ret (fun w hw => ⟨hw.1, hw.2.1, by simp⟩)
  refine Follows.bind ((follows_readSysctlU32 hP hsave (fun _ => false) _).pre
    (fun w hw => ⟨hw.1, hw.2, by simp⟩)) (fun writeback => ?_)
  cases writeback with
  | false => exact hfail
  | true =>
      refine Follows.bind (follows_readSysctlU32 hP hsave _ _) (fun background => ?_)
      cases background with
      | false => exact hfail
      | true =>
          refine (follows_readSysctlU32 hP hsave _ _).post (fun ratio w hw => ⟨hw.1, hw.2.1, fun hok => ?_⟩)
          subst hok
          funext k
          exact hw.2.2 k (by cases k <;> rfl)

/-- Nothing is mounted that was not mounted before. -/
def Free (m : Option Dev) (w : World) : Prop := ∀ d, w.ctl.mounted = some d → m = some d

def Ended (init : DirtySettings) (m : Option Dev) (rep : Report) (w : World) : Prop :=
  match rep.code with
  | .ok => Saved init w ∧ rep.slots.mountedDev.isSome ∧ rep.slots.otherDev.isSome
  | .failed _ => rep.slots = .empty ∧ (rep.unmounted = some false ∨ Free m w) ∧ Restored init rep.restored w

theorem follows_restoreReport {code : Failure} {digest : Bytes} {unmounted : Option Bool} :
    Follows (fun w => (unmounted = some false ∨ Free m w) ∧ Saved init w)
      (restoreReport code .empty digest unmounted : Run env Report) (Ended init m) :=
  Follows.bind (follows_restoreKnobs (fun _ _ hw => hw) (fun _ _ _ hw => hw))
    (fun _ => Follows.ret (fun _ hw => ⟨rfl, hw.1, hw.2⟩))

theorem follows_unmountReport {code : Failure} {digest : Bytes} :
    Follows (Saved init) (unmountReport code digest : Run env Report) (Ended init m) := by
  refine Follows.bind (Q := fun ok w => (some ok = some false ∨ Free m w) ∧ Saved init w)
    (Follows.call (fun _ _ hw => hw) (fun r w hw => ?_)) (fun ok => follows_restoreReport)
  dsimp only
  cases r.ok with
  | true => exact ⟨.inr (fun d hd => absurd hd (by simp [clearMounted])), hw⟩
  | false => exact ⟨.inl rfl, hw⟩

theorem follows_candidatesReport (candidates : List (Path × Path)) (digest : Bytes) :
    Follows (fun w => Free m w ∧ Saved init w) (candidatesReport L sha candidates .empty digest : Run env Report)
      (Ended init m) := by
  induction candidates generalizing digest with
  | nil => exact follows_restoreReport.pre (fun w hw => ⟨.inr hw.1, hw.2⟩)
  | cons pair rest ih =>
      refine Follows.bind (Follows.verify (fun _ _ hw => hw) (fun _ _ hw => hw)) (fun res => ?_)
      cases res with
      | error code => exact ih digest
      | ok digest =>
          refine Follows.bind (Q := fun ok w => if ok = true then Saved init w else Free m w ∧ Saved init w)
            (Follows.call (fun _ _ hw => hw) (fun r w hw => ?_)) (fun mounted => ?_)
          · rcases r.ok with _ | _ <;> rcases L.node pair.1 with _ | _ | _
            all_goals first | exact hw | exact hw.2
          cases mounted with
          | false => exact ih digest
          | true =>
              refine Follows.bind (Q := fun _ => Saved init) (Follows.call (fun _ _ hw => hw) (fun _ _ hw => hw))
                (fun slots => ?_)
              split_ifs with hmissing
              · exact follows_unmountReport
              · refine Follows.bind (Q := fun _ => Saved init) (Follows.call (fun _ _ hw => hw) (fun r w hw => ?_))
                  (fun notified => ?_)
                · dsimp only
                  split_ifs
                  · exact hw
                  · exact hw
                cases notified with
                | false => exact follows_unmountReport
                | true =>
                    refine Follows.ret (fun w hw => ⟨hw, ?_⟩)
                    simpa [Option.isSome_iff_ne_none] using hmissing

theorem follows_partitionReport (devices : Path) :
    Follows (fun w => Free m w ∧ w.ctl.dirty = init) (partitionReport L sha .empty devices : Run env Report)
      (Ended init m) := by
  have hunread {code : Failure} {digest : Bytes} : Follows (fun w => Free m w ∧ w.ctl.dirty = init)
      (pure ⟨.failed code, .empty, digest, none, none⟩ : Run env Report) (Ended init m) :=
    Follows.ret (fun w hw => ⟨rfl, .inr hw.1, fun k => .inl (by rw [hw.2])⟩)
  have hrestore {digest : Bytes} : Follows (fun w => Free m w ∧ Saved init w)
      (restoreReport .ioError .empty digest none : Run env Report) (Ended init m) :=
    follows_restoreReport.pre (fun w hw => ⟨.inr hw.1, hw.2⟩)
  refine Follows.bind (Q := fun _ w => Free m w ∧ w.ctl.dirty = init)
    (Follows.of_meets ((meets_splitDevices (fun _ _ hw => hw) (fun w hw => hw)).post (fun _ _ hw => hw.1)))
    (fun pair => ?_)
  rcases pair with _ | ⟨first, second⟩
  · exact hunread
  refine Follows.bind (follows_readDirtySettings (fun _ _ hw => hw) (fun _ _ hw => hw)) (fun saved => ?_)
  cases saved with
  | false => exact hunread.pre (fun w hw => ⟨hw.1, hw.2.1⟩)
  | true =>
      refine Follows.bind (Q := fun _ w => Free m w ∧ Saved init w) ?_ (fun delayed => ?_)
      · rw [enablePagecacheDelay, writeDirtySettings_eq]
        refine Follows.bind ((follows_writeKnobs (P := fun w => Free m w ∧ Saved init w) (fun _ _ hw => hw)
          (fun _ _ _ hw => hw) delayed).pre (fun w hw => ⟨hw.1, hw.2.2 rfl⟩))
          (fun _ => Follows.ret (fun w hw => hw.1))
      cases delayed with
      | false => exact hrestore
      | true =>
          refine Follows.bind (Follows.succeeds (fun _ _ hw => hw)) (fun made => ?_)
          cases made with
          | false => exact hrestore
          | true => exact follows_candidatesReport _ _

theorem recoverPlan_saved (st : AppState) :
    RecoverPlan env L sha false st (Saved init) (fun _ => Saved init) (fun _ => Saved init) (Saved init) (Saved init)
      (fun _ => Saved init) (Saved init) (fun _ => Saved init) (fun _ => True) where
  stable _ _ hw := hw
  stable_releasing _ _ hw := hw
  stable_restoring _ _ _ hw := hw
  safe _ _ := trivial
  safe_releasing _ _ := trivial
  safe_restoring _ _ _ := trivial
  frame := ⟨fun _ _ _ hw => hw, fun _ _ _ => trivial, fun _ _ hw => hw, fun _ _ => trivial⟩
  stable_copied _ _ _ hw := hw
  equal _ hw _ := hw
  differs _ _ hw _ _ := hw
  copies _ _ _ _ _ :=
    ⟨fun _ _ _ _ _ _ w hw _ _ => by rw [Saved, World.write_ctl]; exact hw, fun _ hw => ⟨[], hw⟩⟩
  ready h := absurd h (by decide)
  repaired _ _ hw _ := hw
  broken _ _ _ hw _ _ := hw
  failed _ _ _ hw := hw
  recovered _ hw := hw
  killed _ _ hw := hw
  tick _ _ hw := hw
  released _ _ hw _ := hw
  finish _ hw := hw
  finishUnreleased _ hw := hw
  finishFailed _ _ hw := hw
  restore _ _ _ _ hw := hw

def Exited (init : DirtySettings) (m : Option Dev) (exit : Exit) (w : World) : Prop :=
  Restored init exit.restored w ∧
  (∀ writes k, exit.restored = some writes → writes k = false → exit.code ≠ .ok) ∧
  (exit.mount.code ≠ .ok → exit.mount.slots = .empty ∧ (exit.mount.unmounted = some false ∨ Free m w))

theorem restoredCode_ne_ok {writes : Writes} {k : Knob} (code : ExitCode) (hk : writes k = false) :
    restoredCode code writes.all ≠ .ok := by
  have hall : writes.all = false := by cases k <;> simp [Writes.all, hk]
  unfold restoredCode
  rw [hall, if_neg (by decide)]
  split_ifs with hcode
  · simp
  · exact hcode

theorem follows_mountReport (devices : Path) :
    Follows (fun w => Free m w ∧ w.ctl.dirty = init) (mountReport L sha devices : Run env Exit) (Exited init m) := by
  refine Follows.bind (follows_partitionReport devices) (fun rep => ?_)
  rcases rep with ⟨_ | code, ⟨mountedDev, otherDev⟩, digest, unmounted, restored⟩
  · rcases mountedDev with _ | mountedDev
    · exact fun _ _ _ hw => absurd hw.2.1 (by simp)
    rcases otherDev with _ | otherDev
    · exact fun _ _ _ hw => absurd hw.2.2 (by simp)
    refine Follows.bind (Q := fun _ => Saved init) ?_ (fun code => ?_)
    · refine Follows.of_meets (((meets_recoverAndRelease (recoverPlan_saved _)).pre (fun w hw => hw.1)).post
        (fun code w hw => ?_))
      rcases code with _ | _
      · exact hw
      · exact hw.elim (fun h => h.2) (fun h => h)
    refine Follows.bind (Q := fun _ => Saved init) (Meets.modify (fun w hw => hw)) (fun _ => ?_)
    refine Follows.bind ((follows_restoreKnobs (P := fun _ => True) (fun _ _ hw => hw) (fun _ _ _ hw => hw)).pre
      (fun w hw => ⟨trivial, hw⟩))
      (fun writes => Follows.ret (fun w hw => ⟨hw.2, fun writes' k hwrites hk => ?_, ?_⟩))
    · obtain rfl := Option.some.inj hwrites
      exact restoredCode_ne_ok code hk
    · simp
  · exact Follows.ret (fun w hw => ⟨hw.2.2, fun _ _ _ _ => by simp, fun _ => ⟨hw.1, hw.2.1⟩⟩)

/-- When the mount command exits, each setting has the value it had before or the write that restores it failed, which
the exit code shows; a mount_partition that failed leaves no file system mounted and both pointers cleared. -/
theorem mount_restores_settings (L : Layout) (sha : Sha) (devices : Path) (w : World) (rs : List (Answer env.Choice))
    (exit : Exit) (rs' : List (Answer env.Choice)) (w' : World)
    (hrun : mountReport L sha devices rs w = .done exit rs' w') :
    fsctlMount L sha devices rs w = .done exit.code rs' w' ∧
    (∀ k, w'.ctl.dirty k = w.ctl.dirty k ∨ ∃ writes, exit.restored = some writes ∧ writes k = false) ∧
    (∀ writes k, exit.restored = some writes → writes k = false → exit.code ≠ .ok) ∧
    (exit.mount.code ≠ .ok → exit.mount.slots.mountedDev = none ∧ exit.mount.slots.otherDev = none ∧
      (exit.mount.unmounted = some false ∨ ∀ d, w'.ctl.mounted = some d → w.ctl.mounted = some d)) := by
  have hcode : fsctlMount L sha devices rs w = .done exit.code rs' w' := by
    rw [← mountReport_code, Prog.bind_apply, hrun]
    rfl
  obtain ⟨hrestored, hfailed, hmount⟩ := Meets.done (follows_mountReport devices)
    (show Free w.ctl.mounted w ∧ w.ctl.dirty = w.ctl.dirty from ⟨fun _ h => h, rfl⟩) hrun
  refine ⟨hcode, hrestored, hfailed, fun hne => ?_⟩
  obtain ⟨hslots, hfree⟩ := hmount hne
  rw [hslots]
  exact ⟨rfl, rfl, hfree⟩

def partlyDelayed : List (Answer BootSpec.quiet.Choice) :=
  [true, true, true, true, true, false, true, true, true, true].map (fun ok => ⟨(), ok, false, 0, .other, 0⟩)

def atRest : World := ⟨Board.ctl, fun _ => ⟨[], []⟩, []⟩

theorem mount_restores_settings_board : ∃ exit rs' w',
    mountReport Board.board Sha256.sha256 Board.board.devices partlyDelayed atRest = .done exit rs' w' ∧
      ∀ k, w'.ctl.dirty k = atRest.ctl.dirty k ∨ ∃ writes, exit.restored = some writes ∧ writes k = false := by
  obtain ⟨exit, rs', w', hrun⟩ : ∃ exit rs' w',
      mountReport Board.board Sha256.sha256 Board.board.devices partlyDelayed atRest = .done exit rs' w' :=
    ⟨_, _, _, rfl⟩
  exact ⟨exit, rs', w', hrun,
    (mount_restores_settings Board.board Sha256.sha256 Board.board.devices atRest partlyDelayed exit rs' w' hrun).2.1⟩

end SuperRaid.SysctlRestore
