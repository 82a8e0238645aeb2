import SuperRaid.Exclusion
import SuperRaid.RecoverSpec
import SuperRaid.WaitSpec

namespace SuperRaid.Exclusion

open Image Footer Sys Machine Storage Recovery PowerPrepare Calls Transition
open StorageSpec VerifySpec CopySpec MountSpec ReleaseSpec RecoverSpec WaitSpec

variable {env : Env} {L : Layout} {sha : Sha} {C : World → Prop} {α : Type}

section Devices

structure Kept (env : Env) (P C : World → Prop) : Prop where
  stable : Stable env P
  safe : ∀ w, P w → C w
  write : ∀ w d off bs, P w → P (w.write d off bs)
  sync : ∀ w d, P w → P (w.sync d)
  note : ∀ w v, P w → P (w.note v)

variable {P : World → Prop}

theorem Kept.copyFrom (h : Kept env P C) (origin path : Path) (range : Target → Nat × Nat) :
    Meets false 0 P (copyFrom L origin range path : Run env Bool) (fun _ w => P w ∧ True) C := by
  obtain ⟨n, hn⟩ : ∃ n, ∀ node, L.node origin = some node → 2 * (range (L.target node)).2 ≤ n := by
    cases hnode : L.node origin with
    | none => exact ⟨0, by simp⟩
    | some node => exact ⟨2 * (range (L.target node)).2, fun _ heq => by cases heq; exact le_rfl⟩
  have hframe : CopyFrame env (fun _ => P) P C := ⟨fun _ => h.stable, fun _ => h.safe, h.stable, h.safe⟩
  refine (meets_copyFrom hframe (fun node d _ _ _ => ⟨?_, fun w hw => h.sync w d hw⟩) hn (by simp)).post ?_
  · exact fun k buffer _ _ j i w hw _ _ => h.write w d _ _ hw
  · rintro (_ | _) w ⟨hw, -⟩
    · exact ⟨hw.choose_spec, trivial⟩
    · exact ⟨hw, trivial⟩

theorem Kept.pwriteFull (h : Kept env P C) (node : Node) (off : Nat) (bs : Bytes) :
    Meets false 0 P (pwriteFull L node off bs : Run env Bool) (fun _ w => P w ∧ True) C := by
  cases node with
  | parent => exact Meets.ret (fun w hw => ⟨hw, trivial⟩)
  | part d =>
      exact (meets_pwriteFull (I := fun _ => P) (fun _ => h.stable) (fun _ => h.safe)
        (fun _ _ w hw _ _ _ => h.write w d _ _ hw)).post (fun _ w hw => ⟨hw.1.2.choose_spec, trivial⟩)

theorem Kept.fsync (h : Kept env P C) (node : Node) :
    Meets false 0 P (fsync node : Run env Bool) (fun _ w => P w ∧ True) C := by
  cases node with
  | parent => exact Meets.ask h.stable h.safe (fun _ _ => trivial)
  | part d =>
      exact meets_fsync h.stable h.safe (fun w hw => ⟨h.sync w d hw, trivial⟩) (fun _ w hw => ⟨hw, trivial⟩)

theorem Kept.writeDescriptor (h : Kept env P C) (tg : Target) (digest : Bytes) :
    Meets false 0 P (writeDescriptor L tg digest : Run env Bool) (fun _ w => P w ∧ True) C := by
  have hfalse : Meets false 0 P (pure false : Run env Bool) (fun _ w => P w ∧ True) C :=
    Meets.ret (fun w hw => ⟨hw, trivial⟩)
  refine Meets.branch (n := 0) h.stable h.safe ?_ (fun _ => hfalse)
  split_ifs
  · exact hfalse
  refine Meets.branch (n := 0) h.stable h.safe ?_ (fun _ => hfalse)
  refine Meets.bind (m := 0) (n := 0) (K := fun _ => P) (h.pwriteFull _ _ _) (fun written _ => ?_)
  refine Meets.bind (m := 1) (n := 0) (K := fun _ => P) (Meets.succeeds h.stable h.safe) (fun restored _ => ?_)
  split_ifs
  · exact h.fsync _
  · exact hfalse

theorem Kept.seal (h : Kept env P C) (path : Path) :
    Meets false 0 P (powerctlSealBlockDevice L sha path : Run env (Option Bytes)) (fun _ w => P w ∧ True) C := by
  have hnone : Meets false 0 P (pure none : Run env (Option Bytes)) (fun _ w => P w ∧ True) C :=
    Meets.ret (fun w hw => ⟨hw, trivial⟩)
  have hseal (tg : Target) :
      Meets false 0 P (sealTarget L sha tg : Run env (Option Bytes)) (fun _ w => P w ∧ True) C := by
    refine Meets.bind (m := 1) (n := 0) (K := fun _ => P) (F := fun _ => True)
      (Meets.call h.stable h.safe (fun _ _ _ hw => ⟨hw, trivial⟩)) (fun digest _ => ?_)
    rcases digest with _ | digest
    · exact hnone
    refine Meets.bind (m := 0) (n := 0) (K := fun _ => P) (h.writeDescriptor tg digest) (fun written _ => ?_)
    cases written with
    | false => exact hnone
    | true => exact Meets.ret (fun w hw => ⟨hw, trivial⟩)
  refine Meets.bind (m := 4) (n := 0) (K := fun _ => P) (meets_openTarget h.stable h.safe) (fun opened _ => ?_)
  rcases opened with _ | tg
  · exact hnone
  refine Meets.bind (m := 0) (n := 0) (K := fun _ => P) (hseal tg) (fun sealed _ => ?_)
  have hclose : Meets false 0 P (closeTarget >>= fun _ => pure sealed : Run env (Option Bytes))
      (fun _ w => P w ∧ True) C := Meets.close (n := 0) h.stable h.safe (Meets.ret (fun w hw => ⟨hw, trivial⟩))
  cases sealed with
  | none => exact hclose
  | some digest =>
      exact Meets.bind (m := 0) (n := 0) (K := fun _ => P) (F := fun _ => True)
        (Meets.note (fun w hw => ⟨h.note w _ hw, trivial⟩)) (fun _ _ => hclose)

end Devices

variable {s₀ s s' : State} {w w' : World}

/-- What the world of a program shows of a state. -/
def State.seen (s : State) (w : World) : State := { s with mounted := w.ctl.mounted.isSome, now := w.ctl.now }

/-- The steps lead from s₀ to s, when the program is in w. -/
def Leads (s₀ s : State) (w : World) : Prop := ∃ as, run step s₀ as = some (s.seen w)

theorem Leads.next (h : Leads s₀ s w) (a : Action) (hstep : step (s.seen w) a = some (s'.seen w')) :
    Leads s₀ s' w' := by
  obtain ⟨as, has⟩ := h
  refine ⟨as ++ [a], ?_⟩
  rw [run_snoc, has]
  exact hstep

theorem Leads.of_ctl (h : Leads s₀ s w) (hctl : w'.ctl = w.ctl) : Leads s₀ s w' := by
  unfold Leads State.seen
  rw [hctl]
  exact h

theorem stable_leads (s₀ s : State) : Stable env (Leads s₀ s) := fun _ r h => h.next (.wait r.delay) rfl

theorem Leads.tick (h : Leads s₀ s w) (n : Nat) : Leads s₀ s (tick w n) := h.next (.wait n) rfl

section Mount

def MountAt (s₀ : State) (pc : MountPc) : World → Prop := Leads s₀ { s₀ with mount := pc }

def Mounting (s₀ : State) (w : World) : Prop := ∃ pc : MountPc, pc.running = true ∧ MountAt s₀ pc w

variable {pc pc' : MountPc}

theorem MountAt.next (h : MountAt s₀ pc w) (ok : Bool) (code : Failure) (hnow : w'.ctl.now = w.ctl.now)
    (hstep : mountStep pc w.ctl.mounted.isSome ok code = some (pc', w'.ctl.mounted.isSome)) : MountAt s₀ pc' w' := by
  refine Leads.next h (.mount ok code) ?_
  simp only [step, State.seen, hstep, hnow, Option.map_some]

theorem kept_mountAt (env : Env) (s₀ : State) (pc : MountPc) (hpc : pc.running = true) :
    Kept env (MountAt s₀ pc) (Mounting s₀) where
  stable := stable_leads _ _
  safe _ hw := ⟨pc, hpc, hw⟩
  write w d off bs hw := hw.of_ctl (World.write_ctl w d off bs)
  sync _ _ hw := hw
  note _ _ hw := hw

theorem meets_mountBranch (yes no : MountPc) {p : Run env Bool} {a b : Run env α} {n : Nat} {F : Bool → Prop}
    {Q : α → World → Prop}
    (hp : Meets false n (MountAt s₀ pc) p (fun b w => MountAt s₀ pc w ∧ F b) (Mounting s₀))
    (hstep : ∀ mounted ok, mountStep pc mounted ok .ioError = some (if ok = true then yes else no, mounted))
    (ha : Meets false 0 (MountAt s₀ yes) a Q (Mounting s₀))
    (hb : Meets false 0 (MountAt s₀ no) b Q (Mounting s₀)) :
    Meets false 0 (MountAt s₀ pc) (p >>= fun c => if c = true then a else b) Q (Mounting s₀) := by
  refine Meets.bind (m := n) (n := 0) (K := fun _ => MountAt s₀ pc) hp (fun c _ => ?_)
  cases c with
  | true => exact ha.pre (fun w hw => hw.next true .ioError rfl (hstep _ true))
  | false => exact hb.pre (fun w hw => hw.next false .ioError rfl (hstep _ false))

theorem meets_verify_at (hpc : pc.running = true) (path : Path) :
    Meets false 0 (MountAt s₀ pc) (powerctlVerifyPathDigest L sha path : Run env (Except Failure Bytes))
      (fun _ w => MountAt s₀ pc w ∧ True) (Mounting s₀) := by
  have h := kept_mountAt env s₀ pc hpc
  exact meets_verify h.stable h.safe (fun _ _ hw _ => ⟨hw, trivial⟩)

def afterMount : Except Failure AppState → MountPc
  | .ok _ => .verifyOther
  | .error code => .returned (.failed code)

theorem meets_failRestoreDirty_at (code : Failure) :
    Meets false 0 (MountAt s₀ (.cleanupRestore code)) (failRestoreDirty code : Run env (Except Failure AppState))
      (fun res => MountAt s₀ (afterMount res)) (Mounting s₀) := by
  have h := kept_mountAt env s₀ (.cleanupRestore code) rfl
  refine Meets.bind (m := 3) (n := 0) (K := fun _ => MountAt s₀ (.cleanupRestore code))
    (meets_restoreDirtySettings h.stable h.safe (fun _ _ _ hw => hw)) (fun _ _ => ?_)
  exact Meets.ret (fun w hw => hw.next true .ioError rfl rfl)

theorem meets_failUnmount_at (code : Failure) :
    Meets false 0 (MountAt s₀ (.cleanupUmount code)) (failUnmount code : Run env (Except Failure AppState))
      (fun res => MountAt s₀ (afterMount res)) (Mounting s₀) := by
  have h := kept_mountAt env s₀ (.cleanupUmount code) rfl
  refine Meets.bind (m := 1) (n := 0) (K := fun _ => MountAt s₀ (.cleanupRestore code)) (F := fun _ => True)
    (Meets.call h.stable h.safe (fun r w _ hw => ⟨?_, trivial⟩)) (fun _ _ => meets_failRestoreDirty_at code)
  cases hok : r.ok with
  | true => exact hw.next true .ioError rfl (by simp [mountStep, clearMounted])
  | false => exact hw.next false .ioError rfl (by simp [mountStep])

theorem meets_mount_at (path : Path) (index : Nat) :
    Meets false 0 (MountAt s₀ (.mountCandidate index)) (mount L path : Run env Bool)
      (fun b w => MountAt s₀ (if b = true then .strdup else .verifyCandidate (index + 1)) w ∧ True)
      (Mounting s₀) := by
  have h := kept_mountAt env s₀ (.mountCandidate index) rfl
  refine Meets.call h.stable h.safe (fun r w _ hw => ⟨?_, trivial⟩)
  have hrefused : MountAt s₀ (.verifyCandidate (index + 1)) w := hw.next false .ioError rfl rfl
  cases hok : r.ok with
  | false => exact hrefused
  | true =>
      rcases hnode : L.node path with _ | d | _
      · exact hrefused
      · exact hw.next true .ioError rfl rfl
      · exact hrefused

theorem meets_mountCandidates_at (candidates : List (Path × Path)) (index : Nat) (digest : Bytes)
    (hindex : index + candidates.length = 2) :
    Meets false 0 (MountAt s₀ (.verifyCandidate index))
      (mountCandidates L sha candidates digest : Run env (Except Failure AppState))
      (fun res => MountAt s₀ (afterMount res)) (Mounting s₀) := by
  induction candidates generalizing index digest with
  | nil =>
      obtain rfl : index = 2 := hindex
      exact (meets_failRestoreDirty_at .metadataInvalid).pre (fun w hw => hw.next true .ioError rfl rfl)
  | cons candidate rest ih =>
      have hlt : index < 2 := by rw [List.length_cons] at hindex; omega
      have hrest (digest : Bytes) := ih (index + 1) digest (by rw [List.length_cons] at hindex; omega)
      refine Meets.bind (m := 0) (n := 0) (K := fun _ => MountAt s₀ (.verifyCandidate index))
        (meets_verify_at rfl candidate.1) (fun res _ => ?_)
      cases res with
      | error code =>
          exact (hrest digest).pre (fun w hw => hw.next false .ioError rfl (by simp [mountStep, hlt]))
      | ok found =>
          refine Meets.pre (K := MountAt s₀ (.mountCandidate index)) ?_
            (fun w hw => hw.next true .ioError rfl (by simp [mountStep, hlt]))
          refine Meets.bind (m := 0) (n := 0) (meets_mount_at candidate.1 index) (fun b _ => ?_)
          cases b with
          | false => exact hrest found
          | true =>
              have hdup := kept_mountAt env s₀ .strdup rfl
              have hnotify := kept_mountAt env s₀ .sdNotify rfl
              refine meets_mountBranch .sdNotify (.cleanupUmount .nomem) (Meets.succeeds hdup.stable hdup.safe)
                (fun _ _ => rfl) ?_ (meets_failUnmount_at .nomem)
              refine meets_mountBranch .verifyOther (.cleanupUmount .ioError) (n := 1) (F := fun _ => True) ?_
                (fun _ _ => rfl) (Meets.ret (fun _ hw => hw)) (meets_failUnmount_at .ioError)
              refine Meets.call hnotify.stable hnotify.safe (fun r w _ hw => ⟨?_, trivial⟩)
              cases hok : r.ok <;> exact hw

theorem meets_mountPartition_at (devices : Path) :
    Meets false 0 (MountAt s₀ .splitDevices) (mountPartition L sha devices : Run env (Except Failure AppState))
      (fun res => MountAt s₀ (afterMount res)) (Mounting s₀) := by
  have hsplit := kept_mountAt env s₀ .splitDevices rfl
  have hread := kept_mountAt env s₀ .readDirtySettings rfl
  have hdelay := kept_mountAt env s₀ .enablePagecacheDelay rfl
  have hmkdir := kept_mountAt env s₀ .mkdir rfl
  refine Meets.bind (m := 1) (n := 0) (K := fun _ => MountAt s₀ .splitDevices)
    (meets_splitDevices hsplit.stable hsplit.safe) (fun pair _ => ?_)
  rcases pair with _ | ⟨first, second⟩
  · exact Meets.ret (fun w hw => hw.next false .ioError rfl rfl)
  refine Meets.pre (K := MountAt s₀ .readDirtySettings) ?_ (fun w hw => hw.next true .ioError rfl rfl)
  refine meets_mountBranch .enablePagecacheDelay (.returned (.failed .ioError))
    (meets_readDirtySettings hread.stable hread.safe (fun _ _ hw => hw)) (fun _ _ => rfl) ?_
    (Meets.ret (fun _ hw => hw))
  refine meets_mountBranch .mkdir (.cleanupRestore .ioError)
    (meets_writeDirtySettings hdelay.stable hdelay.safe (fun _ _ _ hw => hw) delayed) (fun _ _ => rfl) ?_
    (meets_failRestoreDirty_at .ioError)
  exact meets_mountBranch (.verifyCandidate 0) (.cleanupRestore .ioError)
    (Meets.succeeds hmkdir.stable hmkdir.safe) (fun _ _ => rfl) (meets_mountCandidates_at _ 0 _ rfl)
    (meets_failRestoreDirty_at .ioError)

theorem meets_releasePeer_at :
    Meets false 0 (MountAt s₀ .releaseAppServices) (releasePeer : Run env ExitCode)
      (fun code => MountAt s₀ (.restore code)) (Mounting s₀) := by
  have h := kept_mountAt env s₀ .releaseAppServices rfl
  refine Meets.bind (m := 0) (n := 0) (K := fun _ => MountAt s₀ .releaseAppServices) (F := fun _ => True)
    (Meets.modify (fun w hw => ⟨hw, trivial⟩)) (fun _ _ => ?_)
  refine meets_mountBranch (.restore .ok) (.restore (.failed .ioError)) (n := 0) (F := fun _ => True) ?_
    (fun _ ok => by cases ok <;> rfl) (Meets.ret (fun _ hw => hw)) (Meets.ret (fun _ hw => hw))
  refine Meets.bind (m := 0) (n := 0) (K := fun _ => MountAt s₀ .releaseAppServices)
    (meets_releaseLoop h.stable h.safe (fun w n hw => Leads.tick hw n) (fun _ _ hw => hw)) (fun b _ => ?_)
  exact Meets.bind (m := 0) (n := 0) (K := fun _ => MountAt s₀ .releaseAppServices) (F := fun _ => True)
    (Meets.note (fun w hw => ⟨hw, trivial⟩)) (fun _ _ => Meets.ret (fun w hw => ⟨hw, trivial⟩))

variable (st : AppState)

def afterRecover (code : ExitCode) : MountPc := if code = .ok then .releaseAppServices else .restore code

theorem meets_recoverPeer_at :
    Meets false 0 (MountAt s₀ .resolveSource) (recoverPeer L sha st : Run env ExitCode)
      (fun code => MountAt s₀ (afterRecover code)) (Mounting s₀) := by
  have hresolve := kept_mountAt env s₀ .resolveSource rfl
  refine Meets.bind (m := 8) (n := 0) (K := fun _ => MountAt s₀ .resolveSource)
    (meets_resolvePartitionSource hresolve.stable hresolve.safe) (fun source _ => ?_)
  rcases source with _ | ⟨parent, sourceOffset, partitionSize⟩
  · exact Meets.ret (fun w hw => hw.next false .ioError rfl rfl)
  refine Meets.pre (K := MountAt s₀ .copyRange) ?_ (fun w hw => hw.next true .ioError rfl rfl)
  refine meets_mountBranch .verifyCopied (.restore (.failed .ioError))
    ((kept_mountAt env s₀ .copyRange rfl).copyFrom parent st.otherDev _) (fun _ _ => rfl) ?_
    (Meets.ret (fun _ hw => hw))
  refine Meets.bind (m := 0) (n := 0) (K := fun _ => MountAt s₀ .verifyCopied) (meets_verify_at rfl st.otherDev)
    (fun res _ => ?_)
  cases res with
  | error code => exact Meets.ret (fun w hw => hw.next false code rfl rfl)
  | ok digest =>
      dsimp only
      split_ifs with heq
      · exact Meets.ret (fun w hw => hw.next true .ioError rfl rfl)
      · exact Meets.ret (fun w hw => hw.next false .hashMismatch rfl rfl)

theorem meets_recoverAndRelease_at :
    Meets false 0 (MountAt s₀ .verifyOther) (recoverAndRelease L sha st : Run env ExitCode)
      (fun code => MountAt s₀ (.restore code)) (Mounting s₀) := by
  refine Meets.bind (m := 0) (n := 0) (K := fun _ => MountAt s₀ .verifyOther) (meets_verify_at rfl st.otherDev)
    (fun other _ => ?_)
  split_ifs with hequal
  · exact meets_releasePeer_at.pre (fun w hw => hw.next true .ioError rfl rfl)
  refine (Meets.bind (m := 0) (n := 0) (F := fun _ => True)
    ((meets_recoverPeer_at st).post (fun _ _ hw => ⟨hw, trivial⟩)) (fun code _ => ?_)).pre
      (fun w hw => hw.next false .ioError rfl rfl)
  unfold afterRecover
  split_ifs with hcode
  · exact meets_releasePeer_at
  · exact Meets.ret (fun _ hw => hw)

theorem meets_recoverAppParam_at :
    Meets false 0 (MountAt s₀ .verifyOther) (recoverAppParam L sha st : Run env ExitCode)
      (fun code => MountAt s₀ (.returned code)) (Mounting s₀) := by
  refine Meets.bind (m := 0) (n := 0) (F := fun _ => True)
    ((meets_recoverAndRelease_at st).post (fun _ _ hw => ⟨hw, trivial⟩)) (fun code _ => ?_)
  have h := kept_mountAt env s₀ (.restore code) rfl
  refine Meets.bind (m := 0) (n := 0) (K := fun _ => MountAt s₀ (.restore code)) (F := fun _ => True)
    (Meets.modify (fun w hw => ⟨hw, trivial⟩)) (fun _ _ => ?_)
  refine Meets.bind (m := 3) (n := 0) (K := fun _ => MountAt s₀ (.restore code))
    (meets_restoreDirtySettings h.stable h.safe (fun _ _ _ hw => hw)) (fun restored _ => ?_)
  split_ifs with hrestored hcode
  · exact Meets.ret (fun w hw => hw.next true .ioError rfl rfl)
  · exact Meets.ret (fun w hw => hw.next false .ioError rfl (by simp [mountStep, hcode]))
  · exact Meets.ret (fun w hw => hw.next false .ioError rfl (by simp [mountStep, hcode]))

theorem meets_fsctlMount_at (devices : Path) :
    Meets false 0 (MountAt s₀ .splitDevices) (fsctlMount L sha devices : Run env ExitCode)
      (fun code => MountAt s₀ (.returned code)) (Mounting s₀) := by
  refine Meets.bind (m := 0) (n := 0) (F := fun _ => True)
    ((meets_mountPartition_at devices).post (fun _ _ hw => ⟨hw, trivial⟩)) (fun res _ => ?_)
  cases res with
  | error code => exact Meets.ret (fun _ hw => hw)
  | ok st => exact meets_recoverAppParam_at st

/-- Every run of the mount command is one of these steps, with the same exit code. -/
theorem fsctlMount_leads (devices : Path) (rs : List (Answer env.Choice)) (hstart : s₀.mount = .notStarted)
    (hseen : s₀.seen w = s₀) :
    (∀ code rs' w', (fsctlMount L sha devices : Run env ExitCode) rs w = .done code rs' w' →
      MountAt s₀ (.returned code) w') ∧
    ∀ w', (fsctlMount L sha devices : Run env ExitCode) rs w = .stopped w' → Mounting s₀ w' := by
  have hfirst : MountAt s₀ .splitDevices w := by
    have hbegin : Leads s₀ s₀ w := ⟨[], by rw [hseen]; rfl⟩
    exact hbegin.next .startMount (if_pos hstart)
  exact ⟨fun _ _ _ h => (meets_fsctlMount_at devices).done hfirst h,
    fun _ h => (meets_fsctlMount_at devices).stopped hfirst h⟩

end Mount

section Prepare

variable {start : Nat} {pc pc' : PreparePc}

def PrepareAt (s₀ : State) (start : Nat) (pc : PreparePc) : World → Prop :=
  Leads s₀ { s₀ with prepare := pc, start := start }

def Preparing (s₀ : State) (w : World) : Prop :=
  ∃ start pc, (∀ ok, pc ≠ .returned ok) ∧ PrepareAt s₀ start pc w

theorem PrepareAt.next (h : PrepareAt s₀ start pc w) (reply : Reply) (hpc : pc ≠ .readStart)
    (hnow : w'.ctl.now = w.ctl.now) (hmounted : w'.ctl.mounted = w.ctl.mounted)
    (hstep : prepareStep (State.seen { s₀ with prepare := pc, start := start } w) reply = some pc') :
    PrepareAt s₀ start pc' w' := by
  have hother : ¬ (State.seen { s₀ with prepare := pc, start := start } w).prepare = .readStart := hpc
  refine Leads.next h (.prepare reply) ?_
  rw [step, hstep, Option.map_some, if_neg hother]
  simp only [State.seen, hnow, hmounted]

theorem kept_prepareAt (env : Env) (s₀ : State) (start : Nat) (pc : PreparePc) (hpc : ∀ ok, pc ≠ .returned ok) :
    Kept env (PrepareAt s₀ start pc) (Preparing s₀) where
  stable := stable_leads _ _
  safe _ hw := ⟨start, pc, hpc, hw⟩
  write w d off bs hw := hw.of_ctl (World.write_ctl w d off bs)
  sync _ _ hw := hw
  note _ _ hw := hw

theorem meets_disableVfatWrite_at :
    Meets false 0 (PrepareAt s₀ start .disableWrite) (disableVfatWrite : Run env Bool)
      (fun _ w => PrepareAt s₀ start .disableWrite w ∧ True) (Preparing s₀) := by
  have h := kept_prepareAt env s₀ start .disableWrite (by simp)
  refine Meets.branch (n := 0) h.stable h.safe ?_ (fun _ => Meets.ret (fun w hw => ⟨hw, trivial⟩))
  refine Meets.bind (m := 1) (n := 0) (K := fun _ => PrepareAt s₀ start .disableWrite) (F := fun _ => True)
    (Meets.call h.stable h.safe (fun r w _ hw => ⟨?_, trivial⟩)) (fun disabled _ => ?_)
  · cases r.ok with
    | false => exact hw
    | true =>
        cases hm : w.ctl.mounted with
        | none => exact hw
        | some d => exact hw
  · exact Meets.bind (m := 1) (n := 0) (K := fun _ => PrepareAt s₀ start .disableWrite)
      (Meets.succeeds h.stable h.safe) (fun closed _ => Meets.ret (fun w hw => ⟨hw, trivial⟩))

def UmountEnds (s₀ : State) (start : Nat) (code : ExitCode) : World → Prop :=
  PrepareAt s₀ start (.returned (decide (code = .ok)))

theorem meets_sealAndCopy_at (active peer : Path) :
    Meets false 0 (PrepareAt s₀ start .disableWrite) (sealAndCopy L sha active peer : Run env ExitCode)
      (UmountEnds s₀ start) (Preparing s₀) := by
  refine Meets.bind (m := 0) (n := 0) (K := fun _ => PrepareAt s₀ start .disableWrite) meets_disableVfatWrite_at
    (fun disabled _ => ?_)
  cases disabled with
  | false => exact Meets.ret (fun w hw => hw.next ⟨false, .other⟩ (by simp) rfl rfl rfl)
  | true =>
      refine Meets.pre (K := PrepareAt s₀ start .sealBlockDevice) ?_
        (fun w hw => hw.next ⟨true, .other⟩ (by simp) rfl rfl rfl)
      refine Meets.bind (m := 0) (n := 0) (K := fun _ => PrepareAt s₀ start .sealBlockDevice)
        ((kept_prepareAt env s₀ start .sealBlockDevice (by simp)).seal active) (fun sealed _ => ?_)
      rcases sealed with _ | digest
      · exact Meets.ret (fun w hw => hw.next ⟨false, .other⟩ (by simp) rfl rfl rfl)
      refine Meets.pre (K := PrepareAt s₀ start .copyBlockDevice) ?_
        (fun w hw => hw.next ⟨true, .other⟩ (by simp) rfl rfl rfl)
      refine Meets.bind (m := 0) (n := 0) (K := fun _ => PrepareAt s₀ start .copyBlockDevice)
        ((kept_prepareAt env s₀ start .copyBlockDevice (by simp)).copyFrom active peer _) (fun copied _ => ?_)
      cases copied with
      | false => exact Meets.ret (fun w hw => hw.next ⟨false, .other⟩ (by simp) rfl rfl rfl)
      | true => exact Meets.ret (fun w hw => hw.next ⟨true, .other⟩ (by simp) rfl rfl rfl)

theorem isSome_of_activePeer {backing : Option Dev} {first second : Path} {pair : Path × Path}
    (h : activePeer L backing first second = some pair) : backing.isSome = true := by
  cases backing with
  | some d => rfl
  | none =>
      unfold activePeer at h
      split at h
      · split_ifs at h with hsame hfirst hsecond
        · cases hfirst
        · cases hsecond
      · cases h

theorem meets_resolveActivePeer_at (first second : Path) :
    Meets false 0 (PrepareAt s₀ start .resolveActivePeer)
      (resolveActivePeer L first second : Run env (Option (Path × Path)))
      (fun res w => PrepareAt s₀ start (if res.isSome then .disableWrite else .returned false) w ∧ True)
      (Preparing s₀) := by
  have h := kept_prepareAt env s₀ start .resolveActivePeer (by simp)
  have hnone : Meets false 0 (PrepareAt s₀ start .resolveActivePeer) (pure none : Run env (Option (Path × Path)))
      (fun res w => PrepareAt s₀ start (if res.isSome then .disableWrite else .returned false) w ∧ True)
      (Preparing s₀) :=
    Meets.ret (fun w hw => ⟨hw.next ⟨false, .other⟩ (by simp) rfl rfl rfl, trivial⟩)
  refine Meets.bind (m := 1) (n := 0) (F := fun _ => True)
    (K := fun res w => PrepareAt s₀ start .resolveActivePeer w ∧ ∀ b, res = some b → b = w.ctl.mounted)
    (Meets.call h.stable h.safe (fun r w _ hw => ⟨⟨hw, fun b heq => ?_⟩, trivial⟩)) (fun res _ => ?_)
  · cases hok : r.ok <;> simp_all
  rcases res with _ | backing
  · exact hnone.pre (fun w hw => hw.1)
  have hstable : Stable env (fun w => PrepareAt s₀ start .resolveActivePeer w ∧
      ∀ b, some backing = some b → b = w.ctl.mounted) := fun w r hw => ⟨h.stable w r hw.1, hw.2⟩
  refine Meets.branch (n := 0) hstable (fun w hw => h.safe w hw.1) ?_ (fun _ => hnone.pre (fun w hw => hw.1))
  refine Meets.branch (n := 0) hstable (fun w hw => h.safe w hw.1) ?_ (fun _ => hnone.pre (fun w hw => hw.1))
  cases hpeer : activePeer L backing first second with
  | none => exact hnone.pre (fun w hw => hw.1)
  | some pair =>
      refine Meets.ret (fun w hw => ⟨hw.1.next ⟨true, .other⟩ (by simp) rfl rfl ?_, trivial⟩)
      have hmounted : w.ctl.mounted.isSome = true := hw.2 backing rfl ▸ isSome_of_activePeer hpeer
      simp [prepareStep, State.seen, hmounted]

theorem meets_umountPartition_at (devices : Path) :
    Meets false 0 (PrepareAt s₀ start .splitDevices) (umountPartition L sha devices : Run env ExitCode)
      (UmountEnds s₀ start) (Preparing s₀) := by
  have h := kept_prepareAt env s₀ start .splitDevices (by simp)
  refine Meets.bind (m := 1) (n := 0) (K := fun _ => PrepareAt s₀ start .splitDevices)
    (meets_splitDevices h.stable h.safe) (fun pair _ => ?_)
  rcases pair with _ | ⟨first, second⟩
  · exact Meets.ret (fun w hw => hw.next ⟨false, .other⟩ (by simp) rfl rfl rfl)
  refine Meets.pre (K := PrepareAt s₀ start .resolveActivePeer) ?_
    (fun w hw => hw.next ⟨true, .other⟩ (by simp) rfl rfl rfl)
  refine Meets.bind (m := 0) (n := 0) (meets_resolveActivePeer_at first second) (fun pair _ => ?_)
  rcases pair with _ | ⟨active, peer⟩
  · exact Meets.ret (fun _ hw => hw)
  · exact meets_sealAndCopy_at active peer

/-- systemd reports exited only of a mount command that has returned success. -/
def Honest (s₀ : State) (w : World) : Prop := w.ctl.service = .exited → s₀.mount = .returned .ok

def WaitAt (s₀ : State) (start : Nat) (pc : PreparePc) (w : World) : Prop :=
  PrepareAt s₀ start pc w ∧ Honest s₀ w

theorem stable_waitAt (env : Env) (s₀ : State) (start : Nat) (pc : PreparePc) : Stable env (WaitAt s₀ start pc) :=
  fun w r hw => ⟨stable_leads _ _ w r hw.1, hw.2⟩

theorem WaitAt.preparing (hpc : ∀ ok, pc ≠ .returned ok) (w : World) (hw : WaitAt s₀ start pc w) :
    Preparing s₀ w :=
  ⟨start, pc, hpc, hw.1⟩

theorem WaitAt.next (h : WaitAt s₀ start pc w) (reply : Reply) (hpc : pc ≠ .readStart)
    (hstep : prepareStep (State.seen { s₀ with prepare := pc, start := start } w) reply = some pc') :
    WaitAt s₀ start pc' w := ⟨h.1.next reply hpc rfl rfl hstep, h.2⟩

def afterWait (b : Bool) : PreparePc := if b = true then .splitDevices else .returned false

theorem meets_waitRound_at (s : Nat) (u : Unit) :
    Meets false 0 (Since (WaitAt s₀ start .getUnitSubstate) s) (waitRound start u : Run env (Unit ⊕ Bool))
      (RoundEnds (WaitAt s₀ start .getUnitSubstate) start s (fun b => WaitAt s₀ start (afterWait b)))
      (Preparing s₀) := by
  have hquery := stable_since (stable_waitAt env s₀ start .getUnitSubstate) s
  have hclock := stable_since (stable_waitAt env s₀ start .readNow) s
  refine Meets.bind (m := 1) (n := 0)
    (meets_getUnitSubstate hquery (fun w hw => WaitAt.preparing (by simp) w hw.1)) (fun state _ => ?_)
  have hrefuse {K : World → Prop} (hK : ∀ w, K w → WaitAt s₀ start (.returned false) w) :
      Meets false 0 K (pure (.inr false) : Run env (Unit ⊕ Bool))
        (RoundEnds (WaitAt s₀ start .getUnitSubstate) start s (fun b => WaitAt s₀ start (afterWait b)))
        (Preparing s₀) := Meets.ret hK
  rcases state with _ | state
  · exact hrefuse (fun w hw => hw.1.1.next ⟨false, .other⟩ (by simp) rfl)
  cases state with
  | exited =>
      refine Meets.ret (fun w hw => hw.1.1.next ⟨true, .exited⟩ (by simp) ?_)
      have hmount : s₀.mount = .returned .ok := hw.1.1.2 (hw.2 _ rfl).symm
      simp [prepareStep, State.seen, waitOutcome, afterWait, hmount]
  | other => exact hrefuse (fun w hw => hw.1.1.next ⟨true, .other⟩ (by simp) rfl)
  | startPre | start | startPost | running =>
      refine Meets.pre (K := Since (WaitAt s₀ start .readNow) s) ?_
        (fun w hw => ⟨hw.1.1.next ⟨true, .running⟩ (by simp) rfl, hw.1.2⟩)
      refine Meets.bind (m := 1) (n := 0)
        (meets_clockGettime hclock (fun w hw => WaitAt.preparing (by simp) w hw.1)) (fun now _ => ?_)
      rcases now with _ | now
      · exact hrefuse (fun w hw => hw.1.1.next ⟨false, .other⟩ (by simp) rfl)
      dsimp only
      split_ifs with hlate
      · refine hrefuse (fun w hw => hw.1.1.next ⟨true, .other⟩ (by simp) ?_)
        have helapsed : ¬ elapsed start w.ctl.now < readyTimeoutUsec := hw.2 now rfl ▸ Nat.not_lt.mpr hlate
        simp [prepareStep, State.seen, helapsed]
      · refine Meets.ret (fun w hw => ?_)
        have helapsed : elapsed start w.ctl.now < readyTimeoutUsec := hw.2 now rfl ▸ Nat.not_le.mp hlate
        have hsleep : WaitAt s₀ start .sleep w :=
          hw.1.1.next ⟨true, .other⟩ (by simp) (by simp [prepareStep, State.seen, helapsed])
        exact ⟨⟨hsleep.next ⟨true, .other⟩ (by simp) rfl, hw.1.2⟩, helapsed⟩

/-- Where the first reading of the clock leaves the wait. -/
def StartRead (s₀ : State) : Option Nat → World → Prop
  | none, w => WaitAt s₀ w.ctl.now (.returned false) w
  | some start, w => Since (WaitAt s₀ start .getUnitSubstate) start w

theorem meets_waitMountRecoveryComplete_at :
    Meets false 0 (WaitAt s₀ s₀.start .busOpen) (waitMountRecoveryComplete : Run env Bool)
      (fun b w => (∃ start, WaitAt s₀ start (afterWait b) w) ∧ True) (Preparing s₀) := by
  have hopen := stable_waitAt env s₀ s₀.start .busOpen
  have hread := stable_waitAt env s₀ s₀.start .readStart
  refine Meets.bind (m := 1) (n := 0) (K := fun _ => WaitAt s₀ s₀.start .busOpen)
    (Meets.succeeds hopen (WaitAt.preparing (by simp))) (fun opened _ => ?_)
  cases opened with
  | false => exact Meets.ret (fun w hw => ⟨⟨_, hw.next ⟨false, .other⟩ (by simp) rfl⟩, trivial⟩)
  | true =>
      refine Meets.pre (K := WaitAt s₀ s₀.start .readStart) ?_
        (fun w hw => hw.next ⟨true, .other⟩ (by simp) rfl)
      refine Meets.bind (m := 1) (n := 0) (F := fun _ => True) (K := StartRead s₀)
        (Meets.call hread (WaitAt.preparing (by simp)) (fun r w _ hw => ⟨?_, trivial⟩)) (fun now _ => ?_)
      · cases r.ok with
        | false => exact ⟨Leads.next hw.1 (.prepare ⟨false, .other⟩) rfl, hw.2⟩
        | true => exact ⟨⟨Leads.next hw.1 (.prepare ⟨true, .other⟩) rfl, hw.2⟩, le_rfl⟩
      · rcases now with _ | start
        · exact Meets.ret (fun w hw => ⟨⟨_, hw⟩, trivial⟩)
        · exact (meets_timedLoop (stable_waitAt env s₀ start .getUnitSubstate) (WaitAt.preparing (by simp))
            (fun w n hw => ⟨Leads.tick hw.1 n, hw.2⟩) (fun u s _ => meets_waitRound_at s u) ()).post
              (fun _ _ hw => ⟨⟨start, hw⟩, trivial⟩)

theorem meets_prepareAppParam_at (devices : Path) :
    Meets false 0 (WaitAt s₀ s₀.start .busOpen) (prepareAppParam L sha devices : Run env Bool)
      (fun ok w => ∃ start, PrepareAt s₀ start (.returned ok) w) (Preparing s₀) := by
  refine Meets.bind (m := 0) (n := 0) meets_waitMountRecoveryComplete_at (fun b _ => ?_)
  cases b with
  | false => exact Meets.ret (fun _ hw => hw.imp (fun _ h => h.1))
  | true =>
      refine Meets.exists (fun start => ?_)
      refine (Meets.bind (m := 0) (n := 0) (K := UmountEnds s₀ start) (F := fun _ => True)
        ((meets_umountPartition_at devices).post (fun _ _ hw => ⟨hw, trivial⟩)) (fun code _ => ?_)).pre
          (fun w hw => hw.1)
      exact Meets.ret (fun w hw => ⟨start, hw⟩)

/-- Every run of the power prepare is one of these steps, with the same result. -/
theorem prepareAppParam_leads (devices : Path) (rs : List (Answer env.Choice)) (hstart : s₀.prepare = .notStarted)
    (hseen : s₀.seen w = s₀) (hhonest : Honest s₀ w) :
    (∀ ok rs' w', (prepareAppParam L sha devices : Run env Bool) rs w = .done ok rs' w' →
      ∃ start, PrepareAt s₀ start (.returned ok) w') ∧
    ∀ w', (prepareAppParam L sha devices : Run env Bool) rs w = .stopped w' → Preparing s₀ w' := by
  have hbegin : Leads s₀ s₀ w := ⟨[], by rw [hseen]; rfl⟩
  have hfirst : WaitAt s₀ s₀.start .busOpen w :=
    ⟨hbegin.next (.startPrepare .prepareAppParam) (if_pos hstart), hhonest⟩
  exact ⟨fun _ _ _ h => (meets_prepareAppParam_at devices).done hfirst h,
    fun _ h => (meets_prepareAppParam_at devices).stopped hfirst h⟩

theorem umountPartition_leads (devices : Path) (rs : List (Answer env.Choice)) (hstart : s₀.prepare = .notStarted)
    (hseen : s₀.seen w = s₀) :
    (∀ code rs' w', (umountPartition L sha devices : Run env ExitCode) rs w = .done code rs' w' →
      PrepareAt s₀ s₀.start (.returned (decide (code = .ok))) w') ∧
    ∀ w', (umountPartition L sha devices : Run env ExitCode) rs w = .stopped w' → Preparing s₀ w' := by
  have hbegin : Leads s₀ s₀ w := ⟨[], by rw [hseen]; rfl⟩
  have hfirst : PrepareAt s₀ s₀.start .splitDevices w :=
    hbegin.next (.startPrepare .fsctlUmount) (if_pos hstart)
  exact ⟨fun _ _ _ h => (meets_umountPartition_at devices).done hfirst h,
    fun _ h => (meets_umountPartition_at devices).stopped hfirst h⟩

end Prepare

end SuperRaid.Exclusion
