import SuperRaid.Recovery
import SuperRaid.VerifySpec

namespace SuperRaid.MountSpec

open Image Footer Volatile Sys Machine Storage Recovery Calls StorageSpec VerifySpec

variable {env : Env} {L : Layout} {sha : Sha} {t : Bool} {X C : World → Prop}

section Settings

variable (hX : Stable env X) (hC : ∀ w, X w → C w)

include hX hC

theorem meets_writeDirtySettings (hset : ∀ w k v, X w → X (setDirty w k v)) (settings : DirtySettings) :
    Meets t 3 X (writeDirtySettings settings : Run env Bool) (fun b w => X w ∧ (t = true → b = true)) C := by
  have hwrite (k : Knob) : Meets t 1 X (writeSysctlU32 k (settings k) : Run env Bool)
      (fun b w => X w ∧ (t = true → b = true)) C := by
    refine Meets.call hX hC (fun r w hr hw => ⟨?_, fun ht => (hr ht).1⟩)
    dsimp only
    split_ifs
    · exact hset w k _ hw
    · exact hw
  refine Meets.bind (m := 1) (n := 2) (K := fun _ => X) (hwrite _) (fun writeback h₁ => ?_)
  refine Meets.bind (m := 1) (n := 1) (K := fun _ => X) (hwrite _) (fun background h₂ => ?_)
  refine Meets.bind (m := 1) (n := 0) (K := fun _ => X) (hwrite _) (fun ratio h₃ => ?_)
  exact Meets.ret (fun w hw => ⟨hw, fun ht => by rw [h₁ ht, h₂ ht, h₃ ht]; rfl⟩)

theorem meets_restoreDirtySettings (hset : ∀ w k v, X w → X (setDirty w k v)) :
    Meets t 3 X (restoreDirtySettings : Run env Bool) (fun b w => X w ∧ (t = true → b = true)) C :=
  fun rs w hr hw => meets_writeDirtySettings hX hC hset w.ctl.original rs w hr hw

theorem meets_readDirtySettings (hsave : ∀ w k, X w → X (saveDirty w k)) :
    Meets t 3 X (readDirtySettings : Run env Bool) (fun b w => X w ∧ (t = true → b = true)) C := by
  have hread (k : Knob) : Meets t 1 X (readSysctlU32 k : Run env Bool)
      (fun b w => X w ∧ (t = true → b = true)) C := by
    refine Meets.call hX hC (fun r w hr hw => ⟨?_, fun ht => (hr ht).1⟩)
    dsimp only
    split_ifs
    · exact hsave w k hw
    · exact hw
  have hfail {n : Nat} {b : Bool} (hb : t = true → b = true) (h : ¬ b = true) :
      Meets t n X (pure false : Run env Bool) (fun b w => X w ∧ (t = true → b = true)) C :=
    Meets.ret (fun w hw => ⟨hw, fun ht => absurd (hb ht) h⟩)
  refine Meets.bind (m := 1) (n := 2) (K := fun _ => X) (hread _) (fun writeback h₁ => ?_)
  split_ifs with hw
  · refine Meets.bind (m := 1) (n := 1) (K := fun _ => X) (hread _) (fun background h₂ => ?_)
    split_ifs with hb
    · exact hread _
    · exact hfail h₂ hb
  · exact hfail h₁ hw

end Settings

/-- What has to be known to follow mount_partition, where path k is the k-th device it tries. P k holds when k devices
have been rejected, V after a verify has accepted one, U while it is mounted, F when all went well, and X once it has
failed. -/
structure MountPlan (env : Env) (L : Layout) (sha : Sha) (t : Bool) (path : Nat → Path) (P : Nat → World → Prop)
    (V U F : Nat → Bytes → World → Prop) (X C : World → Prop) : Prop where
  stable : ∀ k, Stable env (P k)
  stable_verified : ∀ k digest, Stable env (V k digest)
  stable_mounted : ∀ k digest, Stable env (U k digest)
  stable_failed : Stable env X
  safe : ∀ k w, P k w → C w
  safe_verified : ∀ k digest w, V k digest w → C w
  safe_mounted : ∀ k digest w, U k digest w → C w
  safe_failed : ∀ w, X w → C w
  save : ∀ w j, P 0 w → P 0 (saveDirty w j)
  delay : ∀ w j v, P 0 w → P 0 (setDirty w j v)
  reject : ∀ k res w, P k w → (∀ d, path k = L.name d → VerifiesDev env t L sha (P k) d res) →
    (∀ digest, res ≠ .ok digest) → P (k + 1) (w.note (.verified (path k) res))
  accept : ∀ k digest w, P k w → (∀ d, path k = L.name d → VerifiesDev env t L sha (P k) d (.ok digest)) →
    V k digest (w.note (.verified (path k) (.ok digest)))
  mount : ∀ k digest d w, V k digest w → L.node (path k) = some (.part d) → U k digest (setMounted w d (path k))
  refuse : ∀ k digest w, V k digest w → (t = true → ∀ d, path k ≠ L.name d) → P (k + 1) w
  notify : ∀ k digest w, U k digest w → F k digest (w.note .notified)
  unmount : t = false → ∀ k digest w, U k digest w → X (clearMounted w)
  linger : t = false → ∀ k digest w, U k digest w → X w
  giveUp : ∀ k w, (t = true → 2 ≤ k) → P k w → X w
  restore : ∀ w j v, X w → X (setDirty w j v)

section Mount

variable {path : Nat → Path} {P : Nat → World → Prop} {V U F : Nat → Bytes → World → Prop}

def MountEnds (candidates : List (Path × Path)) (k : Nat) (F : Nat → Bytes → World → Prop) (X : World → Prop)
    (res : Except Failure AppState) (w : World) : Prop :=
  match res with
  | .ok st => ∃ i, candidates[i]? = some (st.mountedDev, st.otherDev) ∧ F (k + i) st.mountedDigest w
  | .error _ => X w

theorem meets_failRestoreDirty (h : MountPlan env L sha t path P V U F X C) {code : Failure}
    (candidates : List (Path × Path)) (k : Nat) :
    Meets t 3 X (failRestoreDirty code : Run env (Except Failure AppState)) (MountEnds candidates k F X) C :=
  Meets.bind (m := 3) (n := 0) (K := fun _ => X) (meets_restoreDirtySettings h.stable_failed h.safe_failed h.restore)
    (fun _ _ => Meets.ret (fun _ hw => hw))

theorem meets_failUnmount (h : MountPlan env L sha t path P V U F X C) (ht : t = false) {code : Failure}
    (candidates : List (Path × Path)) (i k : Nat) {digest : Bytes} :
    Meets t 4 (U i digest) (failUnmount code : Run env (Except Failure AppState)) (MountEnds candidates k F X) C := by
  refine Meets.bind (m := 1) (n := 3) (K := fun _ => X) (F := fun _ => True)
    (Meets.call (h.stable_mounted i digest) (h.safe_mounted i digest) (fun r w _ hw => ⟨?_, trivial⟩))
    (fun _ _ => meets_failRestoreDirty h candidates k)
  dsimp only
  split_ifs
  · exact h.unmount ht i digest w hw
  · exact h.linger ht i digest w hw

theorem meets_mount (h : MountPlan env L sha t path P V U F X C) (k : Nat) (digest : Bytes) :
    Meets t 1 (V k digest) (mount L (path k) : Run env Bool)
      (fun b w => (if b = true then U k digest w else P (k + 1) w) ∧
        (t = true → ∀ d, path k = L.name d → b = true))
      C := by
  refine Meets.call (h.stable_verified k digest) (h.safe_verified k digest) (fun r w hr hw => ?_)
  have hrefuse (hne : t = true → ∀ d, path k ≠ L.name d) : P (k + 1) w ∧
      (t = true → ∀ d, path k = L.name d → false = true) :=
    ⟨h.refuse k digest w hw hne, fun ht d hd => absurd hd (hne ht d)⟩
  cases hok : r.ok with
  | false => exact hrefuse (fun ht => absurd (hr ht).1 (by simp [hok]))
  | true =>
      rcases hn : L.node (path k) with _ | d | _
      · exact hrefuse (fun _ d hd => absurd (hd ▸ L.node_name d) (by simp [hn]))
      · exact ⟨h.mount k digest d w hw hn, fun _ _ _ => rfl⟩
      · exact hrefuse (fun _ d hd => absurd (hd ▸ L.node_name d) (by simp [hn]))

theorem meets_mountCandidates (h : MountPlan env L sha t path P V U F X C) (candidates : List (Path × Path)) (k : Nat)
    (hpath : ∀ i pair, candidates[i]? = some pair → pair.1 = path (k + i))
    (hk : t = true → 2 ≤ k + candidates.length) (digest : Bytes) :
    Meets t (144 * candidates.length + 3) (P k)
      (mountCandidates L sha candidates digest : Run env (Except Failure AppState)) (MountEnds candidates k F X) C := by
  induction candidates generalizing k digest with
  | nil => exact (meets_failRestoreDirty h [] k).pre (fun w hw => h.giveUp k w hk hw)
  | cons pair rest ih =>
      obtain ⟨candidate, other⟩ := pair
      obtain rfl : candidate = path k := hpath 0 _ rfl
      have hlater : ∀ res w, MountEnds rest (k + 1) F X res w →
          MountEnds ((path k, other) :: rest) k F X res w := by
        intro res w hw
        cases res with
        | error code => exact hw
        | ok st =>
            obtain ⟨i, hi, hF⟩ := hw
            exact ⟨i + 1, hi, by rwa [Nat.add_right_comm] at hF⟩
      have hnext (digest : Bytes) :=
        (ih (k + 1) (fun i pair hi => by rw [Nat.add_right_comm]; exact hpath (i + 1) pair hi)
          (fun ht => by have := hk ht; rw [List.length_cons] at this; omega) digest).post hlater
      refine (Meets.bind (m := 137) (n := 144 * rest.length + 10) (F := fun _ => True)
        (K := fun res w => match res with
          | .ok digest => V k digest w
          | .error _ => P (k + 1) w)
        (meets_verify (h.stable k) (h.safe k) (fun res w hw hres => ⟨?_, trivial⟩)) (fun res _ => ?_)).mono
        (by rw [List.length_cons]; omega)
      · cases res with
        | ok digest => exact h.accept k digest w hw hres
        | error code => exact h.reject k _ w hw hres (by simp)
      cases res with
      | error code => exact (hnext digest).mono (by omega)
      | ok digest =>
          refine (Meets.bind (m := 1) (n := 144 * rest.length + 9) (meets_mount h k digest)
            (fun mounted _ => ?_)).mono (by omega)
          cases mounted with
          | false => exact (hnext digest).mono (by omega)
          | true =>
              refine (Meets.branch (n := 5) (h.stable_mounted k digest) (h.safe_mounted k digest) ?_
                (fun ht => (meets_failUnmount h ht _ k k).mono (by omega))).mono (by omega)
              refine Meets.bind (m := 1) (n := 4) (F := fun b => ¬ b = true → t = false)
                (K := fun b w => if b = true then F k digest w else U k digest w)
                (Meets.call (h.stable_mounted k digest) (h.safe_mounted k digest)
                  (fun r w hr hw => ⟨?_, hr.not_failed⟩)) (fun notified hnotified => ?_)
              · cases hok : r.ok with
                | true => exact h.notify k digest w hw
                | false => exact hw
              cases notified with
              | true => exact Meets.ret (fun w hw => ⟨0, rfl, hw⟩)
              | false => exact meets_failUnmount h (hnotified (by decide)) _ k k

theorem meets_mountPartition (h : MountPlan env L sha t path P V U F X C) {devices : Path}
    (hsplit : splitSpec devices = some (path 0, path 1)) :
    Meets t 299 (P 0) (mountPartition L sha devices : Run env (Except Failure AppState))
      (MountEnds [(path 0, path 1), (path 1, path 0)] 0 F X) C := by
  have hgiveUp (ht : t = false) (w : World) (hw : P 0 w) : X w := h.giveUp 0 w (by simp [ht]) hw
  have hrestore {n : Nat} (ht : t = false) : Meets t (3 + n) (P 0)
      (failRestoreDirty .ioError : Run env (Except Failure AppState))
      (MountEnds [(path 0, path 1), (path 1, path 0)] 0 F X) C :=
    ((meets_failRestoreDirty h _ 0).pre (hgiveUp ht)).mono (by omega)
  have hpath : ∀ i pair, [(path 0, path 1), (path 1, path 0)][i]? = some pair → pair.1 = path (0 + i) := by
    intro i pair hi
    match i, hi with
    | 0, hi => rw [← Option.some.inj hi]
    | 1, hi => rw [← Option.some.inj hi]
  refine Meets.bind (m := 1) (n := 298) (K := fun _ => P 0) (meets_splitDevices (h.stable 0) (h.safe 0))
    (fun pair hpair => ?_)
  rcases pair with _ | pair
  · refine Meets.ret (fun w hw => hgiveUp ?_ w hw)
    cases t with
    | false => rfl
    | true => exact absurd ((hpair.2 rfl).trans hsplit) (by simp)
  obtain rfl : pair = (path 0, path 1) := Option.some.inj ((hpair.1 pair rfl).symm.trans hsplit)
  refine Meets.bind (m := 3) (n := 295) (K := fun _ => P 0) (meets_readDirtySettings (h.stable 0) (h.safe 0) h.save)
    (fun saved hsaved => ?_)
  cases saved with
  | false => exact Meets.ret (fun w hw => hgiveUp (not_all_succeed hsaved rfl) w hw)
  | true =>
      refine Meets.bind (m := 3) (n := 292) (K := fun _ => P 0)
        (meets_writeDirtySettings (h.stable 0) (h.safe 0) h.delay delayed) (fun set hset => ?_)
      cases set with
      | false => exact hrestore (n := 289) (not_all_succeed hset rfl)
      | true =>
          refine Meets.branch (n := 291) (h.stable 0) (h.safe 0) ?_ (fun ht => hrestore (n := 288) ht)
          exact meets_mountCandidates h [(path 0, path 1), (path 1, path 0)] 0 hpath (fun _ => by simp) _

end Mount

end SuperRaid.MountSpec
