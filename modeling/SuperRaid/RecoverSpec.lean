import SuperRaid.CopySpec
import SuperRaid.MountSpec
import SuperRaid.ReleaseSpec

namespace SuperRaid.RecoverSpec

open Image Footer Volatile Sys Machine Storage Recovery Calls StorageSpec VerifySpec CopySpec MountSpec ReleaseSpec

variable {env : Env} {L : Layout} {sha : Sha} {t : Bool} {C : World → Prop}

def sourceOf (L : Layout) (d : Dev) : Path × Nat × Nat := (L.parentName, 512 * L.startSector d, L.size d)

/-- A result of resolve_partition_source: the range of a partition, and no failure when all calls succeed. -/
def Resolved (t : Bool) (L : Layout) (path : Path) (res : Option (Path × Nat × Nat)) : Prop :=
  (∀ source, res = some source → ∃ d, L.node path = some (.part d) ∧ source = sourceOf L d) ∧
    (t = true → ∀ d, path = L.name d → supported (L.target (.part d)) = true →
      L.startSector d ≤ (2 ^ 64 - 1) / 512 → res = some (sourceOf L d))

theorem meets_resolvePartitionSource {P : World → Prop} {path : Path} (hP : Stable env P) (hC : ∀ w, P w → C w) :
    Meets t 8 P (resolvePartitionSource L path : Run env (Option (Path × Nat × Nat)))
      (fun res w => P w ∧ Resolved t L path res) C := by
  have hnone {n : Nat} (h : t = true → ∀ d, path = L.name d → supported (L.target (.part d)) = true →
      ¬ L.startSector d ≤ (2 ^ 64 - 1) / 512) : Meets t n P (pure none : Run env (Option (Path × Nat × Nat)))
      (fun res w => P w ∧ Resolved t L path res) C :=
    Meets.ret (fun w hw => ⟨hw, by simp, fun ht d hd hs hle => absurd hle (h ht d hd hs)⟩)
  have hfail {n : Nat} (ht : t = false) := hnone (n := n) (fun h => absurd (ht.symm.trans h) (by decide))
  refine Meets.branch (n := 7) hP hC ?_ (fun ht => hfail ht)
  rcases hnode : L.node path with _ | d | _
  · exact hnone (fun _ d hd => absurd (hnode.symm.trans (hd ▸ L.node_name d)) (by simp))
  · refine Meets.branch (n := 6) hP hC ?_ (fun ht => hfail ht)
    refine Meets.branch (n := 5) hP hC ?_ (fun ht => hfail ht)
    have hdev : ∀ d', path = L.name d' → d' = d := fun d' hd' =>
      Node.part.inj (Option.some.inj ((hd' ▸ L.node_name d').symm.trans hnode))
    refine Meets.bind (m := 4) (n := 1) (K := fun _ => P) (meets_openTarget hP hC) (fun opened hopened => ?_)
    rcases opened with _ | tg
    · refine hnone (fun ht d' hd' hs => ?_)
      have hopen : Openable L P path .read (.part d') := ⟨hd' ▸ L.node_name d', hs, by simp, by simp⟩
      exact absurd (hopened.2 ht _ hopen) (by simp)
    obtain ⟨node, rfl, hnode', -⟩ := hopened.1 tg rfl
    obtain rfl : node = .part d := Option.some.inj (hnode'.symm.trans hnode)
    refine Meets.close (n := 0) hP hC ?_
    split_ifs with hover
    · exact hnone (fun _ d' hd' _ => by rw [hdev d' hd']; exact Nat.not_le.mpr hover)
    · refine Meets.ret
        (fun w hw => ⟨hw, fun source h => ⟨d, hnode, (Option.some.inj h).symm⟩, fun _ d' hd' _ _ => ?_⟩)
      rw [hdev d' hd']
      rfl
  · exact hnone (fun _ d hd => absurd (hnode.symm.trans (hd ▸ L.node_name d)) (by simp))

/-- What has to be known to follow recover_app_param for a given state of fsctl. P holds at its start, I while it
copies and S p after the copy has left p on the peer, R once the peer has been found equal, Q during the release, D
after it, X once recovery has failed, and Y while the settings are restored. -/
structure RecoverPlan (env : Env) (L : Layout) (sha : Sha) (t : Bool) (st : AppState) (P : World → Prop)
    (I : Nat → World → Prop) (S : Bytes → World → Prop) (R Q : World → Prop) (D : Bool → World → Prop)
    (X : World → Prop) (Y : ExitCode → World → Prop) (C : World → Prop) : Prop where
  stable : Stable env P
  stable_releasing : Stable env Q
  stable_restoring : ∀ code, Stable env (Y code)
  safe : ∀ w, P w → C w
  safe_releasing : ∀ w, Q w → C w
  safe_restoring : ∀ code w, Y code w → C w
  frame : CopyFrame env I (fun w => ∃ p, S p w) C
  stable_copied : ∀ p, Stable env (S p)
  equal : ∀ w, P w → (∀ d, st.otherDev = L.name d → VerifiesDev env t L sha P d (.ok st.mountedDigest)) →
    R (w.note (.verified st.otherDev (.ok st.mountedDigest)))
  differs : ∀ res w, P w → (∀ d, st.otherDev = L.name d → VerifiesDev env t L sha P d res) →
    res ≠ .ok st.mountedDigest → I 0 (w.note (.verified st.otherDev res))
  copies : ∀ d e, L.node st.mountedDev = some (.part d) → L.node st.otherDev = some (.part e) →
    L.size d = L.size e → Copies L .parent (512 * L.startSector d) (L.size d) e I (fun w => ∃ p, S p w)
  ready : t = true → ∃ d e, st.mountedDev = L.name d ∧ st.otherDev = L.name e ∧
    supported (L.target (.part d)) = true ∧ L.startSector d ≤ (2 ^ 64 - 1) / 512 ∧
    supported (L.target .parent) = true ∧ CopyReady L I (L.target .parent) (512 * L.startSector d) (L.size d) e
  repaired : ∀ p w, S p w →
    (∀ d, st.otherDev = L.name d → VerifiesDev env t L sha (S p) d (.ok st.mountedDigest)) →
    R (w.note (.verified st.otherDev (.ok st.mountedDigest)))
  broken : ∀ p res w, S p w → (∀ d, st.otherDev = L.name d → VerifiesDev env t L sha (S p) d res) →
    res ≠ .ok st.mountedDigest → X (w.note (.verified st.otherDev res))
  failed : t = false → ∀ k w, I k w → X w
  recovered : ∀ w, R w → Q { w with ctl := { w.ctl with recovered := true } }
  killed : ∀ w s, Q w → Q (w.note (.killed s))
  tick : ∀ w n, Q w → Q (tick w n)
  released : ∀ b w, Q w → (t = true → b = true) → D b (w.note .released)
  finish : ∀ w, D true w → Y .ok { w with ctl := { w.ctl with restored := true } }
  finishUnreleased : ∀ w, D false w → Y (.failed .ioError) { w with ctl := { w.ctl with restored := true } }
  finishFailed : ∀ f w, X w → Y (.failed f) { w with ctl := { w.ctl with restored := true } }
  restore : ∀ code w j v, Y code w → Y code (setDirty w j v)

section Recover

variable {st : AppState} {P : World → Prop} {I : Nat → World → Prop} {S : Bytes → World → Prop}
  {R Q : World → Prop}
  {D : Bool → World → Prop}
  {X : World → Prop} {Y : ExitCode → World → Prop}

def RecoverEnds (D : Bool → World → Prop) (X : World → Prop) (code : ExitCode) (w : World) : Prop :=
  match code with
  | .ok => D true w
  | .failed f => (f = .ioError ∧ D false w) ∨ X w

theorem meets_releasePeer (h : RecoverPlan env L sha t st P I S R Q D X Y C) :
    Meets t 3608 R (releasePeer : Run env ExitCode) (RecoverEnds D X) C := by
  refine Meets.bind (m := 0) (n := 3608) (K := fun _ => Q) (F := fun _ => True)
    (Meets.modify (fun w hw => ⟨h.recovered w hw, trivial⟩)) (fun _ _ => ?_)
  refine Meets.bind (m := 3608) (n := 0) (K := D) (F := fun _ => True) ?_ (fun b _ => ?_)
  · refine Meets.bind (m := 3608) (n := 0) (K := fun _ => Q)
      (meets_releaseLoop h.stable_releasing h.safe_releasing h.tick h.killed) (fun b hb => ?_)
    exact Meets.bind (m := 0) (n := 0) (K := fun _ => D b) (F := fun _ => True)
      (Meets.note (fun w hw => ⟨h.released b w hw hb, trivial⟩))
      (fun _ _ => Meets.ret (fun w hw => ⟨hw, trivial⟩))
  · cases b with
    | true => exact Meets.ret (fun w hw => hw)
    | false => exact Meets.ret (fun w hw => .inl ⟨rfl, hw⟩)

def copyCost (L : Layout) : Nat := 2 * (L.size .a + L.size .b)

theorem size_le_copyCost (L : Layout) (d : Dev) : 2 * L.size d ≤ copyCost L := by
  cases d <;> (unfold copyCost; omega)

theorem meets_copySource (h : RecoverPlan env L sha t st P I S R Q D X Y C) {d : Dev}
    (hd : L.node st.mountedDev = some (.part d)) :
    Meets t (copyCost L + 12) (I 0)
      (copyBlockRange L L.parentName (512 * L.startSector d) (L.size d) st.otherDev : Run env Bool)
      (fun b w => CopyEnds I (fun w => ∃ p, S p w) b w ∧ (t = true → b = true)) C := by
  refine meets_copyFrom h.frame (fun node e hnode he hsize => ?_) (fun _ _ => size_le_copyCost L d) (fun ht => ?_)
  · obtain rfl : node = .parent := Option.some.inj (hnode.symm.trans L.node_parentName)
    exact h.copies d e hd he hsize
  · obtain ⟨d', e, hd', he, -, -, hparent, hready⟩ := h.ready ht
    obtain rfl : d' = d := Node.part.inj (Option.some.inj ((hd' ▸ L.node_name d').symm.trans hd))
    exact ⟨he ▸ (L.parent_ne e).symm, .parent, e, he, ⟨L.node_parentName, hparent, by simp, by simp⟩, hready⟩

theorem meets_recoverPeer (h : RecoverPlan env L sha t st P I S R Q D X Y C) :
    Meets t (copyCost L + 157) (I 0) (recoverPeer L sha st : Run env ExitCode)
      (fun code w => (if code = .ok then R w else X w) ∧ True) C := by
  have hfailed (hf : t = false) (w : World) (hw : ∃ k, I k w) : X w := by
    obtain ⟨k, hk⟩ := hw
    exact h.failed hf k w hk
  refine (Meets.bind (m := 8) (n := copyCost L + 149) (K := fun _ => I 0)
    (meets_resolvePartitionSource (h.frame.stable 0) (h.frame.safe 0)) (fun res hres => ?_)).mono (by omega)
  rcases res with _ | source
  · refine Meets.ret (fun w hw => ⟨hfailed ?_ w ⟨0, hw⟩, trivial⟩)
    cases t with
    | false => rfl
    | true =>
        obtain ⟨d, e, hd, -, hsup, hstart, -⟩ := h.ready rfl
        exact absurd (hres.2 rfl d hd hsup hstart) (by simp)
  obtain ⟨d, hd, rfl⟩ := hres.1 source rfl
  refine (Meets.bind (n := 137) (meets_copySource h hd) (fun copied hcopied => ?_)).mono (by omega)
  cases copied with
  | false => exact Meets.ret (fun w hw => ⟨hfailed (not_all_succeed hcopied rfl) w hw, trivial⟩)
  | true =>
      refine Meets.bind (m := 137) (n := 0) (F := fun _ => True)
        (K := fun res w => if res = .ok st.mountedDigest then R w else X w)
        (Meets.exists (fun p => meets_verify (h.stable_copied p) (fun w hw => h.frame.safe_done w ⟨p, hw⟩)
          (fun res w hw hres => ⟨?_, trivial⟩))) (fun res _ => ?_)
      · split_ifs with heq
        · rw [heq] at hres ⊢
          exact h.repaired p w hw hres
        · exact h.broken p res w hw hres heq
      cases res with
      | error code => exact Meets.ret (fun w hw => ⟨by simpa using hw, trivial⟩)
      | ok digest =>
          dsimp only
          by_cases heq : st.mountedDigest = digest
          · rw [if_pos heq]
            exact Meets.ret (fun w hw => ⟨by simpa [heq] using hw, trivial⟩)
          · have hne : digest ≠ st.mountedDigest := fun h => heq h.symm
            rw [if_neg heq]
            exact Meets.ret (fun w hw => ⟨by simpa [hne] using hw, trivial⟩)

theorem meets_recoverAndRelease (h : RecoverPlan env L sha t st P I S R Q D X Y C) :
    Meets t (copyCost L + 3902) P (recoverAndRelease L sha st : Run env ExitCode) (RecoverEnds D X) C := by
  refine (Meets.bind (m := 137) (n := copyCost L + 3765) (F := fun _ => True)
    (K := fun res w => if res = .ok st.mountedDigest then R w else I 0 w)
    (meets_verify h.stable h.safe (fun res w hw hres => ⟨?_, trivial⟩)) (fun res _ => ?_)).mono (by omega)
  · split_ifs with heq
    · rw [heq] at hres ⊢
      exact h.equal w hw hres
    · exact h.differs res w hw hres heq
  split_ifs with heq
  · exact (meets_releasePeer h).mono (by omega)
  · refine (Meets.bind (m := copyCost L + 157) (n := 3608) (meets_recoverPeer h) (fun code _ => ?_)).mono (by omega)
    cases code with
    | ok => exact meets_releasePeer h
    | failed f => exact Meets.ret (fun w hw => .inr (by simpa using hw))

/-- Where recover_app_param has got to: its own result differs from the one before the restore only if that failed. -/
theorem meets_recoverAppParam (h : RecoverPlan env L sha t st P I S R Q D X Y C) :
    Meets t (copyCost L + 3905) P (recoverAppParam L sha st : Run env ExitCode)
      (fun res w => ∃ code, Y code w ∧ (res = .ok → code = .ok) ∧ (t = true → res = code)) C := by
  refine (Meets.bind (m := copyCost L + 3902) (n := 3) (K := fun code w => RecoverEnds D X code w) (F := fun _ => True)
    ((meets_recoverAndRelease h).post (fun _ _ hw => ⟨hw, trivial⟩)) (fun code _ => ?_)).mono (by omega)
  have hmark : ∀ w, RecoverEnds D X code w → Y code { w with ctl := { w.ctl with restored := true } } := by
    intro w hw
    cases code with
    | ok => exact h.finish w hw
    | failed f =>
        rcases hw with ⟨rfl, hw⟩ | hw
        · exact h.finishUnreleased w hw
        · exact h.finishFailed f w hw
  refine Meets.bind (m := 0) (n := 3) (K := fun _ => Y code) (F := fun _ => True)
    (Meets.modify (fun w hw => ⟨hmark w hw, trivial⟩)) (fun _ _ => ?_)
  refine Meets.bind (m := 3) (n := 0) (K := fun _ => Y code)
    (meets_restoreDirtySettings (h.stable_restoring code) (h.safe_restoring code) (h.restore code))
    (fun restored hrestored => ?_)
  cases restored with
  | true => exact Meets.ret (fun w hw => ⟨code, hw, fun h => h, fun _ => rfl⟩)
  | false =>
      have ht := not_all_succeed hrestored rfl
      cases code with
      | ok => exact Meets.ret (fun w hw => ⟨_, hw, by simp, by simp [ht]⟩)
      | failed f => exact Meets.ret (fun w hw => ⟨_, hw, fun h => h, by simp [ht]⟩)

end Recover

end SuperRaid.RecoverSpec
