import SuperRaid.PowerPrepare
import SuperRaid.ReleaseSpec

namespace SuperRaid.WaitSpec

open Footer Sys Machine Storage Recovery PowerPrepare Calls ReleaseSpec

variable {env : Env} {L : Layout} {sha : Sha} {t : Bool} {R C : World → Prop} {devices : Path}

section Wait

variable (hR : Stable env R) (hC : ∀ w, R w → C w)

include hR hC

theorem meets_getUnitSubstate :
    Meets t 1 R (getUnitSubstate : Run env (Option SubState))
      (fun res w => (R w ∧ ∀ state, res = some state → state = w.ctl.service) ∧ True) C := by
  refine Meets.call hR hC (fun r w _ hw => ⟨⟨hw, fun state h => ?_⟩, trivial⟩)
  dsimp only at h
  split_ifs at h
  exact (Option.some.inj h).symm

theorem meets_waitRound (start s : Nat) (u : Unit) :
    Meets t 2 (Since R s) (waitRound start u : Run env (Unit ⊕ Bool))
      (RoundEnds R start s (fun b w => R w ∧ (b = true → w.ctl.service = .exited))) C := by
  have hS : Stable env (Since R s) := stable_since hR s
  have hSC : ∀ w, Since R s w → C w := fun w hw => hC w hw.1
  have hrefuse {n : Nat} {K : World → Prop} (hK : ∀ w, K w → Since R s w) :
      Meets t n K (pure (.inr false) : Run env (Unit ⊕ Bool))
        (RoundEnds R start s (fun b w => R w ∧ (b = true → w.ctl.service = .exited))) C :=
    Meets.ret (fun w hw => ⟨(hK w hw).1, by simp⟩)
  refine Meets.bind (n := 1) (meets_getUnitSubstate hS hSC) (fun state _ => ?_)
  rcases state with _ | state
  · exact hrefuse (fun w hw => hw.1)
  cases state with
  | exited => exact Meets.ret (fun w hw => ⟨hw.1.1, fun _ => (hw.2 _ rfl).symm⟩)
  | other => exact hrefuse (fun w hw => hw.1)
  | startPre | start | startPost | running =>
      refine Meets.pre (K := Since R s) ?_ (fun w hw => hw.1)
      refine Meets.bind (n := 0) (meets_clockGettime hS hSC) (fun now _ => ?_)
      rcases now with _ | now
      · exact hrefuse (fun w hw => hw.1)
      dsimp only
      split_ifs with hlate
      · exact Meets.ret (fun w hw => ⟨hw.1.1, by simp⟩)
      · exact Meets.ret (fun w hw => ⟨hw.1, hw.2 now rfl ▸ Nat.not_le.mp hlate⟩)

variable (htick : ∀ w n, R w → R (tick w n))

include htick

theorem meets_waitMountRecoveryComplete :
    Meets t 1805 R (waitMountRecoveryComplete : Run env Bool)
      (fun b w => R w ∧ (b = true → w.ctl.service = .exited)) C := by
  have hfalse {n : Nat} : Meets t n R (pure false : Run env Bool)
      (fun b w => R w ∧ (b = true → w.ctl.service = .exited)) C := Meets.ret (fun w hw => ⟨hw, by simp⟩)
  refine Meets.branch (n := 1804) hR hC ?_ (fun _ => hfalse)
  refine Meets.bind (m := 1) (n := 1803) (meets_clockGettime hR hC) (fun now _ => ?_)
  rcases now with _ | start
  · exact hfalse.pre (fun w hw => hw.1)
  have hloop : Meets t (601 * (2 + 1)) (Since R start) (Prog.loop (waitRound start) pause () : Run env Bool)
      (fun b w => R w ∧ (b = true → w.ctl.service = .exited)) C :=
    meets_timedLoop hR hC htick (fun u s _ => meets_waitRound hR hC start s u) _
  exact hloop.pre (fun w hw => ⟨hw.1, (hw.2 start rfl).le⟩)

/-- A power prepare does what umount_partition does once the mount service has exited, or nothing. -/
theorem meets_prepareAppParam {Q : Bool → World → Prop} {n : Nat} (hrefused : ∀ w, R w → Q false w)
    (hprepare : Meets t n (fun w => R w ∧ w.ctl.service = .exited) (umountPartition L sha devices : Run env ExitCode)
      (fun code w => Q (decide (code = .ok)) w) C) :
    Meets t (1805 + n) R (prepareAppParam L sha devices : Run env Bool) Q C := by
  refine Meets.bind (m := 1805) (K := fun b w => R w ∧ (b = true → w.ctl.service = .exited)) (F := fun _ => True)
    ((meets_waitMountRecoveryComplete hR hC htick).post (fun _ _ hw => ⟨hw, trivial⟩)) (fun b _ => ?_)
  cases b with
  | false => exact Meets.ret (fun w hw => hrefused w hw.1)
  | true =>
      refine (Meets.bind (m := n) (n := 0) (F := fun _ => True) (hprepare.post (fun _ _ hw => ⟨hw, trivial⟩))
        (fun code _ => Meets.ret (fun _ hw => hw))).pre (fun w hw => ⟨hw.1, hw.2 rfl⟩)

end Wait

end SuperRaid.WaitSpec
