import SuperRaid.FatGateOrder
import SuperRaid.Reentry

namespace SuperRaid.FatGate

open Locks Transition

theorem reenters_fatFileSpliceWrite {inner : Nat → Prop} [DecidablePred inner] (n : Nat) {i : Nat} (hi : inner i) :
    Follows (heldLocks Event (mayReenter (lockRank inner))) [] (fatFileSpliceWrite n .ret i) := by
  apply follows_fatFileSpliceWrite n (gateRules_heldLocks (.inl (by simp)))
    (gateRules_heldLocks (.inr ⟨rfl, List.mem_cons_self⟩))
  · apply lockRules_heldLocks
    refine .inl (fun x hx => ?_)
    exact gate_lt_inner hi x (by simpa using hx)
  · exact fun _ => rfl

def splice (i : Nat) : Unit → Op := fun _ => .fileSpliceWrite i

/-- A splice of up to n batches and fat_disable_write do not deadlock in a run in which the splice never asks for the
gate it holds while the down_write of fat_disable_write waits. -/
theorem splice_can_step (n i : Nat) (as : List (Option Unit × Bool)) (c : Config (Option Unit) Lock Event)
    (hevery : Every step (fun c a => requestsBehind c a = false) (start (threads n (withDisable (splice i)))) as)
    (hrun : run step (start (threads n (withDisable (splice i)))) as = some c)
    (hopen : ∃ t, (c.thread t).code.finished = false) : ∃ a c', step c a = some c' := by
  have hcode : ∀ t, Follows (heldLocks Event (mayReenter (lockRank (fun _ => True)))) []
      (threads n (withDisable (splice i)) t) := by
    intro t
    cases t with
    | none => exact Follows.weaken (fun _ _ _ => Or.inl) ordered_fatDisableWrite
    | some t => exact reenters_fatFileSpliceWrite n trivial
  by_contra hnone
  push Not at hnone
  exact reentrant_not_stuck hcode hevery hrun ⟨hopen, fun a => Option.eq_none_iff_forall_ne_some.mpr (hnone a)⟩

def enterSplice : List (Option Unit × Bool) := List.replicate 4 (some (), true)

theorem splice_can_step_waiting : ∃ c, run step (start (threads 1 (withDisable (splice 7))))
      (enterSplice ++ [(some (), true), (some (), true), (none, true)]) = some c ∧
    c.readers .gate = 2 ∧ (c.thread none).waiting = true ∧ ∃ a c', step c a = some c' :=
  ⟨_, rfl, rfl, rfl, splice_can_step 1 7 (enterSplice ++ [(some (), true), (some (), true), (none, true)]) _
    (by decide)
    rfl ⟨none, rfl⟩⟩

/-- The down_write queues after the splice has entered the gate, and the first batch waits behind it. -/
theorem splice_deadlocks : ∃ c, run step (start (threads 1 (withDisable (splice 7))))
      (enterSplice ++ [(none, true), (some (), true)]) = some c ∧
    c.readers .gate = 1 ∧ (∃ e k, (c.thread (some ())).code = .acquire .read .gate e k) ∧ Stuck c := by
  refine ⟨_, rfl, rfl, ⟨_, _, rfl⟩, ⟨none, rfl⟩, ?_⟩
  rintro ⟨_ | _, pick⟩ <;> rfl

end SuperRaid.FatGate
