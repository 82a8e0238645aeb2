import SuperRaid.FatGateGrip

namespace SuperRaid.FatGate

open Locks Transition

variable {ι : Type} [DecidableEq ι]

/-- Successful begins of a thread that it has not matched by an end. -/
def unmatched (c : Config ι Lock Event) (t : ι) : Int := times c t .began - times c t .ended

def inBegin (c : Config ι Lock Event) (t : ι) : Int := times c t .entered - times c t .began - times c t .left

/-- The thread has set write_blocked and not yet released the gate. -/
def Sealing (c : Config ι Lock Event) (t : ι) : Prop := times c t .upWrite < times c t .blocked

section Balance

variable [Fintype ι] {calls : ι → Call} {c c' : Config ι Lock Event} {grip : ι → Grip}

theorem Grips.unmatched_eq (hc : Grips calls c grip) (t : ι) : unmatched c t = (grip t).depth := by
  have := hc.depth t
  unfold unmatched
  omega

theorem Grips.inBegin_eq (hc : Grips calls c grip) (t : ι) : inBegin c t = (grip t).pending := by
  have := hc.pending t
  unfold inBegin
  omega

theorem Grips.writers_of_sealing (hc : Grips calls c grip) {t : ι} (ht : Sealing c t) : (grip t).writers = 1 := by
  have hs := hc.sealing t
  unfold Sealing at ht
  cases hg : grip t <;> simp_all [Grip.sealing, Grip.writers]

theorem Grips.balanced (hc : Grips calls c grip) (t : ι) :
    0 ≤ unmatched c t ∧ ((c.thread t).code.finished = true → unmatched c t = 0) := by
  rw [hc.unmatched_eq t]
  refine ⟨by cases grip t <;> simp [Grip.depth], ?_⟩
  intro hfin
  have hf := hc.follows t
  cases hcode : (c.thread t).code with
  | ret ok =>
      rw [hcode] at hf
      simp only [Follows, gripDiscipline, decide_eq_true_eq] at hf
      rcases hf with hg | ⟨hg, -⟩ | ⟨hg, -⟩ <;> simp [hg, Grip.depth]
  | _ => simp [hcode, Code.finished] at hfin

theorem Grips.count (hc : Grips calls c grip) : c.readers .gate = ∑ t, (unmatched c t + inBegin c t) := by
  rw [hc.readers]
  refine Finset.sum_congr rfl (fun t _ => ?_)
  rw [hc.unmatched_eq, hc.inBegin_eq]
  cases grip t <;> simp [Grip.readers, Grip.depth, Grip.pending]

theorem Grips.drained (hc : Grips calls c grip) {t : ι} (ht : Sealing c t) (u : ι) : unmatched c u = 0 := by
  have hzero := hc.readers_zero (hc.writers_of_sealing ht) u
  rw [hc.unmatched_eq]
  cases hg : grip u <;> simp_all [Grip.readers, Grip.depth] <;> omega

theorem Grips.mutate (hc : Grips calls c grip) {a : ι × Bool} {u : ι} (h : Locks.step c a = some c')
    (hlog : c'.log = (u, .mutate) :: c.log) : 0 < unmatched c u ∧ ∀ t, ¬ Sealing c t := by
  obtain ⟨head, g, hnext, he⟩ := hc.of_event h hlog
  obtain ⟨d, hd⟩ := gripNext_mutate hnext he
  have hpos : 0 < unmatched c u := by
    rw [hc.unmatched_eq, hd]
    simp only [Grip.depth]
    omega
  refine ⟨hpos, fun t ht => ?_⟩
  have := hc.drained ht u
  omega

theorem Grips.sync (hc : Grips calls c grip) {a : ι × Bool} {t : ι} (h : Locks.step c a = some c')
    (hlog : c'.log = (t, .sync) :: c.log) : Sealing c t := by
  obtain ⟨head, g, hnext, he⟩ := hc.of_event h hlog
  have hs := hc.sealing t
  rw [gripNext_sync hnext he] at hs
  simp only [Grip.sealing] at hs
  unfold Sealing
  omega

/-- Begins and ends balance on every exit, the gate counts the unmatched begins and the calls of fat_begin_write
in progress, and while a disable-write call blocks, no body runs: its sync comes after all they changed. -/
theorem gate_counts_begins (n : Nat) (calls : ι → Call) (as : List (ι × Bool)) (c : Config ι Lock Event)
    (hrun : run Locks.step (start (threads n calls)) as = some c) :
    (∀ t, 0 ≤ unmatched c t ∧ ((c.thread t).code.finished = true → unmatched c t = 0)) ∧
      c.readers .gate = ∑ t, (unmatched c t + inBegin c t) ∧
      (∀ t, 0 ≤ inBegin c t ∧ inBegin c t ≤ 1) ∧ 0 ≤ c.readers .gate ∧
      (∀ t, Sealing c t → ∀ u, unmatched c u = 0) ∧
      (∀ a c' u, Locks.step c a = some c' → c'.log = (u, .mutate) :: c.log →
        0 < unmatched c u ∧ ∀ t, ¬ Sealing c t) ∧
      (∀ a c' t, Locks.step c a = some c' → c'.log = (t, .sync) :: c.log → Sealing c t) := by
  obtain ⟨grip, hc⟩ := grips_run hrun
  refine ⟨hc.balanced, hc.count, ?_, ?_, fun t ht => hc.drained ht, fun a c' u => hc.mutate,
    fun a c' t => hc.sync⟩
  · intro t
    rw [hc.inBegin_eq]
    cases grip t <;> simp [Grip.pending]
  · rw [hc.readers]
    exact Finset.sum_nonneg (fun t _ => (grip t).readers_nonneg)

end Balance

def faultAndDisable : Bool → Call
  | false => .disableWrite
  | true => .op .pageMkwrite

def disableSchedule : List (Bool × Bool) :=
  [(false, true), (false, true), (false, true), (false, true), (false, true), (false, true), (false, false),
    (false, true), (false, true), (false, true), (false, true), (false, true)]

def refusedSchedule : List (Bool × Bool) := disableSchedule ++ [(true, true), (true, true), (true, true)]

theorem gate_counts_begins_refused :
    ∃ c, run Locks.step (start (threads 0 faultAndDisable)) refusedSchedule = some c ∧
      c.readers .gate = ∑ t, (unmatched c t + inBegin c t) :=
  ⟨_, rfl, (gate_counts_begins 0 faultAndDisable refusedSchedule _ rfl).2.1⟩

/-- A refused begin still holds the gate until its up_read. -/
theorem refused_begin_counts :
    ∃ c, run Locks.step (start (threads 0 faultAndDisable)) refusedSchedule = some c ∧
      c.readers .gate ≠ ∑ t, unmatched c t :=
  ⟨_, rfl, by decide⟩

end SuperRaid.FatGate
