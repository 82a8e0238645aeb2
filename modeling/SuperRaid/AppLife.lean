import SuperRaid.AppUnits

namespace SuperRaid.AppUnits

open Machine Recovery Transition

inductive Change : Option Process → Option Process → Prop
  | keep (o : Option Process) : Change o o
  | exit (o : Option Process) : Change o none
  | construct (p : Process) : Change (some p) (some { p with constructed := true })
  | deliver (p : Process) (h : p.pending = true) : Change (some p) (some ⟨true, false, false⟩)

theorem Change.all {P : Process → Prop} {o o' : Option Process} (h : Change o o')
    (hconstruct : ∀ p, P p → P { p with constructed := true })
    (hdeliver : ∀ p, P p → p.pending = true → P ⟨true, false, false⟩) (ho : ∀ p ∈ o, P p) :
    ∀ p ∈ o', P p := by
  cases h with
  | keep => exact ho
  | exit =>
      intro p hp
      cases hp
  | construct p =>
      intro q hq
      cases hq
      exact hconstruct p (ho p rfl)
  | deliver p hpending =>
      intro q hq
      cases hq
      exact hdeliver p (ho p rfl) hpending

namespace App

variable {a b : App} {e : Event}

theorem next_change (h : a.next e = some b) (he : e ≠ .start) : Change a.process b.process := by
  cases e with
  | start => exact absurd rfl he
  | construct =>
      obtain ⟨p, hp, rfl⟩ := Option.map_eq_some_iff.mp h
      rw [hp]
      exact .construct p
  | activate | deactivate =>
      simp only [next] at h
      split_ifs at h
      cases h
      exact .keep _
  | stop | fail =>
      simp only [next] at h
      split_ifs at h
      cases h
      exact .exit _
  | cancel =>
      cases h
      exact .keep _
  | deliver =>
      simp only [next] at h
      split at h
      · cases h
      · rename_i p hp
        split_ifs at h with hpending
        · cases h
          rw [hp]
          exact .deliver p hpending
        · cases h
          exact .exit _

theorem not_start (h : a.next e = some b) (ha : a.queued = false) : e ≠ .start := by
  rintro rfl
  simp [next, ha] at h

theorem next_unqueued (h : a.next e = some b) (ha : a.queued = false) : b.queued = false := by
  cases e with
  | construct =>
      obtain ⟨p, -, rfl⟩ := Option.map_eq_some_iff.mp h
      exact ha
  | deliver =>
      simp only [next] at h
      split at h
      · cases h
      · split_ifs at h <;> (cases h; exact ha)
  | cancel =>
      cases h
      rfl
  | start | fail =>
      simp only [next] at h
      split_ifs at h
      cases h
      rfl
  | activate | deactivate | stop =>
      simp only [next] at h
      split_ifs at h
      cases h
      exact ha

/-- A unit that is down has no process, the process of an active unit has run the constructor, and only an inactive
unit can have a start job. -/
structure Wf (a : App) : Prop where
  down : a.unit = .inactive ∨ a.unit = .failed → a.process = none
  up : a.unit = .active → ∀ p ∈ a.process, p.constructed = true
  once : a.unit ≠ .inactive → a.queued = false

def Started (a : App) : Prop := a.queued = false ∧ ∀ p ∈ a.process, p.constructed = true

def Settled (a : App) : Prop :=
  ∀ p ∈ a.process, p.constructed = true ∧ (p.pending = true ∨ p.forcePagecache = false)

def Released (a : App) : Prop := ∀ p ∈ a.process, p.forcePagecache = false

theorem Wf.next (ha : a.Wf) (h : a.next e = some b) : b.Wf := by
  cases e with
  | start =>
      simp only [App.next] at h
      split_ifs at h
      cases h
      exact ⟨by simp, by simp, fun _ => rfl⟩
  | construct =>
      obtain ⟨p, hp, rfl⟩ := Option.map_eq_some_iff.mp h
      refine ⟨fun hdown => ?_, fun _ q hq => ?_, ha.once⟩
      · rw [ha.down hdown] at hp
        cases hp
      · cases hq
        rfl
  | activate =>
      simp only [App.next] at h
      split_ifs at h with hall
      cases h
      refine ⟨by simp, fun _ p hp => ?_, fun _ => ha.once (by simp [hall.1])⟩
      have hp : a.process = some p := hp
      simpa [hp] using hall.2
  | deactivate =>
      simp only [App.next] at h
      split_ifs at h with hactive
      cases h
      exact ⟨by simp, by simp, fun _ => ha.once (by simp [hactive])⟩
  | stop | fail =>
      simp only [App.next] at h
      split_ifs at h
      cases h
      exact ⟨by simp, by simp, by simp⟩
  | cancel =>
      cases h
      exact ⟨ha.down, ha.up, fun _ => rfl⟩
  | deliver =>
      simp only [App.next] at h
      split at h
      · cases h
      · rename_i p hp
        have hunit : a.unit ≠ .inactive ∧ a.unit ≠ .failed := by
          constructor <;> intro hdown <;> simp [ha.down, hdown] at hp
        split_ifs at h
        · cases h
          refine ⟨fun hdown => ?_, fun _ q hq => ?_, ha.once⟩
          · rcases hdown with hdown | hdown
            · exact absurd hdown hunit.1
            · exact absurd hdown hunit.2
          · cases hq
            rfl
        · cases h
          exact ⟨by simp, by simp, fun _ => ha.once hunit.1⟩

theorem Started.next (ha : a.Started) (h : a.next e = some b) : b.Started := by
  exact ⟨next_unqueued h ha.1, (next_change h (not_start h ha.1)).all (fun _ _ => rfl) (fun _ _ _ => rfl) ha.2⟩

theorem Settled.next (ha : a.Settled) (h : a.next e = some b) (he : e ≠ .start) : b.Settled :=
  (next_change h he).all (fun _ hp => ⟨rfl, hp.2⟩) (fun _ _ _ => ⟨rfl, .inr rfl⟩) ha

theorem Released.next (ha : a.Released) (h : a.next e = some b) (he : e ≠ .start) : b.Released :=
  (next_change h he).all (fun _ hp => hp) (fun _ _ _ => rfl) ha

theorem Started.signal (ha : a.Started) : a.signal.Settled := by
  intro p hp
  obtain ⟨q, hq, rfl⟩ := Option.map_eq_some_iff.mp hp
  exact ⟨ha.2 q hq, .inl rfl⟩

theorem Wf.signal (ha : a.Wf) : a.signal.Wf := by
  refine ⟨fun hdown => ?_, fun hup p hp => ?_, ha.once⟩
  · simp [App.signal, ha.down hdown]
  · obtain ⟨q, hq, rfl⟩ := Option.map_eq_some_iff.mp hp
    exact ha.up hup q hq

theorem settled_of_down (ha : a.Wf) (h : a.unit = .inactive ∨ a.unit = .failed) : a.Settled := by
  intro p hp
  rw [ha.down h] at hp
  cases hp

theorem started_of_active (ha : a.Wf) (h : a.unit = .active) : a.Started :=
  ⟨ha.once (by simp [h]), ha.up h⟩

end App

end SuperRaid.AppUnits
