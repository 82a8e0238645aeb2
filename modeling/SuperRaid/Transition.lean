import Mathlib.Data.List.Induction

namespace SuperRaid.Transition

variable {σ α : Type}

/-- The state after a schedule, when every action of it is enabled in turn. -/
def run (step : σ → α → Option σ) : σ → List α → Option σ
  | s, [] => some s
  | s, a :: as => (step s a).bind (fun t => run step t as)

/-- Every action of the schedule is taken in a state that meets the condition. -/
def Every (step : σ → α → Option σ) (ok : σ → α → Prop) : σ → List α → Prop
  | _, [] => True
  | s, a :: as => ok s a ∧ ∀ t, step s a = some t → Every step ok t as

def occurrences (step : σ → α → Option σ) (counted : σ → α → Bool) : σ → List α → ℕ
  | _, [] => 0
  | s, a :: as => (counted s a).toNat + (step s a).elim 0 (fun t => occurrences step counted t as)

variable {step : σ → α → Option σ} {ok : σ → α → Prop}

theorem run_snoc (s : σ) (as : List α) (a : α) :
    run step s (as ++ [a]) = (run step s as).bind (fun t => step t a) := by
  induction as generalizing s with
  | nil => cases h : step s a <;> simp [run, h]
  | cons b as ih => cases h : step s b <;> simp [run, h, ih]

theorem run_snoc_some {s t : σ} {as : List α} {a : α} (h : run step s (as ++ [a]) = some t) :
    ∃ u, run step s as = some u ∧ step u a = some t := by
  rw [run_snoc, Option.bind_eq_some_iff] at h
  exact h

theorem every_append (s : σ) (as bs : List α) :
    Every step ok s (as ++ bs) ↔
      Every step ok s as ∧ ∀ t, run step s as = some t → Every step ok t bs := by
  induction as generalizing s with
  | nil => simp [Every, run]
  | cons a as ih =>
      cases h : step s a with
      | none => simp [Every, run, h]
      | some t => simp [Every, run, h, ih, and_assoc]

theorem every_snoc (s : σ) (as : List α) (a : α) :
    Every step ok s (as ++ [a]) ↔
      Every step ok s as ∧ ∀ t, run step s as = some t → ok t a := by
  simp [every_append, Every]

instance decidableEvery [∀ s a, Decidable (ok s a)] : (s : σ) → (as : List α) → Decidable (Every step ok s as)
  | _, [] => isTrue trivial
  | s, a :: as =>
      match h : step s a with
      | none => decidable_of_iff (ok s a) (by simp [Every, h])
      | some t =>
          have := decidableEvery t as
          decidable_of_iff (ok s a ∧ Every step ok t as) (by simp [Every, h])

theorem occurrences_snoc {counted : σ → α → Bool} {s t : σ} {as : List α} (hrun : run step s as = some t)
    (a : α) :
    occurrences step counted s (as ++ [a]) = occurrences step counted s as + (counted t a).toNat := by
  induction as generalizing s with
  | nil => cases hrun; cases h : step t a <;> simp [occurrences, h]
  | cons b as ih =>
      obtain ⟨u, hu, ht⟩ := Option.bind_eq_some_iff.mp hrun
      simp only [List.cons_append, occurrences, hu, Option.elim_some, ih ht]
      omega

/-- A relation between the schedule so far and the state is kept along a run. -/
theorem run_history {I : List α → σ → Prop} {s t : σ} {as : List α} (h0 : I [] s)
    (hstep : ∀ bs u a v, run step s bs = some u → I bs u → step u a = some v → I (bs ++ [a]) v)
    (hrun : run step s as = some t) : I as t := by
  induction as using List.reverseRecOn generalizing t with
  | nil => cases hrun; exact h0
  | append_singleton as a ih =>
      obtain ⟨u, hu, hv⟩ := run_snoc_some hrun
      exact hstep as u a t hu (ih hu) hv

theorem run_invariant {I : σ → Prop} {s t : σ} {as : List α} (h0 : I s)
    (hstep : ∀ u a v, I u → step u a = some v → I v) (hrun : run step s as = some t) : I t :=
  run_history (I := fun _ => I) h0 (fun _ u a v _ hu hv => hstep u a v hu hv) hrun

theorem run_every {I : σ → Prop} {s t : σ} {as : List α} (h0 : I s)
    (hstep : ∀ u a v, I u → ok u a → step u a = some v → I v)
    (hevery : Every step ok s as) (hrun : run step s as = some t) : I t := by
  induction as generalizing s with
  | nil => cases hrun; exact h0
  | cons a as ih =>
      obtain ⟨u, hu, ht⟩ := Option.bind_eq_some_iff.mp hrun
      exact ih (hstep s a u h0 hevery.1 hu) (hevery.2 u hu) ht

theorem run_append (s : σ) (as bs : List α) :
    run step s (as ++ bs) = (run step s as).bind (fun t => run step t bs) := by
  induction as generalizing s with
  | nil => rfl
  | cons a as ih => cases h : step s a <;> simp [run, h, ih]

/-- If some schedule lowers the measure as long as the goal is not reached, some schedule reaches it. -/
theorem run_reaches {I G : σ → Prop} (μ : σ → ℕ) (hstep : ∀ s a t, I s → step s a = some t → I t)
    (hlower : ∀ s, I s → ¬ G s → ∃ as t, run step s as = some t ∧ μ t < μ s) {s : σ} (hs : I s) :
    ∃ as t, run step s as = some t ∧ G t := by
  induction hn : μ s using Nat.strongRecOn generalizing s with
  | _ n ih =>
      subst hn
      by_cases hg : G s
      · exact ⟨[], s, rfl, hg⟩
      · obtain ⟨as, t, hrun, hlt⟩ := hlower s hs hg
        obtain ⟨bs, u, hrest, hu⟩ := ih (μ t) hlt (run_invariant hs hstep hrun) rfl
        exact ⟨as ++ bs, u, by rw [run_append, hrun]; exact hrest, hu⟩

/-- An execution that never ends, with the action taken in each state. -/
def Execution (step : σ → α → Option σ) (f : ℕ → σ) (as : ℕ → α) : Prop :=
  ∀ n, step (f n) (as n) = some (f (n + 1))

theorem Execution.stable {f : ℕ → σ} {as : ℕ → α} (hf : Execution step f as) {I : σ → Prop}
    (hstep : ∀ u a v, I u → ok u a → step u a = some v → I v) (hok : ∀ n, ok (f n) (as n))
    {m n : ℕ} (hmn : m ≤ n) (hm : I (f m)) : I (f n) := by
  induction hmn with
  | refl => exact hm
  | @step n _ ih => exact hstep (f n) (as n) (f (n + 1)) ih (hok n) (hf n)

/-- The states that a sequence of actions goes through; an action that is not enabled changes nothing. -/
def states (step : σ → α → Option σ) (s : σ) (as : ℕ → α) : ℕ → σ
  | 0 => s
  | n + 1 => (step (states step s as n) (as n)).getD (states step s as n)

theorem states_idle {s : σ} {as : ℕ → α} {N : ℕ}
    (hidle : ∀ n, N ≤ n → step (states step s as N) (as n) = some (states step s as N)) {n : ℕ} (hn : N ≤ n) :
    states step s as n = states step s as N := by
  induction hn with
  | refl => rfl
  | @step n hn ih => rw [states, ih, hidle n hn, Option.getD_some]

theorem execution_states {s : σ} {as : ℕ → α} {N : ℕ}
    (hrun : ∀ n, n < N → (step (states step s as n) (as n)).isSome = true)
    (hidle : ∀ n, N ≤ n → step (states step s as N) (as n) = some (states step s as N)) :
    Execution step (states step s as) as := by
  intro n
  by_cases hn : n < N
  · obtain ⟨t, ht⟩ := Option.isSome_iff_exists.mp (hrun n hn)
    rw [states, ht, Option.getD_some]
  · have hle : N ≤ n := Nat.le_of_not_lt hn
    rw [states, states_idle hidle hle, hidle n hle, Option.getD_some]

end SuperRaid.Transition
