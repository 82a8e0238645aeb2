import Mathlib.Data.Sum.Basic
import SuperRaid.Sys

namespace SuperRaid.Sys

variable {σ τ R S α β γ δ : Type}

/-- Whatever the first program does, the second can be answered so that it does the same: it returns, or is stopped, in
a state that T relates to that of the first, with a result that V relates to its result. -/
def Simulated (T : σ → τ → Prop) (m : Prog σ R α) (p : Prog τ S β) (V : α → β → Prop) : Prop :=
  ∀ rs s t, T s t → match m rs s with
    | .done a _ s' => ∃ qs b t', (∀ more, p (qs ++ more) t = .done b more t') ∧ V a b ∧ T s' t'
    | .stopped s' => ∃ qs t', p qs t = .stopped t' ∧ T s' t'

variable {T : σ → τ → Prop} {V : α → β → Prop} {W : γ → δ → Prop}

theorem Simulated.ret {a : α} {b : β} (h : V a b) : Simulated T (pure a : Prog σ R α) (pure b : Prog τ S β) V :=
  fun _ _ t ht => ⟨[], b, t, fun _ => rfl, h, ht⟩

theorem Simulated.bind {m : Prog σ R α} {p : Prog τ S β} {f : α → Prog σ R γ} {g : β → Prog τ S δ}
    (hm : Simulated T m p V) (hf : ∀ a b, V a b → Simulated T (f a) (g b) W) :
    Simulated T (m >>= f) (p >>= g) W := by
  intro rs s t ht
  have hfirst := hm rs s t ht
  rw [Prog.bind_apply]
  cases hres : m rs s with
  | stopped s' =>
      rw [hres] at hfirst
      obtain ⟨qs, t', hp, ht'⟩ := hfirst
      exact ⟨qs, t', by rw [Prog.bind_apply, hp], ht'⟩
  | done a rs₁ s₁ =>
      rw [hres] at hfirst
      obtain ⟨qs, b, t₁, hp, hab, ht₁⟩ := hfirst
      have hsecond := hf a b hab rs₁ s₁ t₁ ht₁
      dsimp only
      cases hres₂ : f a rs₁ s₁ with
      | stopped s' =>
          rw [hres₂] at hsecond
          obtain ⟨qs₂, t', hg, ht'⟩ := hsecond
          exact ⟨qs ++ qs₂, t', by rw [Prog.bind_apply, hp]; exact hg, ht'⟩
      | done c rs₂ s₂ =>
          rw [hres₂] at hsecond
          obtain ⟨qs₂, d, t₂, hg, hcd, ht₂⟩ := hsecond
          refine ⟨qs ++ qs₂, d, t₂, fun more => ?_, hcd, ht₂⟩
          rw [Prog.bind_apply, List.append_assoc, hp]
          exact hg more

theorem Simulated.ite {m : Prog σ R Bool} {p : Prog τ S Bool} {x y : Prog σ R γ} {x' y' : Prog τ S δ}
    (hm : Simulated T m p (fun a b => a = b)) (hx : Simulated T x x' W) (hy : Simulated T y y' W) :
    Simulated T (m >>= fun ok => if ok = true then x else y) (p >>= fun ok => if ok = true then x' else y') W := by
  refine Simulated.bind hm (fun ok ok' hok => ?_)
  subst hok
  cases ok with
  | false => exact hy
  | true => exact hx

/-- One call can stand for a program, if an answer to it has each result of the program. -/
theorem Simulated.call {G : R → Prop} {wt : R → Nat} {n : ℕ∞} {m : Prog σ R α} {g : S → τ → β × τ}
    (hG : ∀ r, G r)
    (h : ∀ t, Spec G wt n (T · t) m (fun a s => ∃ r, V a (g r t).1 ∧ T s (g r t).2) (T · t)) :
    Simulated T m (Prog.call g) V := by
  intro rs s t ht
  have hrun := h t rs s (fun r _ => hG r) ht
  cases hm : m rs s with
  | stopped s' =>
      rw [hm] at hrun
      exact ⟨[], t, rfl, hrun.1⟩
  | done a rs' s' =>
      rw [hm] at hrun
      obtain ⟨r, hab, ht'⟩ := hrun.1
      exact ⟨[r], (g r t).1, (g r t).2, fun _ => rfl, hab, ht'⟩

theorem Simulated.loopCall {J : γ → δ → Prop} {f : γ → R → σ → (γ ⊕ α) × σ}
    {g : δ → S → τ → (δ ⊕ β) × τ}
    (hstep : ∀ c d r s t, J c d → T s t →
      ∃ q, Sum.LiftRel J V (f c r s).1 (g d q t).1 ∧ T (f c r s).2 (g d q t).2)
    (c : γ) (d : δ) (hcd : J c d) : Simulated T (Prog.loopCall f c) (Prog.loopCall g d) V := by
  intro rs
  induction rs generalizing c d with
  | nil => exact fun s t ht => ⟨[], t, rfl, ht⟩
  | cons r rs ih =>
      intro s t ht
      obtain ⟨q, hres, ht'⟩ := hstep c d r s t hcd ht
      rw [Prog.loopCall]
      cases hf : f c r s with
      | mk res s' =>
      cases hg : g d q t with
      | mk res' t' =>
      rw [hf, hg] at hres ht'
      cases hres with
      | inl hnext =>
          rename_i c' d'
          have hrest := ih c' d' hnext s' t' ht'
          dsimp only
          cases hloop : Prog.loopCall f c' rs s' with
          | stopped s₂ =>
              rw [hloop] at hrest
              obtain ⟨qs, t₂, hrun, ht₂⟩ := hrest
              exact ⟨q :: qs, t₂, by rw [Prog.loopCall, hg]; exact hrun, ht₂⟩
          | done a rs₂ s₂ =>
              rw [hloop] at hrest
              obtain ⟨qs, b, t₂, hrun, hab, ht₂⟩ := hrest
              refine ⟨q :: qs, b, t₂, fun more => ?_, hab, ht₂⟩
              rw [List.cons_append, Prog.loopCall, hg]
              exact hrun more
      | inr hab =>
          rename_i a b
          refine ⟨[q], b, t', fun more => ?_, hab, ht'⟩
          rw [List.singleton_append, Prog.loopCall, hg]

theorem Simulated.silent {m : Prog σ R α} {f : α → Prog σ R γ} {p : Prog τ S δ} (a : α)
    (hm : ∀ rs s t, T s t → ∃ s', m rs s = .done a rs s' ∧ T s' t) (hf : Simulated T (f a) p W) :
    Simulated T (m >>= f) p W := by
  intro rs s t ht
  obtain ⟨s', hrun, ht'⟩ := hm rs s t ht
  rw [Prog.bind_apply, hrun]
  exact hf rs s' t ht'

end SuperRaid.Sys
