import Mathlib.Data.ENat.Basic
import Mathlib.Tactic

namespace SuperRaid.Sys

/-- What a program has done when it returns, or when the answers of its environment end: then it has been stopped
at that point. -/
inductive Result (σ R α : Type)
  | done (a : α) (rs : List R) (s : σ)
  | stopped (s : σ)

/-- A program over a state σ whose environment answers each of its calls with an R. -/
def Prog (σ R α : Type) := List R → σ → Result σ R α

variable {σ R α β γ : Type}

def Result.state : Result σ R α → σ
  | .done _ _ s => s
  | .stopped s => s

def Result.value : Result σ R α → Option α
  | .done a _ _ => some a
  | .stopped _ => none

theorem Result.done_of_value {r : Result σ R α} {a : α} (h : r.value = some a) : ∃ rs, r = .done a rs r.state := by
  cases r with
  | done b rs s =>
      obtain rfl := Option.some.inj h
      exact ⟨rs, rfl⟩
  | stopped s => cases h

namespace Prog

def ret (a : α) : Prog σ R α := fun rs s => .done a rs s

def bind (m : Prog σ R α) (f : α → Prog σ R β) : Prog σ R β := fun rs s =>
  match m rs s with
  | .done a rs' s' => f a rs' s'
  | .stopped s' => .stopped s'

instance : Monad (Prog σ R) where
  pure := ret
  bind := bind

def call (f : R → σ → α × σ) : Prog σ R α := fun rs s =>
  match rs with
  | [] => .stopped s
  | r :: rs => .done (f r s).1 rs (f r s).2

def modify (f : σ → σ) : Prog σ R Unit := fun rs s => .done () rs (f s)

def loopCall (f : β → R → σ → (β ⊕ α) × σ) : β → Prog σ R α := fun b rs s =>
  match rs with
  | [] => .stopped s
  | r :: rs => match f b r s with
      | (.inl b', s') => loopCall f b' rs s'
      | (.inr a, s') => .done a rs s'

def rounds (body : β → Prog σ R (β ⊕ α)) (pause : R → σ → σ) : Nat → β → Prog σ R α
  | 0, _ => fun _ s => .stopped s
  | n + 1, b => bind (body b) (fun r => match r with
      | .inl b' => bind (call (fun r s => ((), pause r s))) (fun _ => rounds body pause n b')
      | .inr a => ret a)

/-- A loop with a pause between its rounds. It cannot have more rounds than there are answers. -/
def loop (body : β → Prog σ R (β ⊕ α)) (pause : R → σ → σ) (b : β) : Prog σ R α := fun rs s =>
  rounds body pause (rs.length + 1) b rs s

theorem bind_apply (m : Prog σ R α) (f : α → Prog σ R β) (rs : List R) (s : σ) :
    (m >>= f) rs s = match m rs s with
      | .done a rs' s' => f a rs' s'
      | .stopped s' => .stopped s' := rfl

instance : LawfulMonad (Prog σ R) :=
  LawfulMonad.mk' _
    (by
      intro α m
      funext rs s
      show (m >>= fun a => ret a) rs s = m rs s
      rw [bind_apply]
      cases m rs s <;> rfl)
    (fun _ _ => rfl)
    (by
      intro α β γ m f g
      funext rs s
      simp only [bind_apply]
      cases m rs s <;> rfl)

end Prog

def total (wt : R → Nat) (rs : List R) : Nat := (rs.map wt).sum

theorem total_cons (wt : R → Nat) (r : R) (rs : List R) : total wt (r :: rs) = wt r + total wt rs := by
  simp [total]

theorem total_one (rs : List R) : total (fun _ => 1) rs = rs.length := by
  simp [total]

/-- From a state in P, answered within G, the program returns in Q after answers of weight at most n; it has been
stopped only if there were not enough of them, and then in C. -/
def Spec (G : R → Prop) (wt : R → Nat) (n : ℕ∞) (P : σ → Prop) (m : Prog σ R α) (Q : α → σ → Prop)
    (C : σ → Prop) :
    Prop :=
  ∀ rs s, (∀ r ∈ rs, G r) → P s → match m rs s with
    | .done a rs' s' => Q a s' ∧ rs' <:+ rs ∧ (total wt rs : ℕ∞) ≤ total wt rs' + n
    | .stopped s' => C s' ∧ (total wt rs : ℕ∞) < n

theorem lt_of_spent {a b : Nat} {m k : ℕ∞} (hspent : (a : ℕ∞) ≤ b + m) (hleft : (b : ℕ∞) < k) :
    (a : ℕ∞) < m + k := by
  by_cases hm : m = ⊤
  · simp [hm]
  · calc (a : ℕ∞) ≤ b + m := hspent
      _ < k + m := (ENat.add_lt_add_iff_right hm).mpr hleft
      _ = m + k := add_comm k m

section Rules

variable {G : R → Prop} {wt : R → Nat} {n n' : ℕ∞} {P P' : σ → Prop} {Q Q' : α → σ → Prop}
  {C C' : σ → Prop}
  {S : β → σ → Prop}

theorem Spec.ret {a : α} (h : ∀ s, P s → Q a s) : Spec G wt 0 P (pure a : Prog σ R α) Q C :=
  fun _ s _ hs => ⟨h s hs, List.suffix_rfl, by simp⟩

theorem Spec.modify {f : σ → σ} {Q : Unit → σ → Prop} (h : ∀ s, P s → Q () (f s)) :
    Spec G wt 0 P (Prog.modify f : Prog σ R Unit) Q C :=
  fun _ s _ hs => ⟨h s hs, List.suffix_rfl, by simp⟩

theorem Spec.bind {m : Prog σ R α} {f : α → Prog σ R β} (hm : Spec G wt n P m Q C)
    (hf : ∀ a, Spec G wt n' (Q a) (f a) S C) : Spec G wt (n + n') P (m >>= f) S C := by
  intro rs s hG hs
  have hfirst := hm rs s hG hs
  show match Prog.bind m f rs s with
    | .done a rs' s' => S a s' ∧ rs' <:+ rs ∧ (total wt rs : ℕ∞) ≤ total wt rs' + (n + n')
    | .stopped s' => C s' ∧ (total wt rs : ℕ∞) < n + n'
  unfold Prog.bind
  cases hres : m rs s with
  | stopped s' =>
      rw [hres] at hfirst
      exact ⟨hfirst.1, hfirst.2.trans_le le_self_add⟩
  | done a rs₁ s₁ =>
      rw [hres] at hfirst
      obtain ⟨hQ, hsuffix, hle⟩ := hfirst
      have hsecond := hf a rs₁ s₁ (fun r hr => hG r (hsuffix.subset hr)) hQ
      dsimp only
      cases hres₂ : f a rs₁ s₁ with
      | stopped s' =>
          rw [hres₂] at hsecond
          exact ⟨hsecond.1, lt_of_spent hle hsecond.2⟩
      | done b rs₂ s₂ =>
          rw [hres₂] at hsecond
          refine ⟨hsecond.1, hsecond.2.1.trans hsuffix, ?_⟩
          calc (total wt rs : ℕ∞) ≤ total wt rs₁ + n := hle
            _ ≤ total wt rs₂ + n' + n := by gcongr; exact hsecond.2.2
            _ = total wt rs₂ + (n + n') := by rw [add_assoc, add_comm n' n]

theorem Spec.conseq {m : Prog σ R α} (hm : Spec G wt n' P' m Q' C') (hP : ∀ s, P s → P' s)
    (hQ : ∀ a s, Q' a s → Q a s) (hC : ∀ s, C' s → C s) (hn : n' ≤ n) : Spec G wt n P m Q C := by
  intro rs s hG hs
  have h := hm rs s hG (hP s hs)
  cases hres : m rs s with
  | done a rs' s' =>
      rw [hres] at h
      refine ⟨hQ a s' h.1, h.2.1, h.2.2.trans ?_⟩
      gcongr
  | stopped s' =>
      rw [hres] at h
      exact ⟨hC s' h.1, h.2.trans_le hn⟩

theorem Spec.done {m : Prog σ R α} (hm : Spec G wt n P m Q C) {rs rs' : List R} {s s' : σ} {a : α}
    (hG : ∀ r ∈ rs, G r) (hs : P s) (h : m rs s = .done a rs' s') : Q a s' := by
  have := hm rs s hG hs
  rw [h] at this
  exact this.1

theorem Spec.reached {m : Prog σ R α} (hm : Spec G wt n P m Q C) {rs : List R} {s : σ} (hG : ∀ r ∈ rs, G r)
    (hs : P s) (hQ : ∀ a s, Q a s → C s) : C (m rs s).state := by
  have := hm rs s hG hs
  cases h : m rs s with
  | done a rs' s' =>
      rw [h] at this
      exact hQ a s' this.1
  | stopped s' =>
      rw [h] at this
      exact this.1

theorem Spec.call {f : R → σ → α × σ} (hwt : ∀ r, G r → wt r ≤ 1) (hstop : ∀ s, P s → C s)
    (h : ∀ r s, G r → P s → Q (f r s).1 (f r s).2) : Spec G wt 1 P (Prog.call f) Q C := by
  intro rs s hG hs
  cases rs with
  | nil => exact ⟨hstop s hs, by simp [total]⟩
  | cons r rs =>
      have hr : G r := hG r List.mem_cons_self
      refine ⟨h r s hr hs, List.suffix_cons r rs, ?_⟩
      have hle : (wt r : ℕ∞) ≤ 1 := by exact_mod_cast hwt r hr
      rw [total_cons, Nat.cast_add, add_comm]
      gcongr

/-- The cost of a loop state bounds the weight of the calls it still makes. -/
theorem Spec.loopCall {f : β → R → σ → (β ⊕ α) × σ} {I : β → σ → Prop} {c : β → ℕ∞}
    (hwt : ∀ r, G r → wt r ≤ 1) (hstop : ∀ b s, I b s → C s) (hc : ∀ b s, I b s → 1 ≤ c b)
    (hstep : ∀ b r s, G r → I b s → match f b r s with
      | (.inl b', s') => I b' s' ∧ c b' + wt r ≤ c b
      | (.inr a, s') => Q a s') (b : β) :
    Spec G wt (c b) (I b) (Prog.loopCall f b) Q C := by
  intro rs
  induction rs generalizing b with
  | nil =>
      intro s _ hs
      exact ⟨hstop b s hs, one_pos.trans_le (hc b s hs)⟩
  | cons r rs ih =>
      intro s hG hs
      have hr : G r := hG r List.mem_cons_self
      have hrs : ∀ r ∈ rs, G r := fun r' h => hG r' (List.mem_cons_of_mem r h)
      have hnext := hstep b r s hr hs
      unfold Prog.loopCall
      cases hf : f b r s with
      | mk next s' =>
          rw [hf] at hnext
          cases next with
          | inr a =>
              refine ⟨hnext, List.suffix_cons r rs, ?_⟩
              have hle : (wt r : ℕ∞) ≤ c b := le_trans (by exact_mod_cast hwt r hr) (hc b s hs)
              rw [total_cons, Nat.cast_add, add_comm]
              gcongr
          | inl b' =>
              obtain ⟨hI, hle⟩ := hnext
              have h := ih b' s' hrs hI
              dsimp only
              cases hres : Prog.loopCall f b' rs s' with
              | stopped s'' =>
                  rw [hres] at h
                  refine ⟨h.1, (lt_of_spent (m := wt r) ?_ h.2).trans_le ((add_comm _ _).trans_le hle)⟩
                  rw [total_cons, Nat.cast_add, add_comm]
              | done a rs' s'' =>
                  rw [hres] at h
                  refine ⟨h.1, h.2.1.trans (List.suffix_cons r rs), ?_⟩
                  calc (total wt (r :: rs) : ℕ∞) = total wt rs + wt r := by
                        rw [total_cons, Nat.cast_add, add_comm]
                    _ ≤ total wt rs' + c b' + wt r := by gcongr; exact h.2.2
                    _ ≤ total wt rs' + c b := by rw [add_assoc]; gcongr

/-- A loop with a bound on its pauses. With no bound on them it still keeps its invariant. -/
theorem Spec.loop {body : β → Prog σ R (β ⊕ α)} {pause : R → σ → σ} {I J : ℕ∞ → β → σ → Prop}
    {w : ℕ∞} (hwt : ∀ r, G r → wt r ≤ 1) (hbody : ∀ k b, Spec G wt w (I k b) (body b)
      (fun r s => match r with | .inl b' => J k b' s | .inr a => Q a s) C)
    (hstop : ∀ k b s, J k b s → C s)
    (hpause : ∀ k b r s, G r → J k b s → ∃ k', k' + 1 ≤ k ∧ I k' b (pause r s)) (k : ℕ∞) (b : β) :
    Spec G wt ((k + 1) * (w + 1)) (I k b) (Prog.loop body pause b) Q C := by
  suffices h : ∀ fuel k b rs s, rs.length < fuel → (∀ r ∈ rs, G r) → I k b s →
      match Prog.rounds body pause fuel b rs s with
      | .done a rs' s' => Q a s' ∧ rs' <:+ rs ∧ (total wt rs : ℕ∞) ≤ total wt rs' + (k + 1) * (w + 1)
      | .stopped s' => C s' ∧ (total wt rs : ℕ∞) < (k + 1) * (w + 1) from
    fun rs s hG hs => h (rs.length + 1) k b rs s (Nat.lt_succ_self _) hG hs
  intro fuel
  induction fuel with
  | zero => intro k b rs s hlt; exact absurd hlt (Nat.not_lt_zero _)
  | succ fuel ih =>
      intro k b rs s hlt hG hs
      have hround : w + 1 ≤ (k + 1) * (w + 1) := le_mul_of_one_le_left zero_le le_add_self
      have h := hbody k b rs s hG hs
      unfold Prog.rounds Prog.bind
      cases hres : body b rs s with
      | stopped s' =>
          rw [hres] at h
          exact ⟨h.1, (h.2.trans_le le_self_add).trans_le hround⟩
      | done next rs₁ s₁ =>
          rw [hres] at h
          obtain ⟨hpost, hsuffix, hle⟩ := h
          cases next with
          | inr a => exact ⟨hpost, hsuffix, hle.trans (by gcongr; exact le_self_add.trans hround)⟩
          | inl b' =>
              cases rs₁ with
              | nil =>
                  refine ⟨hstop k b' s₁ hpost, lt_of_lt_of_le ?_ hround⟩
                  exact lt_of_spent hle (by simp [total])
              | cons r rs₁ =>
                  have hmem : ∀ r' ∈ r :: rs₁, G r' := fun r' h => hG r' (hsuffix.subset h)
                  obtain ⟨k', hk, hI⟩ := hpause k b' r s₁ (hmem r List.mem_cons_self) hpost
                  have hshort : rs₁.length < fuel := by
                    have := hsuffix.length_le
                    simp only [List.length_cons] at this
                    omega
                  have h := ih k' b' rs₁ (pause r s₁) hshort (fun r' h => hmem r' (List.mem_cons_of_mem r h)) hI
                  have hcost : (k' + 1) * (w + 1) + (w + 1) ≤ (k + 1) * (w + 1) := by
                    calc (k' + 1) * (w + 1) + (w + 1) = (k' + 1 + 1) * (w + 1) := by ring
                      _ ≤ (k + 1) * (w + 1) := by gcongr
                  have hweight : (wt r : ℕ∞) ≤ 1 := by exact_mod_cast hwt r (hmem r List.mem_cons_self)
                  have hused : (total wt rs : ℕ∞) ≤ total wt rs₁ + (w + 1) := by
                    calc (total wt rs : ℕ∞) ≤ total wt (r :: rs₁) + w := hle
                      _ = total wt rs₁ + (w + wt r) := by rw [total_cons, Nat.cast_add]; ring
                      _ ≤ total wt rs₁ + (w + 1) := by gcongr
                  dsimp only [Prog.call]
                  cases hres₂ : Prog.rounds body pause fuel b' rs₁ (pause r s₁) with
                  | stopped s' =>
                      rw [hres₂] at h
                      refine ⟨h.1, (lt_of_spent hused h.2).trans_le ?_⟩
                      rwa [add_comm]
                  | done a rs₂ s₂ =>
                      rw [hres₂] at h
                      refine ⟨h.1, h.2.1.trans ((List.suffix_cons r rs₁).trans hsuffix), ?_⟩
                      calc (total wt rs : ℕ∞) ≤ total wt rs₁ + (w + 1) := hused
                        _ ≤ total wt rs₂ + (k' + 1) * (w + 1) + (w + 1) := by gcongr; exact h.2.2
                        _ ≤ total wt rs₂ + (k + 1) * (w + 1) := by rw [add_assoc]; gcongr

end Rules

end SuperRaid.Sys
