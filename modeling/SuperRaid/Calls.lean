import SuperRaid.Storage

namespace SuperRaid.Calls

open Image Sys Machine Storage

variable {env : Env} {α β : Type} {t : Bool} {m n : Nat} {P : World → Prop}
  {Q : α → World → Prop} {C : World → Prop}

/-- What the calls may answer: with t they all succeed, move something and hash everything. -/
def Within (t : Bool) (r : Answer env.Choice) : Prop := t = true → r.ok = true ∧ 0 < r.count ∧ env.Exact r.choice

/-- Without t it is the environment that makes the hashes exact. -/
def Hashes (env : Env) (t : Bool) : Prop := t = false → ∀ c, env.Exact c

theorem Within.exact {r : Answer env.Choice} (hr : Within t r) (h : Hashes env t) : env.Exact r.choice := by
  cases t with
  | false => exact h rfl r.choice
  | true => exact (hr rfl).2.2

def cost (t : Bool) (n : Nat) : ℕ∞ := if t then n else ⊤

/-- The program goes from P to Q, or has been stopped in C; with t it makes at most n calls. -/
def Meets (t : Bool) (n : Nat) (P : World → Prop) (p : Run env α) (Q : α → World → Prop) (C : World → Prop) :
    Prop :=
  Spec (Within t) (fun _ => 1) (cost t n) P p Q C

/-- Nothing that happens between two calls ends P. -/
def Stable (env : Env) (P : World → Prop) : Prop := ∀ w (r : Answer env.Choice), P w → P (w.act env r)

theorem cost_mono (h : m ≤ n) : cost t m ≤ cost t n := by
  cases t with
  | false => exact le_rfl
  | true => exact Nat.cast_le.mpr h

theorem cost_add (t : Bool) (m n : Nat) : cost t m + cost t n = cost t (m + n) := by
  cases t with
  | false => rfl
  | true => exact (Nat.cast_add m n).symm

theorem one_le_cost (h : 0 < n) : 1 ≤ cost t n := by
  cases t with
  | false => exact le_top
  | true => exact Nat.one_le_cast.mpr h

theorem cost_step (h : m < n) : cost t m + 1 ≤ cost t n := by
  cases t with
  | false => exact le_rfl
  | true =>
      show (m : ℕ∞) + 1 ≤ n
      exact_mod_cast h

theorem not_all_succeed {b : Bool} (h : t = true → b = true) (hb : b = false) : t = false := by
  cases t with
  | false => rfl
  | true => exact absurd (h rfl) (by simp [hb])

theorem Within.not_failed {r : Answer env.Choice} (hr : Within t r) (h : ¬ r.ok = true) : t = false :=
  not_all_succeed (fun ht => (hr ht).1) (by simpa using h)

section Rules

theorem Meets.ret {a : α} (h : ∀ w, P w → Q a w) : Meets t n P (pure a : Run env α) Q C :=
  (Spec.ret h).conseq (fun _ h => h) (fun _ _ h => h) (fun _ h => h) zero_le

theorem Meets.mono {p : Run env α} (h : Meets t m P p Q C) (hmn : m ≤ n) : Meets t n P p Q C :=
  Spec.conseq h (fun _ h => h) (fun _ _ h => h) (fun _ h => h) (cost_mono hmn)

theorem Meets.post {p : Run env α} {R : α → World → Prop} (h : Meets t n P p R C)
    (hQ : ∀ a w, R a w → Q a w) :
    Meets t n P p Q C :=
  Spec.conseq h (fun _ h => h) hQ (fun _ h => h) le_rfl

theorem Meets.pre {p : Run env α} {K : World → Prop} (h : Meets t n K p Q C) (hP : ∀ w, P w → K w) :
    Meets t n P p Q C :=
  Spec.conseq h hP (fun _ _ h => h) (fun _ h => h) le_rfl

theorem Meets.bind {p : Run env α} {f : α → Run env β} {K : α → World → Prop} {F : α → Prop}
    {S : β → World → Prop} (hp : Meets t m P p (fun a w => K a w ∧ F a) C)
    (hf : ∀ a, F a → Meets t n (K a) (f a) S C) : Meets t (m + n) P (p >>= f) S C := by
  unfold Meets
  rw [← cost_add]
  refine Spec.bind hp (fun a => ?_)
  by_cases hF : F a
  · exact (hf a hF).pre (fun _ h => h.1)
  · exact fun _ _ _ h => absurd h.2 hF

theorem Meets.call {f : Answer env.Choice → World → α × World} (hP : Stable env P) (hC : ∀ w, P w → C w)
    (h : ∀ r w, Within t r → P w → Q (f r w).1 (f r w).2) : Meets t 1 P (sys f) Q C := by
  have hone : (1 : ℕ∞) ≤ cost t 1 := one_le_cost one_pos
  exact (Spec.call (fun _ _ => le_rfl) hC (fun r w hr hw => h r _ hr (hP w r hw))).conseq (fun _ h => h)
    (fun _ _ h => h)
    (fun _ h => h) hone

theorem Meets.loopCall {f : β → Answer env.Choice → World → (β ⊕ α) × World} {I : β → World → Prop}
    {c : β → Nat} (hC : ∀ b w, I b w → C w) (hc : ∀ b w, I b w → 0 < c b)
    (hstep : ∀ b r w, Within t r → I b w → match f b r w with
      | (.inl b', w') => I b' w' ∧ cost t (c b') + 1 ≤ cost t (c b)
      | (.inr a, w') => Q a w') (b : β) :
    Meets t (c b) (I b) (Prog.loopCall f b : Run env α) Q C := by
  refine Spec.loopCall (c := fun b => cost t (c b)) (fun _ _ => le_rfl) hC (fun b w h => one_le_cost (hc b w h))
    (fun b r w hr hw => ?_) b
  have h := hstep b r w hr hw
  split at h
  · rename_i b' w' heq
    rw [heq]
    exact ⟨h.1, by simpa using h.2⟩
  · rename_i a w' heq
    rw [heq]
    exact h

theorem Meets.ask {f : Answer env.Choice → α} {F : α → Prop} (hP : Stable env P) (hC : ∀ w, P w → C w)
    (h : ∀ r, Within t r → F (f r)) : Meets t 1 P (ask f) (fun a w => P w ∧ F a) C :=
  Meets.call hP hC (fun r _ hr hw => ⟨hw, h r hr⟩)

theorem Meets.succeeds (hP : Stable env P) (hC : ∀ w, P w → C w) :
    Meets t 1 P (succeeds : Run env Bool) (fun b w => P w ∧ (t = true → b = true)) C :=
  Meets.ask hP hC (fun _ hr ht => (hr ht).1)

theorem Meets.modify {f : World → World} {Q : Unit → World → Prop} (h : ∀ w, P w → Q () (f w)) :
    Meets t n P (Prog.modify f : Run env Unit) Q C :=
  (Spec.modify h).conseq (fun _ h => h) (fun _ _ h => h) (fun _ h => h) zero_le

theorem Meets.note {v : Event} {Q : Unit → World → Prop} (h : ∀ w, P w → Q () (w.note v)) :
    Meets t n P (note v : Run env Unit) Q C := Meets.modify h

theorem Meets.branch {p q : Run env α} (hP : Stable env P) (hC : ∀ w, P w → C w) (hp : Meets t n P p Q C)
    (hq : t = false → Meets t n P q Q C) :
    Meets t (1 + n) P (Machine.succeeds >>= fun b => if b = true then p else q) Q C := by
  refine Meets.bind (K := fun _ => P) (Meets.succeeds hP hC) (fun b hb => ?_)
  cases b with
  | true => exact hp
  | false => exact hq (not_all_succeed hb rfl)

theorem Meets.close {f : Run env α} (hP : Stable env P) (hC : ∀ w, P w → C w) (hf : Meets t n P f Q C) :
    Meets t (1 + n) P (closeTarget >>= fun _ => f) Q C :=
  Meets.bind (K := fun _ => P) (F := fun _ => True) (Meets.ask hP hC (fun _ _ => trivial)) (fun _ _ => hf)

theorem Meets.exists {ι : Type} {P : ι → World → Prop} {p : Run env α} (h : ∀ i, Meets t n (P i) p Q C) :
    Meets t n (fun w => ∃ i, P i w) p Q C :=
  fun rs w hr ⟨i, hw⟩ => h i rs w hr hw

theorem Meets.of_pre {p : Run env α} {φ : Prop} (h : φ → Meets t n P p Q C) :
    Meets t n (fun w => φ ∧ P w) p Q C :=
  fun rs w hr hw => h hw.1 rs w hr hw.2

theorem Meets.done {p : Run env α} (h : Meets false n P p Q C) {rs rs' : List (Answer env.Choice)} {w w' : World}
    {a : α}
    (hw : P w) (hdone : p rs w = .done a rs' w') : Q a w' :=
  Spec.done h (fun _ _ ht => absurd ht (by decide)) hw hdone

theorem Meets.stopped {p : Run env α} (h : Meets false n P p Q C) {rs : List (Answer env.Choice)} {w w' : World}
    (hw : P w) (hstopped : p rs w = .stopped w') : C w' := by
  have hrun := h rs w (fun _ _ ht => absurd ht (by decide)) hw
  rw [hstopped] at hrun
  exact hrun.1

theorem Meets.reached {p : Run env α} (h : Meets false n P p Q C) {rs : List (Answer env.Choice)} {w : World}
    (hw : P w) (hQ : ∀ a w, Q a w → C w) : C (p rs w).state :=
  Spec.reached h (fun _ _ ht => absurd ht (by decide)) hw hQ

theorem Meets.total {p : Run env α} (h : Meets true n P p Q C) {rs : List (Answer env.Choice)} {w : World} (hw : P w)
    (hrs : ∀ r ∈ rs, r.ok = true ∧ 0 < r.count ∧ env.Exact r.choice) (hlen : n ≤ rs.length) :
    ∃ a rs' w', p rs w = .done a rs' w' ∧ Q a w' := by
  have hrun := h rs w (fun r hr _ => hrs r hr) hw
  cases hres : p rs w with
  | done a rs' w' =>
      rw [hres] at hrun
      exact ⟨a, rs', w', rfl, hrun.1⟩
  | stopped w' =>
      rw [hres] at hrun
      have hshort : (rs.length : ℕ∞) < n := by
        have := hrun.2
        rwa [total_one] at this
      exact absurd hlen (by simpa using hshort)

end Rules

section Log

variable {old : List Event} {Φ Ψ : List Event → Prop} {w : World}

def LogSince (old : List Event) (Φ : List Event → Prop) (w : World) : Prop := ∃ new, w.log = new ++ old ∧ Φ new

theorem stable_logSince (old : List Event) (Φ : List Event → Prop) : Stable env (LogSince old Φ) := fun _ _ hw => hw

theorem logSince_self (h : Φ []) : LogSince w.log Φ w := ⟨[], rfl, h⟩

theorem LogSince.note (h : LogSince old Φ w) {e : Event} (he : ∀ new, Φ new → Ψ (e :: new)) :
    LogSince old Ψ (w.note e) := by
  obtain ⟨new, hlog, hΦ⟩ := h
  exact ⟨e :: new, by rw [World.note_log, hlog, List.cons_append], he new hΦ⟩

theorem LogSince.mono (h : LogSince old Φ w) (hle : ∀ new, Φ new → Ψ new) : LogSince old Ψ w := by
  obtain ⟨new, hlog, hΦ⟩ := h
  exact ⟨new, hlog, hle new hΦ⟩

theorem LogSince.write (h : LogSince old Φ w) {d : Dev} {off : Nat} {bs : Bytes}
    (he : ∀ new, Φ new → Φ (.wrote d :: new)) :
    LogSince old Φ (w.write d off bs) := by
  unfold World.write
  split_ifs
  · exact h
  · exact h.note he

end Log

end SuperRaid.Calls
