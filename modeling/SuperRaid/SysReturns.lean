import SuperRaid.Sys

namespace SuperRaid.Sys

variable {σ R α β : Type}

namespace Prog

def read (f : σ → α) : Prog σ R α := fun rs s => .done (f s) rs s

end Prog

/-- Started in s and answered within G, the program returns in Q, if it is not stopped. -/
def Returns (G : R → Prop) (s : σ) (m : Prog σ R α) (Q : α → σ → Prop) : Prop :=
  ∀ rs a rs' s', (∀ r ∈ rs, G r) → m rs s = .done a rs' s' → Q a s' ∧ rs' <:+ rs

section Rules

variable {G : R → Prop} {s : σ} {Q Q' : α → σ → Prop} {S : β → σ → Prop}

theorem Returns.ret {a : α} (h : Q a s) : Returns G s (pure a : Prog σ R α) Q := by
  rintro rs b rs' s' - hrun
  cases hrun
  exact ⟨h, List.suffix_rfl⟩

theorem Returns.bind {m : Prog σ R α} {f : α → Prog σ R β}
    (h : Returns G s m (fun a s' => Returns G s' (f a) S)) :
    Returns G s (m >>= f) S := by
  intro rs b rs' s' hG hrun
  rw [Prog.bind_apply] at hrun
  cases hm : m rs s with
  | stopped t =>
      rw [hm] at hrun
      cases hrun
  | done a rs₁ s₁ =>
      rw [hm] at hrun
      obtain ⟨hf, hsuffix⟩ := h rs a rs₁ s₁ hG hm
      obtain ⟨hS, hrest⟩ := hf rs₁ b rs' s' (fun r hr => hG r (hsuffix.subset hr)) hrun
      exact ⟨hS, hrest.trans hsuffix⟩

theorem Returns.call {f : R → σ → α × σ} (h : ∀ r, G r → Q (f r s).1 (f r s).2) :
    Returns G s (Prog.call f) Q := by
  intro rs a rs' s' hG hrun
  cases rs with
  | nil => cases hrun
  | cons r rs =>
      cases hrun
      exact ⟨h r (hG r List.mem_cons_self), List.suffix_cons r _⟩

theorem Returns.modify {f : σ → σ} {Q : Unit → σ → Prop} (h : Q () (f s)) :
    Returns G s (Prog.modify f : Prog σ R Unit) Q := by
  rintro rs a rs' s' - hrun
  cases hrun
  exact ⟨h, List.suffix_rfl⟩

theorem Returns.read {f : σ → α} (h : Q (f s) s) : Returns G s (Prog.read f : Prog σ R α) Q := by
  rintro rs a rs' s' - hrun
  cases hrun
  exact ⟨h, List.suffix_rfl⟩

theorem Returns.mono {m : Prog σ R α} (h : Returns G s m Q) (hQ : ∀ a s', Q a s' → Q' a s') : Returns G s m Q' :=
  fun rs a rs' s' hG hrun => (h rs a rs' s' hG hrun).imp_left (hQ a s')

end Rules

section Halts

/-- However it is answered, the program returns after finitely many calls, and looks at no answer beyond them. -/
structure Halts (m : Prog σ R α) : Prop where
  extends_done : ∀ {rs rs' : List R} {s s' : σ} {a : α} (more : List R), m rs s = .done a rs' s' →
    m (rs ++ more) s = .done a (rs' ++ more) s'
  exists_done : ∀ (s : σ) (answers : ℕ → R), ∃ n a s', m ((List.range n).map answers) s = .done a [] s'

theorem Halts.ret {a : α} : Halts (pure a : Prog σ R α) where
  extends_done more h := by
    cases h
    rfl
  exists_done s answers := ⟨0, a, s, rfl⟩

theorem Halts.modify {f : σ → σ} : Halts (Prog.modify f : Prog σ R Unit) where
  extends_done more h := by
    cases h
    rfl
  exists_done s answers := ⟨0, (), f s, rfl⟩

theorem Halts.read {f : σ → α} : Halts (Prog.read f : Prog σ R α) where
  extends_done more h := by
    cases h
    rfl
  exists_done s answers := ⟨0, f s, s, rfl⟩

theorem Halts.call {f : R → σ → α × σ} : Halts (Prog.call f) where
  extends_done {rs} _ _ _ _ more h := by
    cases rs with
    | nil => cases h
    | cons r rs =>
        cases h
        rfl
  exists_done s answers := ⟨1, (f (answers 0) s).1, (f (answers 0) s).2, rfl⟩

theorem Halts.bind {m : Prog σ R α} {f : α → Prog σ R β} (hm : Halts m) (hf : ∀ a, Halts (f a)) :
    Halts (m >>= f) where
  extends_done {rs} _ s _ _ more h := by
    rw [Prog.bind_apply] at h ⊢
    cases hrun : m rs s with
    | stopped t =>
        rw [hrun] at h
        cases h
    | done a rs₁ s₁ =>
        rw [hrun] at h
        rw [hm.extends_done more hrun]
        exact (hf a).extends_done more h
  exists_done s answers := by
    obtain ⟨n, a, s₁, hrun⟩ := hm.exists_done s answers
    obtain ⟨k, b, s₂, hrest⟩ := (hf a).exists_done s₁ (fun i => answers (n + i))
    refine ⟨n + k, b, s₂, ?_⟩
    have hsplit : (List.range (n + k)).map answers =
        (List.range n).map answers ++ (List.range k).map (fun i => answers (n + i)) := by
      rw [List.range_add, List.map_append, List.map_map]
      rfl
    rw [Prog.bind_apply, hsplit, hm.extends_done _ hrun]
    exact hrest

def Ends (G : R → Prop) (s : σ) (m : Prog σ R α) (Q : α → σ → Prop) : Prop :=
  ∀ answers : ℕ → R, (∀ i, G (answers i)) → ∃ n a s', m ((List.range n).map answers) s = .done a [] s' ∧
    Q a s'

theorem Returns.ends {G : R → Prop} {s : σ} {m : Prog σ R α} {Q : α → σ → Prop} (h : Returns G s m Q)
    (hm : Halts m) :
    Ends G s m Q := by
  intro answers hG
  obtain ⟨n, a, s', hrun⟩ := hm.exists_done s answers
  refine ⟨n, a, s', hrun, (h _ a [] s' (fun r hr => ?_) hrun).1⟩
  obtain ⟨i, -, rfl⟩ := List.mem_map.mp hr
  exact hG i

theorem Ends.mono {G : R → Prop} {s : σ} {m : Prog σ R α} {Q Q' : α → σ → Prop} (h : Ends G s m Q)
    (hQ : ∀ a s', Q a s' → Q' a s') : Ends G s m Q' := by
  intro answers hG
  obtain ⟨n, a, s', hrun, ha⟩ := h answers hG
  exact ⟨n, a, s', hrun, hQ a s' ha⟩

end Halts

end SuperRaid.Sys
