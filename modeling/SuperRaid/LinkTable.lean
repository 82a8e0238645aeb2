import Mathlib.Data.List.Nodup
import Mathlib.Logic.Function.Basic
import Mathlib.Tactic

namespace SuperRaid.LinkTable

variable {α : Type}

/-- Following the links of a table from a leads through the nodes of the list to b. -/
def Segment (t : α → α) : α → List α → α → Prop
  | a, [], b => a = b
  | a, c :: l, b => a = c ∧ Segment t (t a) l b

variable {t t' : α → α} {a b c stop : α} {l m : List α}

@[simp] theorem segment_nil : Segment t a [] b ↔ a = b := Iff.rfl

@[simp] theorem segment_cons : Segment t a (c :: l) b ↔ a = c ∧ Segment t (t a) l b := Iff.rfl

theorem segment_append : Segment t a (l ++ m) c ↔ ∃ b, Segment t a l b ∧ Segment t b m c := by
  induction l generalizing a with
  | nil => simp
  | cons x l ih => simp [ih, and_assoc]

theorem segment_snoc : Segment t a (l ++ [c]) b ↔ Segment t a l c ∧ t c = b := by
  simp only [segment_append, segment_cons, segment_nil]
  constructor
  · rintro ⟨x, hseg, rfl, hx⟩
    exact ⟨hseg, hx⟩
  · rintro ⟨hseg, hx⟩
    exact ⟨c, hseg, rfl, hx⟩

theorem Segment.functional (h : Segment t a l b) (h' : Segment t a l c) : b = c := by
  induction l generalizing a with
  | nil => exact h.symm.trans h'
  | cons x l ih => exact ih h.2 h'.2

theorem Segment.getElem? (h : Segment t a l b) {i : Nat} (hi : l[i]? = some c) : t c = (l[i + 1]?).getD b := by
  induction l generalizing a i with
  | nil => simp at hi
  | cons x l ih =>
      obtain ⟨rfl, h⟩ := h
      cases i with
      | zero =>
          obtain rfl : a = c := by simpa using hi
          cases l with
          | nil => exact h
          | cons y l => exact h.1
      | succ i => exact ih h hi

theorem Segment.frame (h : Segment t a l b) (heq : ∀ x ∈ l, t' x = t x) : Segment t' a l b := by
  induction l generalizing a with
  | nil => exact h
  | cons x l ih =>
      obtain ⟨rfl, h⟩ := h
      refine ⟨rfl, ?_⟩
      rw [heq a List.mem_cons_self]
      exact ih h (fun y hy => heq y (List.mem_cons_of_mem a hy))

theorem Segment.retarget (h : Segment t a (l ++ [c]) b) (hl : ∀ x ∈ l, t' x = t x) {d : α} (hc : t' c = d) :
    Segment t' a (l ++ [c]) d :=
  segment_snoc.mpr ⟨(segment_snoc.mp h).1.frame hl, hc⟩

theorem Segment.length_le {l' : List α} (h : Segment t a l stop) (h' : Segment t a l' b) (hstop : stop ∉ l') :
    l'.length ≤ l.length := by
  induction l generalizing a l' with
  | nil =>
      cases l' with
      | nil => rfl
      | cons x l' =>
          obtain ⟨rfl, -⟩ := h'
          exact absurd (List.mem_cons.mpr (.inl h.symm)) hstop
  | cons x l ih =>
      cases l' with
      | nil => simp
      | cons y l' =>
          have := ih h.2 h'.2 (fun hmem => hstop (List.mem_cons_of_mem y hmem))
          simpa using this

theorem Segment.comparable {l' : List α} (h : Segment t a l b) (h' : Segment t a l' c) (hle : l'.length ≤ l.length) :
    l' <+: l := by
  induction l' generalizing a l with
  | nil => exact List.nil_prefix
  | cons y l' ih =>
      cases l with
      | nil => simp at hle
      | cons x l =>
          obtain ⟨rfl, h⟩ := h
          obtain ⟨rfl, h'⟩ := h'
          exact List.cons_prefix_cons.mpr ⟨rfl, ih h h' (by simpa using hle)⟩

theorem Segment.unique {l' : List α} (h : Segment t a l stop) (h' : Segment t a l' stop) (hl : stop ∉ l)
    (hl' : stop ∉ l') : l = l' := by
  have hlen : l.length = l'.length := le_antisymm (h'.length_le h hl) (h.length_le h' hl')
  exact ((h'.comparable h hlen.le).eq_of_length hlen)

theorem Segment.nodup (h : Segment t a l stop) (hstop : stop ∉ l) : l.Nodup := by
  induction l generalizing a with
  | nil => exact List.nodup_nil
  | cons x l ih =>
      obtain ⟨rfl, h⟩ := h
      have hstop' : stop ∉ l := fun hmem => hstop (List.mem_cons_of_mem a hmem)
      refine List.nodup_cons.mpr ⟨fun hmem => ?_, ih h hstop'⟩
      obtain ⟨l₁, l₂, rfl⟩ := List.append_of_mem hmem
      obtain ⟨d, -, hd⟩ := segment_append.mp h
      obtain ⟨rfl, hd⟩ := hd
      have hwhole : Segment t d (d :: (l₁ ++ d :: l₂)) stop := ⟨rfl, h⟩
      have hpart : Segment t d (d :: l₂) stop := ⟨rfl, hd⟩
      have := hpart.length_le hwhole hstop
      simp at this
      omega

end SuperRaid.LinkTable
