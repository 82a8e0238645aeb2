import Mathlib.Data.List.GetD
import Mathlib.Data.List.TakeWhile
import SuperRaid.FatDir

namespace SuperRaid.FatDir

open FatInode (attrVolume)

variable {α : Type}

section Items

def below (sum : Nat) : List (List Nat) → List (Record α)
  | [] => []
  | c :: cs => .slot (cs.length + 1) sum c :: below sum cs

/-- A part of a directory that belongs together. A file has the characters of its long name by slots, in the order on
the disk. Where a removal failed, slots may stand before records that are deleted. -/
inductive Item (α : Type)
  | free (r : Record α)
  | label (name : List Nat) (attr : BitVec 8) (rest : α)
  | file (chunks : List (List Nat)) (name : List Nat) (attr : BitVec 8) (rest : α)
  | stray (slots deleted : List (Record α))

def Item.records : Item α → List (Record α)
  | .free r => [r]
  | .label name attr rest => [.entry name attr rest]
  | .file chunks name attr rest => markFirst (below (fatChecksum name) chunks) ++ [.entry name attr rest]
  | .stray slots deleted => slots ++ deleted

def Record.IsSlot : Record α → Prop
  | .slot _ _ _ => True
  | .entry _ _ _ => False

def Live (name : List Nat) : Prop := name.headD 0 ≠ 0 ∧ name.headD 0 ≠ 0xe5

/-- The records of a label or a file are in use, and the slots of a file belong to its entry. -/
def Item.Ok : Item α → Prop
  | .free r => r.isFree = true
  | .label name attr _ => Live name ∧ attr &&& attrVolume ≠ 0#8
  | .file chunks name attr _ =>
    Live name ∧ attr &&& attrVolume = 0#8 ∧ chunks.length ≤ 20 ∧ ∀ c ∈ chunks, c.length = 13
  | .stray slots deleted => (∀ r ∈ slots, r.IsSlot) ∧ deleted ≠ [] ∧ ∀ r ∈ deleted, r.first = 0xe5

def Item.Whole : Item α → Prop
  | .stray _ _ => False
  | i => i.Ok

theorem Item.Whole.ok {i : Item α} (h : i.Whole) : i.Ok := by
  cases i with
  | stray slots deleted => cases h
  | free r => exact h
  | label name attr rest => exact h
  | file chunks name attr rest => exact h

def Item.candidates (pos : Nat) : Item α → List (Candidate α)
  | .file chunks name attr rest =>
    [⟨pos + chunks.length, chunks.length, chunks.reverse.flatten.takeWhile (· ≠ 0), name, attr, rest⟩]
  | _ => []

def flatten (items : List (Item α)) : List (Record α) := items.flatMap Item.records

theorem flatten_append (xs ys : List (Item α)) : flatten (xs ++ ys) = flatten xs ++ flatten ys :=
  List.flatMap_append

end Items

section Scanning

def scanAll (s : Scan) (pos : Nat) : List (Record α) → Scan × List (Candidate α)
  | [] => (s, [])
  | r :: rs =>
    let (s, c) := scanStep s pos r
    let (s, cs) := scanAll s (pos + 1) rs
    (s, c.toList ++ cs)

def filled (unicode : Nat → Nat) : List (List Nat) → Nat → Nat
  | [] => unicode
  | c :: cs => filled (fat16Towchar unicode (cs.length * 13) c) cs

section Stray

end Stray

end Scanning

section Building

def chunksOf (uname : List Nat) : Nat → List (List Nat)
  | 0 => []
  | i + 1 => (uname.drop (i * 13)).take 13 :: chunksOf uname i

theorem length_chunksOf (uname : List Nat) (n : Nat) : (chunksOf uname n).length = n := by
  induction n with
  | zero => rfl
  | succ n ih => rw [chunksOf, List.length_cons, ih]

theorem flatten_chunksOf (uname : List Nat) (n : Nat) : (chunksOf uname n).reverse.flatten = uname.take (n * 13) := by
  induction n with
  | zero => simp [chunksOf]
  | succ n ih =>
    rw [chunksOf, List.reverse_cons, List.flatten_append, ih, List.flatten_singleton, Nat.succ_mul, List.take_add]

theorem length_of_mem_chunksOf {uname : List Nat} {n : Nat} (h : n * 13 ≤ uname.length) :
    ∀ c ∈ chunksOf uname n, c.length = 13 := by
  induction n with
  | zero => simp [chunksOf]
  | succ n ih =>
    intro c hc
    rw [chunksOf, List.mem_cons] at hc
    rcases hc with rfl | hc
    · rw [List.length_take, List.length_drop]
      omega
    · exact ih (by omega) c hc

theorem padded_cases (uname : List Nat) :
    uname.length % 13 = 0 ∧ padded uname = uname ∨
      ∃ n, (uname.length + 1 + n) % 13 = 0 ∧ n < 12 ∧ padded uname = uname ++ 0 :: List.replicate n 0xffff := by
  unfold padded
  by_cases h₁ : uname.length % 13 = 0
  · exact .inl ⟨h₁, if_pos h₁⟩
  · right
    rw [if_neg h₁]
    dsimp only
    rw [List.length_append, List.length_singleton]
    by_cases h₂ : (uname.length + 1) % 13 = 0
    · exact ⟨0, h₂, by omega, if_pos h₂⟩
    · refine ⟨13 - (uname.length + 1) % 13, by omega, by omega, ?_⟩
      rw [if_neg h₂, List.append_assoc, List.singleton_append]

theorem length_padded (uname : List Nat) :
    (padded uname).length % 13 = 0 ∧ (padded uname).length ≤ uname.length + 12 := by
  obtain ⟨h, heq⟩ | ⟨n, h, hn, heq⟩ := padded_cases uname
  · rw [heq]
    exact ⟨h, Nat.le_add_right _ _⟩
  · rw [heq, List.length_append, List.length_cons, List.length_replicate]
    omega

theorem takeWhile_padded {uname : List Nat} (h : ∀ c ∈ uname, c ≠ 0) :
    (padded uname).takeWhile (· ≠ 0) = uname := by
  have hall : ∀ c ∈ uname, decide (c ≠ 0) = true := fun c hc => decide_eq_true (h c hc)
  obtain ⟨-, heq⟩ | ⟨n, -, -, heq⟩ := padded_cases uname
  · rw [heq, List.takeWhile_eq_self_iff.mpr hall]
  · rw [heq, List.takeWhile_append_of_pos hall, List.takeWhile_cons_of_neg (by simp), List.append_nil]

structure New.Ok (new : New α) : Prop where
  live : Live new.name
  attr : new.attr &&& attrVolume = 0#8
  length : new.long.length ≤ 255
  nonzero : ∀ c ∈ new.long, c ≠ 0

def New.slots (new : New α) : Nat := (padded new.long).length / 13

def New.item (new : New α) : Item α := .file (chunksOf (padded new.long) new.slots) new.name new.attr new.rest

theorem New.Ok.item {new : New α} (h : new.Ok) : new.item.Whole := by
  have hpad := length_padded new.long
  have hlen := h.length
  refine ⟨h.live, h.attr, ?_, length_of_mem_chunksOf (Nat.div_mul_le_self _ _)⟩
  rw [length_chunksOf, New.slots]
  omega

theorem New.Ok.candidates {new : New α} (h : new.Ok) (pos : Nat) :
    new.item.candidates pos = [⟨pos + new.slots, new.slots, new.long, new.name, new.attr, new.rest⟩] := by
  have hpad := length_padded new.long
  have hwhole : new.slots * 13 = (padded new.long).length := by
    rw [New.slots]
    omega
  rw [New.item, Item.candidates, length_chunksOf, flatten_chunksOf, hwhole, List.take_length,
    takeWhile_padded h.nonzero]

end Building

end SuperRaid.FatDir
