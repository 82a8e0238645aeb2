import SuperRaid.FatDirItems

namespace SuperRaid.FatDir

open FatInode (attrVolume)

variable {α : Type}

section Runs

end Runs

section Records

theorem overwrite_append (before after : List (Record α)) {run slots : List (Record α)}
    (h : run.length = slots.length) :
    overwrite (before ++ (run ++ after)) before.length slots = before ++ (slots ++ after) := by
  rw [overwrite, List.take_left, ← List.drop_drop, List.drop_left, ← h, List.drop_left, List.append_assoc]

variable (perBlock : Nat)

def Removal.Written (io : Removal) : Prop := io.entry = none ∧ ∀ answer ∈ io.slots, answer = none

end Records

section Room

/-- There are as many free records in a row. -/
def HasRun (need : Nat) (dir : List (Record α)) : Prop :=
  ∃ before run after, dir = before ++ (run ++ after) ∧ run.length = need ∧ ∀ r ∈ run, r.isFree = true

end Room

section Directory

/-- A directory of whole items. -/
def WellFormed (dir : List (Record α)) : Prop :=
  ∃ items : List (Item α), (∀ i ∈ items, i.Whole) ∧ dir = flatten items

/-- A directory in which removals may have left slots behind. -/
def Readable (dir : List (Record α)) : Prop :=
  ∃ items : List (Item α), (∀ i ∈ items, i.Ok) ∧ dir = flatten items

/-- The files that a search of the directory compares with a name. -/
def files (dir : List (Record α)) : List (Candidate α) := (scanAll ⟨.record, fun _ => 0⟩ 0 dir).2

theorem WellFormed.readable {dir : List (Record α)} (h : WellFormed dir) : Readable dir := by
  obtain ⟨items, hwhole, heq⟩ := h
  exact ⟨items, fun i hi => (hwhole i hi).ok, heq⟩

variable (perBlock : Nat) (io : Removal) {l₁ l₂ : List (Candidate α)} {c : Candidate α}

def Candidate.write (c : Candidate α) (inode : Inode α) : Candidate α :=
  { c with attr := inode.attr, rest := inode.fill c.rest }

variable {inode : Inode α}

end Directory

end SuperRaid.FatDir
