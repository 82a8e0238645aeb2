import SuperRaid.FatDirFiles

namespace SuperRaid.FatDir

open FatInode (attrVolume)

variable {α : Type}

section Insert

variable {β : Type} {p : β → Bool} {d : β} {l₁ l₂ : List β}

theorem filter_insert_of_pos (hd : p d = true) (h : (l₁ ++ l₂).filter p = []) :
    (l₁ ++ d :: l₂).filter p = [d] := by
  rw [List.filter_append, List.append_eq_nil_iff] at h
  rw [List.filter_append, List.filter_cons_of_pos hd, h.1, h.2, List.nil_append]

end Insert

section Adding

def New.file (new : New α) (pos : Nat) : Candidate α := ⟨pos, new.slots, new.long, new.name, new.attr, new.rest⟩

/-- Why fat_add_entries does not add the given number of records. -/
inductive Refusal (room : Room α) (need : Nat) (dir : List (Record α)) : Errno → Prop
  | limit (long : 65536 ≤ dir.length) (full : ¬ HasRun need (dir.take 65535)) : Refusal room need dir .enospc
  | fixed (full : ¬ HasRun need dir) (root : room.root = true) (fat16 : room.fat32 = false) :
    Refusal room need dir .enospc
  | corrupted (full : ¬ HasRun need dir) (inner : room.root = false) (empty : room.start = 0) :
    Refusal room need dir .eio
  | clusters (full : ¬ HasRun need dir) (e : Errno) (failed : room.clusters = some e) : Refusal room need dir e
  | unwritten (e : Errno) (failed : room.long = some e ∨ room.short = some e) : Refusal room need dir e

variable {before run after : List (Record α)} {new : New α}

def Room.Undoes (room : Room α) : Prop := ∀ answer ∈ room.undo, answer = none

variable {perBlock : Nat} {room : Room α}

end Adding

section Effects

variable (N : Names α)

/-- Nothing that names are compared by is written with an inode, and it is not taken for a label. -/
structure Inode.Ok (inode : Inode α) : Prop where
  attr : inode.attr &&& attrVolume = 0#8
  parseShort : ∀ name rest, N.parseShort name (inode.fill rest) = N.parseShort name rest

/-- The files that are made have names, and what additions take back is written. -/
def Op.Ok : Op α → Prop
  | .create room new => new.Ok ∧ room.Undoes
  | .unlink _ _ => True
  | .rename io _ new inode => new.Ok ∧ io.room.Undoes ∧ inode.Ok N

/-- All that the removals change is written. -/
def Op.Written : Op α → Prop
  | .create _ _ => True
  | .unlink io _ => io.Written
  | .rename io _ _ _ => io.old.Written ∧ io.new.Written

def New.moved (new : New α) (sync : Option (Option Errno)) (inode : Inode α) (pos : Nat) : Candidate α :=
  if sync = none then new.file pos else (new.file pos).write inode

/-- The directory as the list of its files. The records tell only whether there is room. -/
inductive Effect (dir : List (Record α)) (l : List (Candidate α)) :
    Op α → Option Errno → List (Candidate α) → Prop
  | created (l₁ l₂ : List (Candidate α)) (room : Room α) (new : New α) (pos : Nat) (files : l = l₁ ++ l₂) :
    Effect dir l (.create room new) none (l₁ ++ new.file pos :: l₂)
  | refused (room : Room α) (new : New α) (e : Errno) (why : Refusal room (new.slots + 1) dir e) :
    Effect dir l (.create room new) (some e) l
  | removed (l₁ l₂ : List (Candidate α)) (c : Candidate α) (io : Removal) (name : List Nat)
    (files : l = l₁ ++ c :: l₂)
    (earlier : ∀ d ∈ l₁, isMatch N name d = false) (found : isMatch N name c = true) :
    Effect dir l (.unlink io name) io.entry (l₁ ++ l₂)
  | missing (io : Removal) (name : List Nat) (absent : ∀ d ∈ l, isMatch N name d = false) :
    Effect dir l (.unlink io name) (some .enoent) l
  | renamed (l₁ l₂ m₁ m₂ : List (Candidate α)) (c : Candidate α) (io : Renaming α) (old : List Nat)
    (new : New α)
    (inode : Inode α) (pos : Nat) (files : l = l₁ ++ c :: l₂) (earlier : ∀ d ∈ l₁, isMatch N old d = false)
    (found : isMatch N old c = true) (others : l₁ ++ l₂ = m₁ ++ m₂) :
    Effect dir l (.rename io old new inode) none (m₁ ++ new.moved io.sync inode pos :: m₂)
  | kept (io : Renaming α) (old : List Nat) (new : New α) (inode : Inode α) (e : Errno)
    (found : ∃ d ∈ l, isMatch N old d = true)
    (why : Refusal io.room (new.slots + 1) dir e ∨ io.sync = some (some e)) :
    Effect dir l (.rename io old new inode) (some e) l
  | lost (l₁ l₂ : List (Candidate α)) (c : Candidate α) (io : Renaming α) (old : List Nat) (new : New α)
    (inode : Inode α) (e : Errno) (files : l = l₁ ++ c :: l₂) (earlier : ∀ d ∈ l₁, isMatch N old d = false)
    (found : isMatch N old c = true) (why : io.old.entry = some e) :
    Effect dir l (.rename io old new inode) (some e) (l₁ ++ l₂)
  | unknown (io : Renaming α) (old : List Nat) (new : New α) (inode : Inode α)
    (absent : ∀ d ∈ l, isMatch N old d = false) :
    Effect dir l (.rename io old new inode) (some .enoent) l

variable (perBlock : Nat)

variable {dir : List (Record α)}

inductive Renames (dir : List (Record α)) (io : Renaming α) (old : List Nat) (new : New α) (inode : Inode α) :
    Option Errno × List (Record α) × Inode α → Prop
  | unknown (absent : ∀ d ∈ files dir, isMatch N old d = false) :
    Renames dir io old new inode (some .enoent, dir, inode)
  | refused (dir' : List (Record α)) (e : Errno) (found : ∃ d ∈ files dir, isMatch N old d = true)
    (same : files dir' = files dir) (why : Refusal io.room (new.slots + 1) dir e) :
    Renames dir io old new inode (some e, dir', inode)
  | unsynced (dir' : List (Record α)) (l₁ l₂ : List (Candidate α)) (c : Candidate α) (e : Errno)
    (files : files dir = l₁ ++ c :: l₂) (earlier : ∀ d ∈ l₁, isMatch N old d = false)
    (found : isMatch N old c = true) (same : FatDir.files dir' = FatDir.files dir) (why : io.sync = some (some e)) :
    Renames dir io old new inode (some e, dir', { inode with pos := c.pos })
  | lost (dir' : List (Record α)) (l₁ l₂ : List (Candidate α)) (c : Candidate α) (e : Errno)
    (files : files dir = l₁ ++ c :: l₂) (earlier : ∀ d ∈ l₁, isMatch N old d = false)
    (found : isMatch N old c = true) (gone : FatDir.files dir' = l₁ ++ l₂) (why : io.old.entry = some e) :
    Renames dir io old new inode (some e, dir', { inode with pos := c.pos })
  | renamed (dir' : List (Record α)) (l₁ l₂ m₁ m₂ : List (Candidate α)) (c : Candidate α) (pos : Nat)
    (files : files dir = l₁ ++ c :: l₂) (earlier : ∀ d ∈ l₁, isMatch N old d = false)
    (found : isMatch N old c = true) (others : l₁ ++ l₂ = m₁ ++ m₂) (readable : Readable dir')
    (moved : FatDir.files dir' = m₁ ++ new.moved io.sync inode pos :: m₂) :
    Renames dir io old new inode (none, dir', { inode with pos := pos })

variable {new : New α} {inode : Inode α}

variable {sync : Option (Option Errno)} {pos : Nat} {l₁ l₂ : List (Candidate α)}

theorem Renames.effect {io : Renaming α} {old : List Nat} {r : Option Errno × List (Record α) × Inode α}
    (h : Renames N dir io old new inode r) : Effect N dir (files dir) (.rename io old new inode) r.1 (files r.2.1) := by
  cases h with
  | unknown absent => exact .unknown io old new inode absent
  | refused dir' e found same why =>
    dsimp only
    rw [same]
    exact .kept io old new inode e found (.inl why)
  | unsynced dir' l₁ l₂ c e hold earlier found same why =>
    dsimp only
    rw [same]
    exact .kept io old new inode e ⟨c, hold ▸ List.mem_append_cons_self, found⟩ (.inr why)
  | lost dir' l₁ l₂ c e hold earlier found gone why =>
    dsimp only
    rw [gone]
    exact .lost l₁ l₂ c io old new inode e hold earlier found why
  | renamed dir' l₁ l₂ m₁ m₂ c pos hold earlier found others readable moved =>
    dsimp only
    rw [moved]
    exact .renamed l₁ l₂ m₁ m₂ c io old new inode pos hold earlier found others

def root (clusters short : Option Errno) : Room Nat := ⟨true, true, 2, 16, clusters, 0, none, short, []⟩

def answers (entry : Option Errno) : Renaming Nat := ⟨root none none, some none, ⟨entry, []⟩, ⟨none, []⟩⟩

end Effects

section Names

variable {N : Names α} {name : List Nat}

/-- An operation that does not concern the file c under the name: it gives the name to no file, and it does not remove
or rename c. -/
def Op.Spares (N : Names α) (name : List Nat) (c : Candidate α) : Op α → Prop
  | .create _ new => isMatch N name (new.file 0) = false
  | .unlink _ other => isMatch N other c = false
  | .rename _ old new _ => isMatch N old c = false ∧ isMatch N name (new.file 0) = false

instance (c : Candidate α) : DecidablePred (Op.Spares N name c)
  | .create _ new => inferInstanceAs (Decidable (isMatch N name (new.file 0) = false))
  | .unlink _ other => inferInstanceAs (Decidable (isMatch N other c = false))
  | .rename _ old new _ =>
    inferInstanceAs (Decidable (isMatch N old c = false ∧ isMatch N name (new.file 0) = false))

variable {dir : List (Record α)} {l l' : List (Candidate α)}

theorem Effect.only {room : Room α} {new : New α} (h : Effect N dir l (.create room new) none l')
    (hname : isMatch N name (new.file 0) = true) (hfresh : l.filter (isMatch N name) = []) :
    ∃ pos, l'.filter (isMatch N name) = [new.file pos] := by
  cases h with
  | created l₁ l₂ room new pos hold => exact ⟨pos, filter_insert_of_pos hname (hold ▸ hfresh)⟩

variable {perBlock : Nat}

end Names

end SuperRaid.FatDir
