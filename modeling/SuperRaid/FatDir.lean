import SuperRaid.FatInode

namespace SuperRaid.FatDir

open FatInode (attrVolume)

/-- A record of a directory: a slot of a long name if its attributes are ATTR_EXT, and an entry otherwise. The name of
an entry starts where a slot has its number. -/
inductive Record (α : Type)
  | slot (id sum : Nat) (chars : List Nat)
  | entry (name : List Nat) (attr : BitVec 8) (rest : α)

variable {α : Type}

def Record.first : Record α → Nat
  | .slot id _ _ => id
  | .entry name _ _ => name.headD 0

def Record.isFree (r : Record α) : Bool := r.first = 0 ∨ r.first = 0xe5

def Record.delete : Record α → Record α
  | .slot _ sum chars => .slot 0xe5 sum chars
  | .entry name attr rest => .entry (0xe5 :: name.tail) attr rest

def fatChecksum (name : List Nat) : Nat :=
  name.tail.foldl (fun s b => (s <<< 7 + s >>> 1 + b) % 256) (name.headD 0)

section Search

/-- Where fat_parse_long stands: outside of a long name, or after some of its slots, with the slots to come. -/
inductive Phase
  | record
  | slots (count sum left : Nat)

structure Scan where
  phase : Phase
  unicode : Nat → Nat

/-- An entry that fat_search_long compares, with the number of its long name's slots and the characters of it. -/
structure Candidate (α : Type) where
  pos : Nat
  slots : Nat
  long : List Nat
  name : List Nat
  attr : BitVec 8
  rest : α
  deriving DecidableEq

def fat16Towchar (unicode : Nat → Nat) (offset : Nat) (chars : List Nat) : Nat → Nat :=
  fun i => if offset ≤ i ∧ i < offset + 13 then chars.getD (i - offset) 0 else unicode i

def readSlot (unicode : Nat → Nat) (id slot : Nat) (chars : List Nat) : Nat → Nat :=
  let unicode := fat16Towchar unicode (slot * 13) chars
  if id &&& 0x40 ≠ 0 then Function.update unicode (slot * 13 + 13) 0 else unicode

def parseLong (unicode : Nat → Nat) (id sum : Nat) (chars : List Nat) : Scan :=
  if id &&& 0x40 = 0 then ⟨.record, unicode⟩
  else
    let slots := id &&& 0xbf
    if 20 < slots ∨ slots = 0 then ⟨.record, unicode⟩
    else ⟨.slots slots sum (slots - 1), readSlot unicode id (slots - 1) chars⟩

def longName (unicode : Nat → Nat) : List Nat := ((List.range 261).map unicode).takeWhile (· ≠ 0)

def candidate (unicode : Nat → Nat) (pos slots : Nat) (name : List Nat) (attr : BitVec 8) (rest : α) :
    Candidate α :=
  ⟨pos, slots, if slots = 0 then [] else longName unicode, name, attr, rest⟩

def parseRecord (unicode : Nat → Nat) (pos : Nat) : Record α → Scan × Option (Candidate α)
  | .slot id sum chars => if id = 0xe5 then (⟨.record, unicode⟩, none) else (parseLong unicode id sum chars, none)
  | .entry name attr rest =>
    if (Record.entry name attr rest).isFree ∨ attr &&& attrVolume ≠ 0#8 then (⟨.record, unicode⟩, none)
    else (⟨.record, unicode⟩, some (candidate unicode pos 0 name attr rest))

def scanStep (s : Scan) (pos : Nat) (r : Record α) : Scan × Option (Candidate α) :=
  match s.phase, r with
  | .record, r => parseRecord s.unicode pos r
  | .slots _ _ 0, .slot id sum chars =>
    if id = 0xe5 then (⟨.record, s.unicode⟩, none) else (parseLong s.unicode id sum chars, none)
  | .slots count sum 0, .entry name attr rest =>
    if (Record.entry name attr rest).isFree ∨ attr &&& attrVolume ≠ 0#8 then (⟨.record, s.unicode⟩, none)
    else (⟨.record, s.unicode⟩,
      some (candidate s.unicode pos (if fatChecksum name = sum then count else 0) name attr rest))
  | .slots count sum (left + 1), .slot id sum' chars =>
    if id &&& 0xbf ≠ left + 1 ∨ sum' ≠ sum then (parseLong s.unicode id sum' chars, none)
    else (⟨.slots count sum left, readSlot s.unicode id left chars⟩, none)
  | .slots _ _ (_ + 1), .entry name attr rest => parseRecord s.unicode pos (.entry name attr rest)

/-- How names are shown and compared: fat_parse_short, fat_uni_to_x8 and fat_name_match, over the tables of the
character sets. -/
structure Names (α : Type) where
  parseShort : List Nat → α → List Nat
  uniToX8 : List Nat → List Nat
  nameMatch : List Nat → List Nat → Bool

variable (N : Names α) (name : List Nat)

def isMatch (c : Candidate α) : Bool :=
  let short := N.parseShort c.name c.rest
  short ≠ [] ∧ (N.nameMatch name short ∨ c.slots ≠ 0 ∧ N.nameMatch name (N.uniToX8 c.long))

def searchLoop (s : Scan) (pos : Nat) : List (Record α) → Option (Candidate α)
  | [] => none
  | r :: rs =>
    match scanStep s pos r with
    | (s, none) => searchLoop s (pos + 1) rs
    | (s, some c) => if isMatch N name c then some c else searchLoop s (pos + 1) rs

def fatSearchLong (dir : List (Record α)) : Option (Candidate α) := searchLoop N name ⟨.record, fun _ => 0⟩ 0 dir

end Search

section Change

inductive Errno
  | enoent
  | enospc
  | eio
  | other (code : Nat)
  deriving DecidableEq

/-- The file to be created: the alias and the rest of its entry, and the characters of its name if the alias does not
hold it. -/
structure New (α : Type) where
  name : List Nat
  attr : BitVec 8
  rest : α
  long : List Nat

def padded (uname : List Nat) : List Nat :=
  if uname.length % 13 = 0 then uname
  else
    let terminated := uname ++ [0]
    if terminated.length % 13 = 0 then terminated
    else terminated ++ List.replicate (13 - terminated.length % 13) 0xffff

def slotLoop (sum : Nat) (uname : List Nat) : Nat → List (Record α)
  | 0 => []
  | i + 1 => .slot (i + 1) sum ((uname.drop (i * 13)).take 13) :: slotLoop sum uname i

def markFirst : List (Record α) → List (Record α)
  | .slot id sum chars :: rs => .slot (id ||| 0x40) sum chars :: rs
  | rs => rs

def vfatBuildSlots (new : New α) : List (Record α) :=
  let uname := padded new.long
  markFirst (slotLoop (fatChecksum new.name) uname (uname.length / 13)) ++ [.entry new.name new.attr new.rest]

/-- How the first stage of fat_add_entries ends: at the limit of a directory, with a run of free records, or at the end
of the directory with the free records before it. -/
inductive FreeEnd
  | full
  | found (pos : Nat)
  | atEnd (pos free : Nat)

def findFree (need : Nat) : Nat → Nat → List (Record α) → FreeEnd
  | pos, free, [] => .atEnd (pos - free) free
  | pos, free, r :: rs =>
    if 65536 ≤ pos + 1 then .full
    else if r.isFree then
      if free + 1 = need then .found (pos + 1 - need) else findFree need (pos + 1) (free + 1) rs
    else findFree need (pos + 1) 0 rs

def overwrite (dir : List (Record α)) (pos : Nat) (slots : List (Record α)) : List (Record α) :=
  dir.take pos ++ slots ++ dir.drop (pos + slots.length)

def deleteRange (dir : List (Record α)) (pos count : Nat) : List (Record α) :=
  overwrite dir pos (((dir.drop pos).take count).map Record.delete)

variable (perBlock : Nat)

/-- __fat_remove_entries on blocks that can be read, with the answers of sync_dirty_buffer for the first of them; the
others are written, or written later where the directory is not a synchronous one. A block that cannot be written has
been changed in memory. -/
def removeEntries : List (Option Errno) → Nat → Nat → List (Record α) → Option Errno × List (Record α)
  | [], pos, count, dir => (none, deleteRange dir pos count)
  | answer :: answers, pos, count, dir =>
    if count = 0 then (none, dir)
    else
      let here := min count (perBlock - pos % perBlock)
      match answer with
      | some e => (some e, deleteRange dir pos here)
      | none => removeEntries answers (pos + here) (count - here) (deleteRange dir pos here)

structure Removal where
  entry : Option Errno
  slots : List (Option Errno)

/-- fat_remove_entries, for the entry at pos. The slots in its block are deleted with it. That the others could not be
deleted is not reported. -/
def fatRemoveEntries (io : Removal) (dir : List (Record α)) (pos slots : Nat) : Option Errno × List (Record α) :=
  let here := min (slots + 1) (pos % perBlock + 1)
  let dir := deleteRange dir (pos + 1 - here) here
  match io.entry with
  | some e => (some e, dir)
  | none => (none, (removeEntries perBlock io.slots (pos - slots) (slots + 1 - here) dir).2)

/-- What fat_add_entries meets: whether the directory is the root and the volume FAT32, its first cluster, the number of
records in a cluster, the error of getting clusters and adding them if there is one, the rest of a record of zeros, the
errors of writing the blocks with slots only and the one with the entry, and the answers when it takes slots back. -/
structure Room (α : Type) where
  root : Bool
  fat32 : Bool
  start : Nat
  perCluster : Nat
  clusters : Option Errno
  zero : α
  long : Option Errno
  short : Option Errno
  undo : List (Option Errno)

def zeroRecord (room : Room α) : Record α := .entry (List.replicate 11 0) 0#8 room.zero

/-- The checks between the search and the label found. -/
def cannotGrow (room : Room α) : Option Errno :=
  if room.root then
    if room.fat32 then none else some .enospc
  else if room.start = 0 then some .eio else none

def fillFound (room : Room α) (dir slots : List (Record α)) (pos : Nat) : Except Errno Nat × List (Record α) :=
  let long := (pos + slots.length - 1) / perBlock * perBlock - pos
  match if long = 0 then none else room.long with
  | some e => (.error e, (removeEntries perBlock room.undo pos slots.length (overwrite dir pos (slots.take long))).2)
  | none =>
    match room.short with
    | some e => (.error e, (removeEntries perBlock room.undo pos slots.length (overwrite dir pos slots)).2)
    | none => (.ok pos, overwrite dir pos slots)

/-- fat_add_entries, with the place of the first slot. The records before the end are filled before clusters are asked
for. -/
def fatAddEntries (room : Room α) (dir slots : List (Record α)) : Except Errno Nat × List (Record α) :=
  match findFree slots.length 0 0 dir with
  | .full => (.error .enospc, dir)
  | .found pos => fillFound perBlock room dir slots pos
  | .atEnd pos free =>
    match cannotGrow room with
    | some e => (.error e, dir)
    | none =>
      let filled := overwrite dir pos (slots.take free)
      match (if free = 0 then none else room.long).or room.clusters with
      | some e => (.error e, (removeEntries perBlock room.undo pos free filled).2)
      | none =>
        let left := slots.drop free
        let count := (left.length + (room.perCluster - 1)) / room.perCluster
        (.ok pos, filled ++ left ++ List.replicate (count * room.perCluster - left.length) (zeroRecord room))

/-- An inode with the place of its entry, and what __fat_write_inode writes there: the attributes, and the fields of the
rest but for lcase. -/
structure Inode (α : Type) where
  pos : Nat
  attr : BitVec 8
  fill : α → α

def writeInode (inode : Inode α) (dir : List (Record α)) : List (Record α) :=
  dir.modify inode.pos fun
    | .slot id sum chars => .slot id sum chars
    | .entry name _ rest => .entry name inode.attr (inode.fill rest)

/-- vfat_sync_ipos. Without an answer the directory is not a synchronous one, and the inode is written later. -/
def vfatSyncIpos (inode : Inode α) (dir : List (Record α)) :
    Option (Option Errno) → Option Errno × List (Record α)
  | none => (none, dir)
  | some answer => (answer, writeInode inode dir)

structure Renaming (α : Type) where
  room : Room α
  sync : Option (Option Errno)
  old : Removal
  new : Removal

variable (N : Names α)

/-- vfat_rename inside of a directory to a name that no inode has. The place of the old entry is the one from before
the new entry was added. -/
def vfatRename (io : Renaming α) (dir : List (Record α)) (old : List Nat) (new : New α) (inode : Inode α) :
    Option Errno × List (Record α) × Inode α :=
  match fatSearchLong N old dir with
  | none => (some .enoent, dir, inode)
  | some c =>
    match fatAddEntries perBlock io.room dir (vfatBuildSlots new) with
    | (.error e, dir) => (some e, dir, inode)
    | (.ok pos, dir) =>
      let slots := (vfatBuildSlots new).length - 1
      let moved := { inode with pos := pos + slots }
      match vfatSyncIpos moved dir io.sync with
      | (some e, dir) =>
        (some e, (fatRemoveEntries perBlock io.new dir moved.pos slots).2, { inode with pos := c.pos })
      | (none, dir) =>
        match fatRemoveEntries perBlock io.old dir c.pos c.slots with
        | (some e, dir) =>
          -- error_dotdot: the old entry is deleted already, and now the new one is
          (some e, (fatRemoveEntries perBlock io.new dir moved.pos slots).2, { inode with pos := c.pos })
        | (none, dir) => (none, dir, moved)

/-- What is done to a directory: vfat_add_entry, the removal in vfat_unlink and vfat_rmdir, and vfat_rename. -/
inductive Op (α : Type)
  | create (room : Room α) (new : New α)
  | unlink (io : Removal) (name : List Nat)
  | rename (io : Renaming α) (old : List Nat) (new : New α) (inode : Inode α)

def step (dir : List (Record α)) : Op α → Option Errno × List (Record α)
  | .create room new =>
    match fatAddEntries perBlock room dir (vfatBuildSlots new) with
    | (.error e, dir) => (some e, dir)
    | (.ok _, dir) => (none, dir)
  | .unlink io name =>
    match fatSearchLong N name dir with
    | none => (some .enoent, dir)
    | some c => fatRemoveEntries perBlock io dir c.pos c.slots
  | .rename io old new inode =>
    let (answer, dir, _) := vfatRename perBlock N io dir old new inode
    (answer, dir)

def run (dir : List (Record α)) : List (Op α) → List (Option Errno) × List (Record α)
  | [] => ([], dir)
  | op :: ops =>
    let (answer, dir) := step perBlock N dir op
    let (answers, dir) := run dir ops
    (answer :: answers, dir)

end Change

end SuperRaid.FatDir
