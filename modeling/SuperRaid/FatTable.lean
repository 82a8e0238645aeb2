import SuperRaid.FatEntry
import SuperRaid.SysReturns

namespace SuperRaid.FatTable

open Image Sys FatEntry

def startEnt : Nat := 2

def maxBufPerPage : Nat := 8

inductive Errno
  | eio
  | enospc
  | enomem
  | einval
  | eopnotsupp
  | erestartsys
  deriving DecidableEq

structure Options where
  synchronous : Bool
  discard : Bool
  errorsRo : Bool

/-- The buffers of the device, the fields of msdos_sb_info that change, and the discards that were issued, newest
first: a first cluster and a number of clusters. -/
structure Fat where
  bufs : Buffers
  freeClusters : BitVec 32
  freeClusValid : Bool
  prevFree : Nat
  fsinfoDirty : Bool
  rdonly : Bool
  discards : List (Nat × Nat)

/-- What the kernel answers to a call: whether a block was read, a buffer was found and a write-out succeeded, what a
discard returned, whether a signal is pending or another task is due, and what happens while the lock is dropped. -/
structure Answer where
  read : Bool
  memory : Bool
  sync : Bool
  discard : Option Errno
  signal : Bool
  others : Option (Fat → Fat)

abbrev Io := Prog Fat Answer

variable (vol : Volume) (opt : Options)

def unknown : BitVec 32 := -1

def sbBread : Io Bool := Prog.call (fun r s => (r.read, s))

def sbGetblk : Io Bool := Prog.call (fun r s => (r.memory, s))

/-- fat_sync_bhs and sync_dirty_buffer. -/
def syncBhs : Io Bool := Prog.call (fun r s => (r.sync, s))

def fatFsError : Io Unit := Prog.modify (fun s => if opt.errorsRo then { s with rdonly := true } else s)

def markFsinfoDirty : Io Unit :=
  Prog.modify (fun s => if s.rdonly ∨ vol.variant ≠ .fat32 then s else { s with fsinfoDirty := true })

def fatValidEntry (entry : Nat) : Bool := startEnt ≤ entry ∧ entry < vol.maxCluster

def entBread (f : Fatent) (offset blocknr : Nat) : Io (Option Fatent) := do
  if ← sbBread then
    if vol.variant ≠ .fat12 ∨ offset + 1 < vol.blockSize then
      pure (some (entSetPtr vol { f with bhs := [blocknr] } offset))
    else if ← sbBread then pure (some (entSetPtr vol { f with bhs := [blocknr, blocknr + 1] } offset))
    else pure none
  else pure none

def fatEntUpdatePtr (f : Fatent) (offset blocknr : Nat) : Option Fatent :=
  match f.bhs with
  | [] => none
  | b :: rest =>
      if b ≠ blocknr then none
      else if vol.variant ≠ .fat12 then some (entSetPtr vol f offset)
      else if offset + 1 < vol.blockSize then some (entSetPtr vol { f with bhs := [b] } offset)
      else match rest with
        | [] => none
        | b' :: _ => if b' ≠ blocknr + 1 then none else some (entSetPtr vol f offset)

def fatEntRead (f : Fatent) (entry : Nat) : Io (Except Errno Nat × Fatent) := do
  if fatValidEntry vol entry then
    let f := f.setEntry entry
    let (offset, blocknr) := entBlocknr vol entry
    match fatEntUpdatePtr vol f offset blocknr with
    | some f => do
        let next ← Prog.read (fun s => entGet s.bufs f)
        pure (.ok next, f)
    | none => do
        match ← entBread vol f.brelse offset blocknr with
        | none => pure (.error .eio, f.brelse)
        | some f => do
            let next ← Prog.read (fun s => entGet s.bufs f)
            pure (.ok next, f)
  else
    fatFsError opt
    pure (.error .eio, f.brelse)

def entStore (f : Fatent) (new : Nat) : Io Unit := Prog.modify (fun s => { s with bufs := entPut s.bufs f new })

def copyBlock (bufs : Buffers) (src dst : Nat) : Buffers := fun p => if p.1 = dst then bufs (src, p.2) else bufs p

/-- The loop of fat_mirror_bhs, over the copies of the FAT and the blocks. -/
def mirrorLoop : List (Nat × Nat) → Io (Option Errno)
  | [] => pure none
  | (copy, b) :: rest => do
      if ← sbGetblk then
        Prog.modify (fun s => { s with bufs := copyBlock s.bufs b (vol.fatLength * copy + b) })
        if opt.synchronous then
          if ← syncBhs then mirrorLoop rest else pure (some .eio)
        else mirrorLoop rest
      else pure (some .enomem)

def fatMirrorBhs (bhs : List Nat) : Io (Option Errno) :=
  mirrorLoop vol opt ((List.range' 1 (vol.fats - 1)).flatMap (fun copy => bhs.map (fun b => (copy, b))))

def syncAndMirror (wait : Bool) (bhs : List Nat) : Io (Option Errno) := do
  if wait then
    if ← syncBhs then fatMirrorBhs vol opt bhs else pure (some .eio)
  else fatMirrorBhs vol opt bhs

def fatEntWrite (f : Fatent) (new : Nat) (wait : Bool) : Io (Option Errno) := do
  entStore f new
  syncAndMirror vol opt wait f.bhs

def fatEntNext (f : Fatent) : Fatent × Bool :=
  let (f, more) := entNext vol f
  (f, more && decide (f.entry < vol.maxCluster))

def fatEntReadBlock (f : Fatent) : Io (Option Fatent) :=
  let (offset, blocknr) := entBlocknr vol f.entry
  entBread vol f.brelse offset blocknr

/-- An entry of the search through the FAT: the block is read where it is not in the buffers at hand. -/
def entAt (mapped : Bool) (f : Fatent) : Io (Option Fatent) :=
  if mapped then pure (some f) else fatEntReadBlock vol f

def fatCollectBhs (bhs : List Nat) (f : Fatent) : List Nat :=
  f.bhs.foldl (fun bhs b => if b ∈ bhs then bhs else bhs ++ [b]) bhs

section Free

structure Freeing where
  cluster : Nat
  fatent : Fatent
  firstCl : Nat
  bhs : List Nat
  dirtyFsinfo : Bool

/-- How its loop ends. A loop that goes on for ever, or that collects more buffers than its array has room for, is
astray: the number of rounds is bounded in the model, and the room is checked. -/
inductive FreeEnd
  | ended (err : Option Errno) (st : Freeing)
  | astray

def freeDiscard (st : Freeing) (next entry : Nat) : Io Freeing := do
  if opt.discard ∧ next ≠ entry + 1 then
    Prog.call (fun _ s => ((), { s with discards := (st.firstCl, entry - st.firstCl + 1) :: s.discards }))
    pure { st with firstCl := next }
  else pure st

def freeEntry (f : Fatent) (st : Freeing) : Io Freeing := do
  entStore f entFree
  let known ← Prog.read (fun s => decide (s.freeClusters ≠ unknown))
  if known then
    Prog.modify (fun s => { s with freeClusters := s.freeClusters + 1 })
    pure { st with dirtyFsinfo := true }
  else pure st

/-- The collected blocks are written and mirrored when there is no room for more. -/
def freeFlush (f : Fatent) (st : Freeing) : Io (Option Errno × Freeing) := do
  if maxBufPerPage < st.bhs.length + f.bhs.length then
    let err ← syncAndMirror vol opt opt.synchronous st.bhs
    pure (err, if err = none then { st with bhs := [] } else st)
  else pure (none, st)

def freeRound (f : Fatent) (next : Nat) (st : Freeing) : Io (Option Errno × Freeing) := do
  let st ← freeDiscard opt st next f.entry
  let st ← freeEntry f st
  let (err, st) ← freeFlush vol opt f st
  pure (err, if err = none then { st with bhs := fatCollectBhs st.bhs f, fatent := f, cluster := next } else st)

def freeLoop : Nat → Freeing → Io FreeEnd
  | 0, _ => pure .astray
  | n + 1, st => do
      let (r, f) ← fatEntRead vol opt st.fatent st.cluster
      match r with
      | .error e => pure (.ended (some e) st)
      | .ok next =>
          if next = entFree then do
            fatFsError opt
            pure (.ended (some .eio) st)
          else do
            let (err, st) ← freeRound vol opt f next st
            if err ≠ none then pure (.ended err st)
            else if maxBufPerPage < st.bhs.length then pure .astray
            else if next = entEof then pure (.ended none st)
            else freeLoop n st

/-- fat_free_clusters; none if it goes astray. -/
def fatFreeClusters (cluster : Nat) : Io (Option (Option Errno)) := do
  match ← freeLoop vol opt (vol.maxCluster + 1) ⟨cluster, fatentInit, cluster, [], false⟩ with
  | .astray => pure none
  | .ended err st => do
      let err ← if err = none then syncAndMirror vol opt opt.synchronous st.bhs else pure err
      if st.dirtyFsinfo then markFsinfoDirty vol
      pure (some err)

end Free

section Alloc

structure Search where
  fatent : Fatent
  prevEnt : Fatent
  clusters : List Nat
  bhs : List Nat

def takeEntry (f : Fatent) (st : Search) : Io Search := do
  entStore f entEof
  if st.prevEnt.bhs ≠ [] then entStore st.prevEnt f.entry
  Prog.modify (fun s => { s with
    prevFree := f.entry
    freeClusters := if s.freeClusters ≠ unknown then s.freeClusters - 1 else s.freeClusters })
  pure { st with clusters := st.clusters ++ [f.entry], bhs := fatCollectBhs st.bhs f, prevEnt := f }

def lookAt (f : Fatent) (st : Search) : Io (Bool × Search) := do
  let next ← Prog.read (fun s => entGet s.bufs f)
  if next = entFree then do
    let st ← takeEntry f st
    pure (true, st)
  else pure (false, st)

/-- How the search under the lock ends: at once, since the count of free clusters leaves no room; or with what was
found; or astray, with more buffers than there is room for. -/
inductive AllocEnd
  | full
  | ended (err : Option Errno) (st : Search)
  | astray

/-- The two loops over the entries, of which so many are left to look at. -/
def allocLoop (nr : Nat) : Nat → Bool → Search → Io AllocEnd
  | 0, _, st => do
      Prog.modify (fun s => { s with freeClusters := 0, freeClusValid := true })
      pure (.ended (some .enospc) st)
  | left + 1, mapped, st => do
      let entry := if mapped ∨ st.fatent.entry < vol.maxCluster then st.fatent else st.fatent.setEntry startEnt
      match ← entAt vol mapped entry with
      | none => pure (.ended (some .eio) st)
      | some f => do
          let (taken, st) ← lookAt f st
          if maxBufPerPage < st.bhs.length then pure .astray
          else if taken ∧ st.clusters.length = nr then pure (.ended none st)
          else
            let (f', more) := fatEntNext vol f
            allocLoop nr left more { st with fatent := f' }

def allocLocked (nr : Nat) : Io AllocEnd := do
  let s ← Prog.read id
  if s.freeClusters ≠ unknown ∧ s.freeClusValid ∧ s.freeClusters.toNat < nr then pure .full
  else
    allocLoop vol nr (vol.maxCluster - startEnt) false ⟨fatentInit.setEntry (s.prevFree + 1), fatentInit, [], []⟩

/-- After an error, what was taken is freed again. -/
def allocEnd (err : Option Errno) (clusters : List Nat) : Io (Option (Except Errno (List Nat))) :=
  match err, clusters with
  | none, cs => pure (some (.ok cs))
  | some e, [] => pure (some (.error e))
  | some e, c :: _ => do
      let freed ← fatFreeClusters vol opt c
      pure (freed.map (fun _ => .error e))

def fatAllocClusters (needsSync : Bool) (nr : Nat) : Io (Option (Except Errno (List Nat))) := do
  match ← allocLocked vol nr with
  | .astray => pure none
  | .full => pure (some (.error .enospc))
  | .ended err st => do
      markFsinfoDirty vol
      let err ← if err = none then syncAndMirror vol opt needsSync st.bhs else pure err
      allocEnd vol opt err st.clusters

end Alloc

section Count

def countLoop : Nat → Bool → Fatent → Nat → Io (Option Nat)
  | 0, _, _, free => pure (some free)
  | left + 1, mapped, f, free => do
      match ← entAt vol mapped f with
      | none => pure none
      | some f => do
          let next ← Prog.read (fun s => entGet s.bufs f)
          let (f', more) := fatEntNext vol f
          countLoop left more f' (if next = entFree then free + 1 else free)

def fatCountFreeClusters : Io (Option Errno) := do
  let s ← Prog.read id
  if s.freeClusters ≠ unknown ∧ s.freeClusValid then pure none
  else
    match ← countLoop vol (vol.maxCluster - startEnt) false (fatentInit.setEntry startEnt) 0 with
    | none => pure (some .eio)
    | some free => do
        Prog.modify (fun s => { s with freeClusters := BitVec.ofNat 32 free, freeClusValid := true })
        markFsinfoDirty vol
        pure none

/-- fat_statfs, as far as clusters are concerned: how many there are, and how many are free. -/
def fatStatfs : Io (Except Errno (Nat × BitVec 32)) := do
  let s ← Prog.read id
  let err ← if s.freeClusters = unknown ∨ s.freeClusValid = false then fatCountFreeClusters vol else pure none
  match err with
  | some e => pure (.error e)
  | none => do
      let free ← Prog.read Fat.freeClusters
      pure (.ok (vol.maxCluster - startEnt, free))

end Count

end SuperRaid.FatTable
