import SuperRaid.FileFlags
import SuperRaid.Footer
import SuperRaid.Sys

namespace SuperRaid.Transfer

open Image Footer Sys FileFlags

inductive Fd
  | source | destination
deriving DecidableEq

inductive Reply
  | moved (count : Nat)
  | interrupted
  | failed

inductive Kind
  | pread | pwrite
deriving DecidableEq

structure Request where
  kind : Kind
  fd : Fd
  address : Nat
  length : Nat
  offset : Nat
  direct : Bool

inductive Op
  | sum (a b : Nat)
  | request (q : Request)
  | setFlags (flags : BitVec 32) (ok : Bool)

/-- The devices as their descriptors show them, the file status flags, and what was done, newest first. -/
structure State where
  content : Fd → Bytes
  flags : Fd → BitVec 32
  trace : List Op

/-- The logical block sizes, what a partial O_DIRECT transfer moves a multiple of, and where the destination lies on
the source device if it is a part of it. -/
structure Setting where
  logical : Fd → Nat
  granule : Fd → Nat
  place : Option Nat

structure Target where
  size : Nat
  logicalSize : Nat

namespace State

def note (s : State) (op : Op) : State := { s with trace := op :: s.trace }

def direct (s : State) (fd : Fd) : Bool := s.flags fd &&& oDirect != 0

def setFlags (s : State) (fd : Fd) (flags : BitVec 32) : State :=
  { s with flags := Function.update s.flags fd (setfl (s.flags fd) flags) }

/-- Bytes written to the destination also change the device it is a part of. -/
def put (set : Setting) (s : State) (fd : Fd) (pos : Nat) (bs : Bytes) : State :=
  match fd, set.place with
  | .destination, some start =>
      { s with content := fun
        | .source => overwrite (s.content .source) (start + pos) bs
        | .destination => overwrite (s.content .destination) pos bs }
  | _, _ => { s with content := Function.update s.content fd (overwrite (s.content fd) pos bs) }

end State

abbrev Io := Prog State Reply

variable (set : Setting)

def succeeds : Io Bool :=
  Prog.call (fun r s => (match r with
    | .moved _ => true
    | _ => false, s))

def allSucceed : Nat → Io Bool
  | 0 => pure true
  | n + 1 => do if ← succeeds then allSucceed n else pure false

def note (op : Op) : Io Unit := Prog.modify (·.note op)

def sum64 (a b : Nat) : Io Nat := do
  note (.sum a b)
  pure ((a + b) % 2 ^ 64)

def moves (s : State) (fd : Fd) (count : Nat) : Nat := if s.direct fd then count * set.granule fd else count

def preadStep (fd : Fd) (address len off : Nat) (acc : Bytes) (r : Reply) (s : State) :
    (Bytes ⊕ Option Bytes) × State :=
  let pos := (off + acc.length) % 2 ^ 64
  let q : Request := ⟨.pread, fd, address + acc.length, len - acc.length, pos, s.direct fd⟩
  let s' := (s.note (.sum off acc.length)).note (.request q)
  match r with
  | .interrupted => (.inl acc, s')
  | .failed => (.inr none, s')
  | .moved count =>
      let got := slice (s.content fd) pos (min (moves set s fd count) (len - acc.length))
      if got = [] then (.inr none, s')
      else if acc.length + got.length < len then (.inl (acc ++ got), s')
      else (.inr (some (acc ++ got)), s')

def preadFull (fd : Fd) (address len off : Nat) : Io (Option Bytes) :=
  if len = 0 then pure (some []) else Prog.loopCall (preadStep set fd address len off) []

def pwriteStep (fd : Fd) (address : Nat) (bs : Bytes) (off : Nat) (done : Nat) (r : Reply) (s : State) :
    (Nat ⊕ Bool) × State :=
  let pos := (off + done) % 2 ^ 64
  let q : Request := ⟨.pwrite, fd, address + done, bs.length - done, pos, s.direct fd⟩
  let s' := (s.note (.sum off done)).note (.request q)
  match r with
  | .interrupted => (.inl done, s')
  | .failed => (.inr false, s')
  | .moved count =>
      let chunk := slice bs done (min (moves set s fd count) ((s.content fd).length - pos))
      if chunk = [] then (.inr false, s')
      else if done + chunk.length < bs.length then (.inl (done + chunk.length), s'.put set fd pos chunk)
      else (.inr true, s'.put set fd pos chunk)

def pwriteFull (fd : Fd) (address : Nat) (bs : Bytes) (off : Nat) : Io Bool :=
  if bs = [] then pure true else Prog.loopCall (pwriteStep set fd address bs off) 0

def admitted (t : Target) : Bool :=
  footerAreaSize < t.size ∧ t.size ≤ 2 ^ 63 - 1 ∧ 0 < t.logicalSize ∧ footerAreaSize % t.logicalSize = 0 ∧
    t.size % t.logicalSize = 0

def openFd (fd : Fd) (flags : BitVec 32) : Io Bool :=
  Prog.call (fun r s => match r with
    | .moved _ => (true, { s with flags := Function.update s.flags fd flags })
    | _ => (false, s))

def closeTarget : Io Unit := do
  let _ ← succeeds
  pure ()

def readSize (fd : Fd) : Io Nat := fun rs s => .done (s.content fd).length rs s

def openTarget (fd : Fd) (flags : BitVec 32) : Io (Option Target) := do
  -- stat
  if ← succeeds then
    if ← openFd fd flags then
      let size ← readSize fd
      -- fstat, BLKGETSIZE64 and BLKSSZGET
      if (← allSucceed 3) && admitted ⟨size, set.logical fd⟩ then
        pure (some ⟨size, set.logical fd⟩)
      else do
        closeTarget
        pure none
    else pure none
  else pure none

def bufferSize : Nat := 1024 * 1024

def posixMemalign (alignment : Nat) : Io (Option Nat) :=
  Prog.call (fun r s => (match r with
    | .moved count => some (count * alignment)
    | _ => none, s))

def alignment (source destination : Target) : Nat :=
  let larger := if source.logicalSize > destination.logicalSize then source.logicalSize else destination.logicalSize
  if larger < 4096 then 4096 else larger

def copyLoop (address sourceOffset length : Nat) : Nat → Nat → Io Bool
  | 0, _ => pure true
  | fuel + 1, offset =>
      if offset < length then do
        let count := if length - offset < bufferSize then length - offset else bufferSize
        let pos ← sum64 sourceOffset offset
        match ← preadFull set .source address count pos with
        | none => pure false
        | some buffer =>
            if ← pwriteFull set .destination address buffer offset then
              let next ← sum64 offset count
              copyLoop address sourceOffset length fuel next
            else pure false
      else pure true

def copyToTarget (source : Target) (sourceOffset length : Nat) (destination : Target) : Io Bool := do
  if destination.size ≠ length ∨ sourceOffset % source.logicalSize ≠ 0 ∨ length % source.logicalSize ≠ 0 ∨
      length % destination.logicalSize ≠ 0 then
    pure false
  else
    match ← posixMemalign (alignment source destination) with
    | none => pure false
    | some address =>
        if ← copyLoop set address sourceOffset length length 0 then
          -- fsync
          succeeds
        else pure false

def copyBlockRangeFromTarget (source : Target) (sourceOffset length : Nat) : Io Bool := do
  if length = 0 ∨ source.size < sourceOffset ∨ source.size - sourceOffset < length then
    pure false
  else
    match ← openTarget set .destination (oRdwr ||| oDirect) with
    | none => pure false
    | some destination =>
        let result ← copyToTarget set source sourceOffset length destination
        closeTarget
        pure result

def copyFrom (range : Target → Nat × Nat) : Io Bool := do
  match ← openTarget set .source (oRdonly ||| oDirect) with
  | none => pure false
  | some source =>
      let result ← copyBlockRangeFromTarget set source (range source).1 (range source).2
      closeTarget
      pure result

def copyBlockRange (sourceOffset length : Nat) : Io Bool := copyFrom set (fun _ => (sourceOffset, length))

def copyBlockDevice : Io Bool := copyFrom set (fun source => (0, source.size))

def fcntlGetfl (fd : Fd) : Io (BitVec 32) :=
  Prog.call (fun r s => (match r with
    | .moved _ => s.flags fd
    | _ => -1, s))

def fcntlSetfl (fd : Fd) (flags : BitVec 32) : Io Bool :=
  Prog.call (fun r s => match r with
    | .moved _ => (true, (s.setFlags fd flags).note (.setFlags flags true))
    | _ => (false, s.note (.setFlags flags false)))

def setBufferedIo (fd : Fd) : Io (Option (BitVec 32)) := do
  let saved ← fcntlGetfl fd
  if saved.slt 0 then pure none
  else if saved &&& oDirect ≠ 0 then
    if ← fcntlSetfl fd (saved &&& ~~~oDirect) then pure (some saved) else pure none
  else pure (some saved)

def restoreIoFlags (fd : Fd) (saved : BitVec 32) : Io Bool :=
  if saved &&& oDirect = 0 then pure true else fcntlSetfl fd saved

/-- What read_descriptor does to the descriptor; the block it has read goes to validate_descriptor. -/
def readDescriptor (fd : Fd) (address : Nat) : Io (Option Bytes) := do
  let size ← readSize fd
  -- get_fd_size
  if (← allSucceed 2) && decide (footerAreaSize < size) then
    match ← setBufferedIo fd with
    | none => pure none
    | some saved =>
        let raw ← preadFull set fd address descriptorSize (size - descriptorSize)
        let restored ← restoreIoFlags fd saved
        if restored then pure (raw.bind (validateDescriptor · (size - footerAreaSize))) else pure none
  else pure none

def writeDescriptor (fd : Fd) (address : Nat) (digest : Bytes) : Io Bool := do
  let size ← readSize fd
  if (← allSucceed 2) && decide (footerAreaSize < size) then
    match ← setBufferedIo fd with
    | none => pure false
    | some saved =>
        let raw := encodeDescriptor (size - footerAreaSize) digest
        let written ← pwriteFull set fd address raw (size - descriptorSize)
        let restored ← restoreIoFlags fd saved
        if written && restored then succeeds else pure false
  else pure false

end SuperRaid.Transfer
