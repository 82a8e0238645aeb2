import SuperRaid.Machine

namespace SuperRaid.Storage

open Image Footer Volatile Sys Machine

variable {env : Env} (L : Layout) (sha : Sha)

inductive Access
  | read | write | exclusive
deriving DecidableEq

/-- The geometries open_target admits. -/
def supported (t : Target) : Bool :=
  footerAreaSize < t.size ∧ t.size < 2 ^ 63 ∧ 0 < t.logicalSize ∧ footerAreaSize % t.logicalSize = 0 ∧
    t.size % t.logicalSize = 0

/-- The open of a block device. An exclusive one fails on a mounted device; the whole disk is only ever read. -/
def openNode (node : Node) (access : Access) : Run env Bool :=
  sys (fun r w => (r.ok && (access != .exclusive || !w.busy node) && (access == .read || node != .parent), w))

def closeTarget : Run env Unit := ask (fun _ => ())

def openTarget (path : Path) (access : Access) : Run env (Option Target) := do
  if ← succeeds then
    match L.node path with
    | none => pure none
    | some node =>
        if ← openNode node access then
          -- BLKGETSIZE64 and BLKSSZGET
          if ← succeeds then
            if supported (L.target node) then
              pure (some (L.target node))
            else do
              closeTarget
              pure none
          else do
            closeTarget
            pure none
        else
          pure none
  else
    pure none

def preadStep (node : Node) (off len : Nat) (acc : Bytes) (r : Answer env.Choice) (w : World) :
    (Bytes ⊕ Option Bytes) × World :=
  let w := w.act env r
  if r.ok then
    let got := slice (w.content L node) (off + acc.length) (min r.count (len - acc.length))
    if got = [] then (.inr none, w)
    else if acc.length + got.length < len then (.inl (acc ++ got), w)
    else (.inr (some (acc ++ got)), w)
  else if r.intr then (.inl acc, w)
  else (.inr none, w)

def preadFull (node : Node) (off len : Nat) : Run env (Option Bytes) :=
  if len = 0 then pure (some []) else Prog.loopCall (preadStep L node off len) []

/-- One pwrite of pwrite_full, after done bytes. A failing one may still have written some of its bytes. -/
def pwriteStep (d : Dev) (off : Nat) (bs : Bytes) (done : Nat) (r : Answer env.Choice) (w : World) :
    (Nat ⊕ Bool) × World :=
  let w := w.act env r
  let chunk := slice bs done (min r.count (L.size d - (off + done)))
  if r.ok then
    if chunk = [] then (.inr false, w)
    else if done + chunk.length < bs.length then (.inl (done + chunk.length), w.write d (off + done) chunk)
    else (.inr true, w.write d (off + done) chunk)
  else if r.intr then (.inl done, w)
  else (.inr false, w.write d (off + done) chunk)

def pwriteFull (node : Node) (off : Nat) (bs : Bytes) : Run env Bool :=
  match node with
  | .parent => pure false
  | .part d => if bs = [] then pure true else Prog.loopCall (pwriteStep L d off bs) 0

def fsync : Node → Run env Bool
  | .part d => sys (fun r w => (r.ok, if r.ok then w.sync d else w))
  | .parent => succeeds

/-- The threads of hash_sha256_fd are modelled on their own. They may miss the end of the device. -/
def hashSha256Fd (t : Target) (len : Nat) : Run env (Option Bytes) :=
  sys (fun r w =>
    (if r.ok then some (sha.hash (slice (w.content L t.node) 0 (env.digested r.choice len))) else none, w))

def readDescriptor (t : Target) : Run env (Except Failure Bytes) := do
  if ← succeeds then
    if t.size ≤ footerAreaSize then pure (.error .ioError)
    -- set_buffered_io
    else if ← succeeds then
      let raw ← preadFull L t.node (t.size - descriptorSize) descriptorSize
      let restored ← succeeds
      match raw, restored with
      | some raw, true => match validateDescriptor raw (t.size - footerAreaSize) with
          | some digest => pure (.ok digest)
          | none => pure (.error .metadataInvalid)
      | _, _ => pure (.error .ioError)
    else pure (.error .ioError)
  else pure (.error .ioError)

def writeDescriptor (t : Target) (digest : Bytes) : Run env Bool := do
  if ← succeeds then
    if t.size ≤ footerAreaSize then pure false
    else if ← succeeds then
      let written ← pwriteFull L t.node (t.size - descriptorSize)
        (encodeDescriptor (t.size - footerAreaSize) digest)
      let restored ← succeeds
      if written && restored then fsync t.node else pure false
    else pure false
  else pure false

def verifyTarget (t : Target) : Run env (Except Failure Bytes) := do
  match ← readDescriptor L t with
  | .error code => pure (.error code)
  | .ok expected => match ← hashSha256Fd L sha t (t.size - footerAreaSize) with
      | none => pure (.error .ioError)
      | some actual => if actual = expected then pure (.ok actual) else pure (.error .hashMismatch)

def verifyPath (path : Path) : Run env (Except Failure Bytes) := do
  match ← openTarget L path .read with
  | none => pure (.error .ioError)
  | some t =>
      let result ← verifyTarget L sha t
      closeTarget
      pure result

def powerctlVerifyPathDigest (path : Path) : Run env (Except Failure Bytes) := do
  let result ← verifyPath L sha path
  note (.verified path result)
  pure result

def sealTarget (t : Target) : Run env (Option Bytes) := do
  match ← hashSha256Fd L sha t (t.size - footerAreaSize) with
  | none => pure none
  | some digest => if ← writeDescriptor L t digest then pure (some digest) else pure none

def powerctlSealBlockDevice (path : Path) : Run env (Option Bytes) := do
  match ← openTarget L path .write with
  | none => pure none
  | some t =>
      let sealed ← sealTarget L sha t
      match sealed with
      | some digest => note (.sealed path digest)
      | none => pure ()
      closeTarget
      pure sealed

def bufferSize : Nat := 1024 * 1024

/-- The loop of copy_block_range_from_target. It moves on in every round, so as many rounds as bytes are enough. -/
def copyLoop (source : Target) (sourceOffset length : Nat) (destination : Target) : Nat → Nat → Run env Bool
  | 0, _ => pure true
  | fuel + 1, offset =>
      if offset < length then do
        let count := min bufferSize (length - offset)
        match ← preadFull L source.node (sourceOffset + offset) count with
        | none => pure false
        | some buffer =>
            if ← pwriteFull L destination.node offset buffer then
              copyLoop source sourceOffset length destination fuel (offset + count)
            else
              pure false
      else
        pure true

def copyToTarget (source : Target) (sourceOffset length : Nat) (destination : Target) : Run env Bool := do
  if destination.size ≠ length ∨ sourceOffset % source.logicalSize ≠ 0 ∨ length % source.logicalSize ≠ 0 ∨
      length % destination.logicalSize ≠ 0 then
    pure false
  -- posix_memalign
  else if ← succeeds then
    if ← copyLoop L source sourceOffset length destination length 0 then
      fsync destination.node
    else
      pure false
  else
    pure false

def copyBlockRangeFromTarget (source : Target) (sourceOffset length : Nat) (destination : Path) : Run env Bool := do
  if length = 0 ∨ source.size < sourceOffset ∨ source.size - sourceOffset < length then
    pure false
  else
    match ← openTarget L destination .exclusive with
    | none => pure false
    | some t =>
        let copied ← copyToTarget L source sourceOffset length t
        closeTarget
        pure copied

def copyFrom (source : Path) (range : Target → Nat × Nat) (destination : Path) : Run env Bool := do
  if source = destination then
    pure false
  else
    match ← openTarget L source .read with
    | none => pure false
    | some t =>
        let copied ← copyBlockRangeFromTarget L t (range t).1 (range t).2 destination
        closeTarget
        pure copied

def copyBlockRange (source : Path) (sourceOffset length : Nat) (destination : Path) : Run env Bool :=
  copyFrom L source (fun _ => (sourceOffset, length)) destination

def copyBlockDevice (source destination : Path) : Run env Bool :=
  copyFrom L source (fun t => (0, t.size)) destination

def resolvePartitionSource (partition : Path) : Run env (Option (Path × Nat × Nat)) := do
  if ← succeeds then
    match L.node partition with
    | some (.part d) =>
        -- realpath of the sysfs entry, then its start file
        if ← succeeds then
          if ← succeeds then
            match ← openTarget L partition .read with
            | none => pure none
            | some t =>
                closeTarget
                if (2 ^ 64 - 1) / 512 < L.startSector d then pure none
                else pure (some (L.parentName, 512 * L.startSector d, t.size))
          else pure none
        else pure none
    | _ => pure none
  else pure none

/-- split_devices, without its allocations. -/
def splitSpec (spec : Path) : Option (Path × Path) :=
  match spec.span (· ≠ ':') with
  | (first, _ :: second) => if first = [] ∨ second = [] then none else some (first, second)
  | _ => none

def splitDevices (spec : Path) : Run env (Option (Path × Path)) := do
  match splitSpec spec with
  | none => pure none
  | some pair => if ← succeeds then pure (some pair) else pure none

end SuperRaid.Storage
