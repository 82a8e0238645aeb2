import SuperRaid.Image
import SuperRaid.Transition

namespace SuperRaid.FatWriteback

open Image Transition

abbrev Word := BitVec 32

def unknown : Word := -1

def startEnt : Nat := 2

structure Geometry where
  blockSize : Nat
  fsinfoSector : Nat
  fatStart : Nat
  maxCluster : Nat

/-- The fields of an inode that __fat_write_inode stores. The position is the block and the index of its
directory entry; it is none for the root and for a detached inode. -/
structure Inode where
  pos : Option (Nat × Nat)
  isDir : Bool
  size : Nat
  attr : Nat
  logstart : Nat
  time : Nat
  date : Nat
  adate : Nat
  ctime : Nat
  cdate : Nat
  ctimeCs : Nat
  dirty : Bool

/-- What the kernel holds in memory: blocks as last written by anyone, with their dirty flags, the inodes, the
dirty flag of the FSINFO inode and the counters of msdos_sb_info. -/
structure Memory where
  block : Nat → Bytes
  dirty : Nat → Bool
  inodes : List Inode
  fsinfoDirty : Bool
  freeClusters : Word
  freeClusValid : Bool
  prevFree : Word
  rdonly : Bool

inductive Phase
  | writable
  | blocked
  | synced
  | flushed
  | returned
  deriving DecidableEq

structure State where
  mem : Memory
  disk : Nat → Bytes
  phase : Phase

def rawEntry (ino : Inode) : List (Nat × Bytes) :=
  [(28, leBytes 4 (if ino.isDir then 0 else ino.size)), (11, leBytes 1 ino.attr), (26, leBytes 2 ino.logstart),
    (20, leBytes 2 (ino.logstart / 2 ^ 16)), (22, leBytes 2 ino.time), (24, leBytes 2 ino.date),
    (18, leBytes 2 ino.adate), (14, leBytes 2 ino.ctime), (16, leBytes 2 ino.cdate), (13, leBytes 1 ino.ctimeCs)]

def Memory.putBlock (m : Memory) (b : Nat) (bs : Bytes) : Memory :=
  { m with block := Function.update m.block b bs, dirty := Function.update m.dirty b true }

def Memory.fatWriteInode (m : Memory) (ino : Inode) : Memory :=
  match ino.pos with
  | none => m
  | some (b, i) => m.putBlock b (putFields (32 * i) (rawEntry ino) (m.block b))

def isFsinfo (blk : Bytes) : Bool :=
  leNat (slice blk 0 4) == 0x41615252 && leNat (slice blk 484 4) == 0x61417272

def fsinfoBlock (free next : Word) (blk : Bytes) : Bytes :=
  let blk := if free ≠ unknown then overwrite blk 488 (leBytes 4 free.toNat) else blk
  if next ≠ unknown then overwrite blk 492 (leBytes 4 next.toNat) else blk

def Memory.fatClustersFlush (geo : Geometry) (m : Memory) : Memory :=
  let blk := m.block geo.fsinfoSector
  if isFsinfo blk then m.putBlock geo.fsinfoSector (fsinfoBlock m.freeClusters m.prevFree blk) else m

def entGet (geo : Geometry) (m : Memory) (n : Nat) : Nat :=
  leNat (slice (m.block (geo.fatStart + 4 * n / geo.blockSize)) (4 * n % geo.blockSize) 4) % 2 ^ 28

def countFree (geo : Geometry) (m : Memory) : Nat :=
  ((List.range geo.maxCluster).drop startEnt).countP (fun n => entGet geo m n == 0)

def Memory.countKnown (m : Memory) : Bool := m.freeClusters != unknown && m.freeClusValid

/-- fat_count_free_clusters, when every block of the FAT can be read. -/
def Memory.fatCountFreeClusters (geo : Geometry) (m : Memory) : Memory :=
  { m with
    freeClusters := BitVec.ofNat 32 (countFree geo m)
    freeClusValid := true
    fsinfoDirty := m.fsinfoDirty || !m.rdonly }

def Memory.fatStatfs (geo : Geometry) (readOk : Bool) (m : Memory) : Memory :=
  if !m.countKnown && readOk then m.fatCountFreeClusters geo else m

/-- Writeback of inode number i, which touches dirty inodes only. -/
def Memory.writeInode (m : Memory) (i : Nat) : Memory :=
  match m.inodes[i]? with
  | some ino =>
      if ino.dirty then { m.fatWriteInode ino with inodes := m.inodes.set i { ino with dirty := false } } else m
  | none => m

def Memory.writeFsinfo (geo : Geometry) (m : Memory) : Memory :=
  if m.fsinfoDirty then { m.fatClustersFlush geo with fsinfoDirty := false } else m

def State.writeBuffer (s : State) (b : Nat) : State :=
  if s.mem.dirty b then
    { s with
      mem := { s.mem with dirty := Function.update s.mem.dirty b false }
      disk := Function.update s.disk b (s.mem.block b) }
  else s

def State.syncFilesystem (geo : Geometry) (s : State) : State :=
  let m := ((List.range s.mem.inodes.length).foldl Memory.writeInode s.mem).writeFsinfo geo
  { s with mem := { m with dirty := fun _ => false }, disk := m.block }

inductive Action
  | gated (m : Memory)
  | statfs (readOk : Bool)
  | writeInode (i : Nat)
  | writeFsinfo
  | writeBuffer (b : Nat)
  | remount (rdonly : Bool)
  | buildInode (ino : Inode)
  | readOnly
  | block
  | sync (ok : Bool)
  | flush (ok : Bool)
  | ret

/-- One step. A gated operation changes the memory in any way, if fat_begin_write lets it in. Bodies have ended
when the call sets write_blocked. fsync is writeback of one file; lookup brings clean inodes in. -/
def step (geo : Geometry) (s : State) : Action → Option State
  | .gated m => some (if s.phase = .writable then { s with mem := m } else s)
  | .statfs readOk => some { s with mem := s.mem.fatStatfs geo readOk }
  | .writeInode i => some { s with mem := s.mem.writeInode i }
  | .writeFsinfo => some { s with mem := s.mem.writeFsinfo geo }
  | .writeBuffer b => some (s.writeBuffer b)
  | .remount rdonly =>
      let s := s.syncFilesystem geo
      some { s with mem := { s.mem with rdonly := rdonly } }
  | .buildInode ino => some { s with mem := { s.mem with inodes := s.mem.inodes ++ [{ ino with dirty := false }] } }
  | .readOnly => some s
  | .block => if s.phase = .writable then some { s with phase := .blocked } else none
  | .sync ok =>
      if s.phase = .blocked then
        some (if ok then { s.syncFilesystem geo with phase := .synced } else { s with phase := .writable })
      else none
  | .flush ok =>
      if s.phase = .synced then some { s with phase := if ok then .flushed else .writable } else none
  | .ret => if s.phase = .flushed then some { s with phase := .returned } else none

end SuperRaid.FatWriteback
