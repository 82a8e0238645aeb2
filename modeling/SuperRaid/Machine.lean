import SuperRaid.Footer
import SuperRaid.Sys
import SuperRaid.Volatile

namespace SuperRaid.Machine

open Image Footer Volatile Sys

inductive Dev
  | a | b
deriving DecidableEq

def Dev.other : Dev → Dev
  | .a => .b
  | .b => .a

@[simp] theorem Dev.other_other (d : Dev) : d.other.other = d := by cases d <;> rfl

@[simp] theorem Dev.other_ne (d : Dev) : d.other ≠ d := by cases d <;> decide

@[simp] theorem Dev.ne_other (d : Dev) : d ≠ d.other := by cases d <;> decide

theorem Dev.eq_or_other (d e : Dev) : e = d ∨ e = d.other := by cases d <;> cases e <;> decide

abbrev Path := List Char

inductive Node
  | part (d : Dev)
  | parent
deriving DecidableEq

/-- The block devices of the board: the two partitions, and the disk that holds them. -/
structure Layout where
  name : Dev → Path
  parentName : Path
  size : Dev → Nat
  logical : Dev → Nat
  startSector : Dev → Nat
  parentLogical : Nat
  /-- What the disk holds where the partitions are not. -/
  parentRest : Bytes
  name_ne : name .a ≠ name .b
  parent_ne : ∀ d, name d ≠ parentName
  name_ne_nil : ∀ d, name d ≠ []
  name_plain : ':' ∉ name .a

structure Target where
  node : Node
  size : Nat
  logicalSize : Nat

namespace Layout

variable (L : Layout)

def node (path : Path) : Option Node :=
  if path = L.name .a then some (.part .a)
  else if path = L.name .b then some (.part .b)
  else if path = L.parentName then some .parent
  else none

def target : Node → Target
  | .part d => ⟨.part d, L.size d, L.logical d⟩
  | .parent => ⟨.parent, L.parentRest.length, L.parentLogical⟩

def devices : Path := L.name .a ++ ':' :: L.name .b

theorem node_name (d : Dev) : L.node (L.name d) = some (.part d) := by
  cases d with
  | a => simp [node]
  | b => simp [node, L.name_ne.symm]

theorem node_parentName : L.node L.parentName = some .parent := by
  simp [node, (L.parent_ne .a).symm, (L.parent_ne .b).symm]

end Layout

inductive Failure
  | hashMismatch | metadataInvalid | ioError | nomem | unsupportedLayout
deriving DecidableEq

inductive ExitCode
  | ok
  | failed (f : Failure)
deriving DecidableEq

inductive Knob
  | writebackCentisecs | backgroundRatio | dirtyRatio
deriving DecidableEq

abbrev DirtySettings := Knob → Nat

inductive Service
  | sensorCenter | videoFunctions
deriving DecidableEq

inductive ActiveState
  | active | inactive | failed | other
deriving DecidableEq

inductive SubState
  | exited | startPre | start | startPost | running | other
deriving DecidableEq

/-- Everything but the devices: the mount point and its write gate, the kernel settings and the copy fsctl keeps of
them, the mount service, and the clock in nanoseconds. -/
structure Ctl where
  mounted : Option Dev
  blocked : Bool
  dirty : DirtySettings
  original : DirtySettings
  service : SubState
  now : Nat
  /-- Recovery has found the peer equal to the mounted device. -/
  recovered : Bool
  /-- Recovery has begun to restore the settings. -/
  restored : Bool

inductive Event
  | verified (path : Path) (result : Except Failure Bytes)
  | mounted (path : Path)
  | unmounted
  | notified
  | sealed (path : Path) (digest : Bytes)
  | wrote (d : Dev)
  | wroteSysctl (k : Knob) (value : Nat)
  | killed (s : Service)
  | released
deriving DecidableEq

structure World where
  ctl : Ctl
  disk : Dev → Disk
  log : List Event

/-- What else happens: how the devices change between the calls of a program, and how many of the first bytes of a
device the digest is of when hash_sha256_fd returns 0. -/
structure Env where
  Choice : Type
  act : Ctl → Choice → (Dev → Disk) → Dev → Disk
  digested : Choice → Nat → Nat

def Env.Exact (env : Env) (c : env.Choice) : Prop := ∀ len, env.digested c len = len

/-- The outcome of one call: what happened before it, whether it succeeds, whether it was only interrupted, how many
bytes it moves, what state it reports and how long it took. -/
structure Answer (Choice : Type) where
  choice : Choice
  ok : Bool
  intr : Bool
  count : Nat
  state : ActiveState
  delay : Nat

namespace World

def note (w : World) (e : Event) : World := { w with log := e :: w.log }

def act (env : Env) (r : Answer env.Choice) (w : World) : World :=
  { w with ctl := { w.ctl with now := w.ctl.now + r.delay }, disk := env.act w.ctl r.choice w.disk }

def write (w : World) (d : Dev) (off : Nat) (bs : Bytes) : World :=
  if bs = [] then w
  else { w with disk := Function.update w.disk d ((w.disk d).write off bs), log := .wrote d :: w.log }

def sync (w : World) (d : Dev) : World := { w with disk := Function.update w.disk d (w.disk d).sync }

/-- What reads of a block device see. The partitions are ranges of the whole disk. -/
def content (L : Layout) (w : World) : Node → Bytes
  | .part d => (w.disk d).cur
  | .parent => overwrite (overwrite L.parentRest (512 * L.startSector .a) (w.disk .a).cur)
      (512 * L.startSector .b) (w.disk .b).cur

def busy (w : World) : Node → Bool
  | .part d => w.ctl.mounted = some d
  | .parent => w.ctl.mounted.isSome

variable (w : World) (d e : Dev) (off : Nat) (bs : Bytes)

@[simp] theorem note_ctl (v : Event) : (w.note v).ctl = w.ctl := rfl

@[simp] theorem note_disk (v : Event) : (w.note v).disk = w.disk := rfl

@[simp] theorem note_log (v : Event) : (w.note v).log = v :: w.log := rfl

@[simp] theorem write_ctl : (w.write d off bs).ctl = w.ctl := by
  unfold write
  split <;> rfl

theorem write_disk_self (h : bs ≠ []) : (w.write d off bs).disk d = (w.disk d).write off bs := by
  simp [write, h]

theorem write_disk_of_ne (h : e ≠ d) : (w.write d off bs).disk e = w.disk e := by
  unfold write
  split
  · rfl
  · simp [h]

@[simp] theorem sync_ctl : (w.sync d).ctl = w.ctl := rfl

@[simp] theorem sync_log : (w.sync d).log = w.log := rfl

@[simp] theorem sync_disk_self : (w.sync d).disk d = (w.disk d).sync := by simp [sync]

theorem sync_disk_of_ne (h : e ≠ d) : (w.sync d).disk e = w.disk e := by simp [sync, h]

end World

section Calls

variable (env : Env)

abbrev Run := Prog World (Answer env.Choice)

variable {env} {α : Type}

def sys (f : Answer env.Choice → World → α × World) : Run env α :=
  Prog.call (fun r w => f r (w.act env r))

def ask (f : Answer env.Choice → α) : Run env α := sys (fun r w => (f r, w))

def succeeds : Run env Bool := ask (·.ok)

def note (v : Event) : Run env Unit := Prog.modify (·.note v)

end Calls

end SuperRaid.Machine
