import SuperRaid.FatTable
import SuperRaid.Transition

namespace SuperRaid.FatFiles

open Sys FatEntry FatTable

/-- The fields of an inode that fat_add_cluster and fat_free look at: its first cluster, its size in clusters as
i_blocks has it, whether inode_needs_sync and IS_DIRSYNC hold, and whether it is a directory. -/
structure Node where
  iStart : Nat
  clusters : Nat
  needsSync : Bool
  dirSync : Bool
  isDir : Bool

/-- Where a call of fat_add_cluster or fat_free is. Calls on one inode exclude each other. -/
inductive Pc
  | idle
  | allocating
  | starting (new : Nat)
  | finding (new fclus dclus : Nat)
  | linking (new newFclus last : Nat)
  | counting (newFclus : Nat)
  | undoing (new : Nat)
  | cutting (skip : Nat)
  | seeking (skip fclus dclus : Nat)
  | ending (skip dclus : Nat)
  | freeing (skip start : Nat)
  deriving DecidableEq

variable (vol : Volume) (opt : Options) (limit : Nat)

section Add

def allocate (n : Node) : Io (Pc × Node) := do
  match ← fatAllocClusters vol opt n.needsSync 1 with
  | some (.ok (new :: _)) => if n.iStart = 0 then pure (.starting new, n) else pure (.finding new 0 n.iStart, n)
  | _ => pure (.idle, n)

def chainStart (new : Nat) (n : Node) : Io (Pc × Node) := do
  if n.isDir ∧ n.dirSync then
    if ← syncBhs then pure (.counting 0, { n with iStart := new }) else pure (.undoing new, { n with iStart := new })
  else pure (.counting 0, { n with iStart := new })

/-- A round of fat_get_cluster, on the way to the end of the file. -/
def chainFind (new fclus dclus : Nat) (n : Node) : Io (Pc × Node) := do
  if limit < fclus then
    fatFsError opt
    pure (.undoing new, n)
  else
    let (r, _) ← fatEntRead vol opt fatentInit dclus
    match r with
    | .error _ => pure (.undoing new, n)
    | .ok next =>
        if next = entFree then
          fatFsError opt
          pure (.undoing new, n)
        else if next = entEof then pure (.linking new (fclus + 1) dclus, n)
        else pure (.finding new (fclus + 1) next, n)

def chainLink (new newFclus last : Nat) (n : Node) : Io (Pc × Node) := do
  let (r, f) ← fatEntRead vol opt fatentInit last
  match r with
  | .error _ => pure (.undoing new, n)
  | .ok _ =>
      match ← fatEntWrite vol opt f new n.needsSync with
      | some _ => pure (.undoing new, n)
      | none => pure (.counting newFclus, n)

def chainCount (newFclus : Nat) (n : Node) : Io (Pc × Node) := do
  if newFclus ≠ n.clusters then fatFsError opt
  pure (.idle, { n with clusters := n.clusters + 1 })

def chainUndo (new : Nat) (n : Node) : Io (Pc × Node) := do
  let _ ← fatFreeClusters vol opt new
  pure (.idle, n)

end Add

section Free

def freeBegin (skip : Nat) (n : Node) (synced : Bool) : Pc × Node :=
  if synced = false then (.idle, n)
  else if skip = 0 then (.freeing 0 n.iStart, { n with iStart := 0 })
  else (.seeking skip 0 n.iStart, n)

def freeStart (skip : Nat) (n : Node) : Io (Pc × Node) := do
  if n.iStart = 0 then pure (.idle, n)
  else if n.dirSync then
    let synced ← syncBhs
    pure (freeBegin skip n synced)
  else pure (freeBegin skip n true)

/-- A round of fat_get_cluster, on the way to the last cluster that is kept. -/
def freeSeek (skip fclus dclus : Nat) (n : Node) : Io (Pc × Node) := do
  if fclus < skip - 1 then
    if limit < fclus then
      fatFsError opt
      pure (.idle, n)
    else
      let (r, _) ← fatEntRead vol opt fatentInit dclus
      match r with
      | .error _ => pure (.idle, n)
      | .ok next =>
          if next = entFree then
            fatFsError opt
            pure (.idle, n)
          else if next = entEof then pure (.idle, n)
          else pure (.seeking skip (fclus + 1) next, n)
  else pure (.ending skip dclus, n)

def freeMark (skip dclus : Nat) (n : Node) : Io (Pc × Node) := do
  let (r, f) ← fatEntRead vol opt fatentInit dclus
  match r with
  | .error _ => pure (.idle, n)
  | .ok next =>
      if next = entEof then pure (.idle, n)
      else if next = entFree then
        fatFsError opt
        pure (.idle, n)
      else
        match ← fatEntWrite vol opt f entEof n.dirSync with
        | some _ => pure (.idle, n)
        | none => pure (.freeing skip next, n)

def freeRest (skip start : Nat) (n : Node) : Io (Pc × Node) := do
  let _ ← fatFreeClusters vol opt start
  pure (.idle, { n with clusters := skip })

end Free

def proceed (n : Node) : Pc → Io (Pc × Node)
  | .idle => pure (.idle, n)
  | .allocating => allocate vol opt n
  | .starting new => chainStart new n
  | .finding new fclus dclus => chainFind vol opt limit new fclus dclus n
  | .linking new newFclus last => chainLink vol opt new newFclus last n
  | .counting newFclus => chainCount opt newFclus n
  | .undoing new => chainUndo vol opt new n
  | .cutting skip => freeStart skip n
  | .seeking skip fclus dclus => freeSeek vol opt limit skip fclus dclus n
  | .ending skip dclus => freeMark vol opt skip dclus n
  | .freeing skip start => freeRest vol opt skip start n

structure World (ι : Type) where
  fat : Fat
  node : ι → Node
  pc : ι → Pc

inductive Action (ι : Type)
  | add (i : ι)
  | cut (i : ι) (skip : Nat)
  | go (i : ι) (answers : List Answer)

variable {ι : Type} [DecidableEq ι]

/-- A call is made, or goes on by a section: an operation on the FAT, which other calls do not come between. -/
def step (w : World ι) : Action ι → Option (World ι)
  | .add i => if w.pc i = .idle then some { w with pc := Function.update w.pc i .allocating } else none
  | .cut i skip => if w.pc i = .idle then some { w with pc := Function.update w.pc i (.cutting skip) } else none
  | .go i answers =>
      match proceed vol opt limit (w.node i) (w.pc i) answers w.fat with
      | .done (pc, n) _ fat => some ⟨fat, Function.update w.node i n, Function.update w.pc i pc⟩
      | .stopped _ => none

end SuperRaid.FatFiles
