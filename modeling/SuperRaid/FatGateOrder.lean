import Mathlib.Data.Prod.Lex
import SuperRaid.FatGateRules
import SuperRaid.LockOrder

namespace SuperRaid.FatGate

open Locks Transition

/-- The inode an operation locks after it has entered the gate. -/
def Op.gateFirst : Op → Option Nat
  | .fileWriteIter i | .fileFallocate i | .ioctlSetAttributes i => some i
  | _ => none

def Op.inodeFirst : Op → List Nat
  | .setattr v | .create v | .rmdir v | .unlink v | .mkdir v | .rename2 v => v.inodes
  | _ => []

def Op.ordersLocks : Op → Bool
  | .pageMkwrite | .fileSpliceWrite _ | .ioctlFitrim => false
  | _ => true

/-- Inodes in inner are locked inside the gate, all others before it. -/
noncomputable def lockRank (inner : Nat → Prop) [DecidablePred inner] : Lock → Nat ×ₗ Nat
  | .inode i => if inner i then toLex (4, i) else toLex (0, i)
  | .gate => toLex (1, 0)
  | .sUmount => toLex (2, 0)
  | .sLock => toLex (3, 0)

section Held

variable {may : List (Mode × Lock) → Mode → Lock → Prop} [∀ h m l, Decidable (may h m l)]
  {h : List (Mode × Lock)}

theorem gateRules_heldLocks (hgate : may h .read .gate) :
    GateRules (heldLocks Event may) h ((.read, .gate) :: h) where
  enter hp hq := by
    refine heldLocks_acquire_iff.mpr ⟨hgate, ⟨_, rfl, ?_⟩, _, rfl, hq⟩
    exact heldLocks_release_iff.mpr ⟨List.mem_cons_self, by simpa using hp⟩
  leave hk := heldLocks_release_iff.mpr ⟨List.mem_cons_self, by simpa using hk⟩
  mutate := rfl

theorem lockRules_heldLocks {l : Lock} (hl : may h .write l) :
    LockRules (heldLocks Event may) l h ((.write, l) :: h) where
  lock hk := heldLocks_acquire_iff.mpr ⟨hl, hk⟩
  unlock hk := heldLocks_release_iff.mpr ⟨List.mem_cons_self, by simpa using hk⟩
  mutate := rfl

end Held

section Rank

variable {inner : Nat → Prop} [DecidablePred inner] {h : List (Mode × Lock)} {k : FatCode}

def BelowGate (inner : Nat → Prop) [DecidablePred inner] (h : List (Mode × Lock)) : Prop :=
  ∀ x ∈ h, lockRank inner x.2 < lockRank inner .gate

theorem gateRules_lockOrder (hgate : BelowGate inner h) :
    GateRules (lockOrder Event (lockRank inner)) h ((.read, .gate) :: h) :=
  gateRules_heldLocks hgate

theorem lockRules_lockOrder {l : Lock} (hl : ∀ x ∈ h, lockRank inner x.2 < lockRank inner l) :
    LockRules (lockOrder Event (lockRank inner)) l h ((.write, l) :: h) :=
  lockRules_heldLocks hl

theorem gate_lt_sLock : lockRank inner .gate < lockRank inner .sLock := by
  simp [lockRank, Prod.Lex.toLex_lt_toLex]

theorem belowGate_sLock (hgate : BelowGate inner h) :
    ∀ x ∈ (Mode.read, Lock.gate) :: h, lockRank inner x.2 < lockRank inner .sLock := by
  intro x hx
  rcases List.mem_cons.mp hx with rfl | hx
  · exact gate_lt_sLock
  · exact (hgate x hx).trans gate_lt_sLock

theorem gate_lt_inner {i : Nat} (hi : inner i) :
    ∀ x ∈ [(Mode.read, Lock.gate)], lockRank inner x.2 < lockRank inner (.inode i) := by
  simp [lockRank, hi, Prod.Lex.toLex_lt_toLex]

def inodeLocks (is : List Nat) : List (Mode × Lock) := is.map (fun i => (.write, .inode i))

theorem belowGate_inodeLocks {is : List Nat} (h : ∀ i ∈ is, ¬ inner i) : BelowGate inner (inodeLocks is) := by
  intro x hx
  obtain ⟨i, hi, rfl⟩ := List.mem_map.mp hx
  simp [lockRank, h i hi, Prod.Lex.toLex_lt_toLex]

theorem ordered_unlockAll (is : List Nat) (ok : Bool) :
    Follows (lockOrder Event (lockRank inner)) (inodeLocks is) (unlockAll is (.ret ok)) := by
  induction is with
  | nil => rfl
  | cons i is ih => exact heldLocks_release_iff.mpr ⟨List.mem_cons_self, by simpa [inodeLocks, lockOrder] using ih⟩

theorem ordered_lockAll {is js : List Nat} (hsorted : (js.reverse ++ is).Pairwise (· < ·))
    (houter : ∀ i ∈ js ++ is, ¬ inner i)
    (hk : Follows (lockOrder Event (lockRank inner)) (inodeLocks (is.reverse ++ js)) k) :
    Follows (lockOrder Event (lockRank inner)) (inodeLocks js) (lockAll is k) := by
  induction is generalizing js with
  | nil => simpa [lockAll] using hk
  | cons i is ih =>
      have hrest : Follows (lockOrder Event (lockRank inner)) (inodeLocks (i :: js)) (lockAll is k) := by
        refine ih (by simpa using hsorted) ?_ (by simpa using hk)
        intro j hj
        exact houter j (by simp only [List.mem_append, List.mem_cons] at hj ⊢; tauto)
      refine heldLocks_acquire_iff.mpr ⟨?_, hrest⟩
      intro x hx
      obtain ⟨j, hj, rfl⟩ := List.mem_map.mp hx
      have hlt : j < i := (List.pairwise_append.mp hsorted).2.2 j (by simpa using hj) i List.mem_cons_self
      simp [lockRank, houter j (by simp [hj]), houter i (by simp), Prod.Lex.toLex_lt_toLex, hlt]

theorem ordered_underVfs {v : VfsLocks} {op : (Bool → FatCode) → FatCode} (houter : ∀ i ∈ v.inodes, ¬ inner i)
    (hop : ∀ {h k}, BelowGate inner h → (∀ ok, Follows (lockOrder Event (lockRank inner)) h (k ok)) →
      Follows (lockOrder Event (lockRank inner)) h (op k)) :
    Follows (lockOrder Event (lockRank inner)) [] (underVfs v op) := by
  have hbelow : BelowGate inner (inodeLocks v.inodes.reverse) := belowGate_inodeLocks (by simpa using houter)
  have hbody := hop hbelow (ordered_unlockAll v.inodes.reverse)
  change Follows _ (inodeLocks []) _
  exact ordered_lockAll (by simpa using v.sorted) (by simpa using houter) (by simpa using hbody)

theorem ordered_fatDisableWrite : Follows (lockOrder Event (lockRank inner)) [] fatDisableWrite := by
  simp [fatDisableWrite, lock, unlock, Follows, lockOrder, heldLocks, lockRank, Prod.Lex.toLex_lt_toLex]

end Rank

def withDisable {ι : Type} (ops : ι → Op) : Option ι → Call
  | none => .disableWrite
  | some t => .op (ops t)

variable {ι : Type}

/-- No inode is locked inside the gate by one operation and before it by another. -/
def SplitInodes (ops : ι → Op) : Prop :=
  ∀ t u i, (ops t).gateFirst = some i → i ∉ (ops u).inodeFirst

theorem ordered_code {inner : Nat → Prop} [DecidablePred inner] (n : Nat) {o : Op} (ho : o.ordersLocks = true)
    (hinner : ∀ i, o.gateFirst = some i → inner i) (houter : ∀ i ∈ o.inodeFirst, ¬ inner i) :
    Follows (lockOrder Event (lockRank inner)) [] (o.code n) := by
  have hgate : GateRules (lockOrder Event (lockRank inner)) [] [(.read, .gate)] :=
    gateRules_lockOrder (by simp [BelowGate])
  have hlock {i : Nat} (hi : inner i) := lockRules_lockOrder (gate_lt_inner hi)
  have hret : ∀ ok, Follows (lockOrder Event (lockRank inner)) [] (.ret ok : FatCode) := fun _ => rfl
  cases o with
  | pageMkwrite | fileSpliceWrite i | ioctlFitrim => simp [Op.ordersLocks] at ho
  | fileWriteIter i => exact follows_fatFileWriteIter n hgate (hlock (hinner i rfl)) hret
  | fileFallocate i => exact follows_fatFileFallocate n hgate (hlock (hinner i rfl)) hret
  | ioctlSetAttributes i => exact follows_fatIoctlSetAttributes n hgate (hlock (hinner i rfl)) hret
  | setattr v =>
      exact ordered_underVfs houter (fun hb => follows_fatSetattr n (gateRules_lockOrder hb))
  | create v => exact ordered_underVfs houter (fun hb =>
      follows_vfatCreate n (gateRules_lockOrder hb) (lockRules_lockOrder (belowGate_sLock hb)))
  | rmdir v => exact ordered_underVfs houter (fun hb =>
      follows_vfatRmdir n (gateRules_lockOrder hb) (lockRules_lockOrder (belowGate_sLock hb)))
  | unlink v => exact ordered_underVfs houter (fun hb =>
      follows_vfatUnlink n (gateRules_lockOrder hb) (lockRules_lockOrder (belowGate_sLock hb)))
  | mkdir v => exact ordered_underVfs houter (fun hb =>
      follows_vfatMkdir n (gateRules_lockOrder hb) (lockRules_lockOrder (belowGate_sLock hb)))
  | rename2 v => exact ordered_underVfs houter (fun hb =>
      follows_vfatRename2 n (gateRules_lockOrder hb) (lockRules_lockOrder (belowGate_sLock hb)))

open Classical in
/-- Without an inode used on both sides of the gate, no interleaving with fat_disable_write deadlocks. -/
theorem some_thread_can_step [Fintype ι] [DecidableEq ι] (n : Nat) (ops : ι → Op)
    (hops : ∀ t, (ops t).ordersLocks = true) (hsplit : SplitInodes ops) (as : List (Option ι × Bool))
    (c : Config (Option ι) Lock Event) (hrun : run step (start (threads n (withDisable ops))) as = some c)
    (hopen : ∃ t, (c.thread t).code.finished = false) : ∃ a c', step c a = some c' := by
  have hordered : ∀ t, Follows (lockOrder Event (lockRank (fun i => ∃ t, (ops t).gateFirst = some i))) []
      (threads n (withDisable ops) t) := by
    intro t
    cases t with
    | none => exact ordered_fatDisableWrite
    | some t =>
        refine ordered_code n (hops t) (fun i hi => ⟨t, hi⟩) ?_
        rintro i hi ⟨u, hu⟩
        exact hsplit u t i hu hi
  by_contra hnone
  push Not at hnone
  exact order_not_stuck hordered hrun ⟨hopen, fun a => Option.eq_none_iff_forall_ne_some.mpr (hnone a)⟩

def writeAndSetattr (i : Nat) : Bool → Op
  | false => .fileWriteIter 7
  | true => .setattr ⟨[i], by simp⟩

/-- The writer enters the gate, setattr is called with the inode locked, disable-write queues for the gate, and
then setattr queues behind it and the writer for the inode. -/
def crossedSchedule : List (Option Bool × Bool) :=
  [(some false, true), (some false, true), (some false, true), (some true, true), (some true, true),
    (none, true), (some true, true), (some false, true)]

theorem some_thread_can_step_two_inodes :
    ∃ c, run step (start (threads 0 (withDisable (writeAndSetattr 8)))) crossedSchedule = some c ∧
      ∃ a c', step c a = some c' :=
  ⟨_, rfl, some_thread_can_step 0 (writeAndSetattr 8) (by decide) (by unfold SplitInodes; decide)
    crossedSchedule _ rfl ⟨none, rfl⟩⟩

theorem shared_inode_deadlocks :
    ∃ c, run step (start (threads 0 (withDisable (writeAndSetattr 7)))) crossedSchedule = some c ∧ Stuck c := by
  refine ⟨_, rfl, ⟨none, rfl⟩, ?_⟩
  rintro ⟨_ | _ | _, pick⟩ <;> rfl

end SuperRaid.FatGate
