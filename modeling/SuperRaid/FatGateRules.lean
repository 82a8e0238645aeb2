import SuperRaid.FatGate
import SuperRaid.Typestate

namespace SuperRaid.FatGate

open Locks

variable {S : Type} {M : Automaton S Lock Event}

/-- A discipline lets a thread enter the gate from out, change things inside, and leave again. -/
structure GateRules (M : Automaton S Lock Event) (out inside : S) : Prop where
  enter : ∀ {p q}, Follows M out p → Follows M inside q → Follows M out (fatBeginWrite p q)
  leave : ∀ {k}, Follows M out k → Follows M inside (fatEndWrite k)
  mutate : M.next inside (.act .mutate) = some inside

structure LockRules (M : Automaton S Lock Event) (l : Lock) (inside locked : S) : Prop where
  lock : ∀ {k}, Follows M locked k → Follows M inside (FatGate.lock l k)
  unlock : ∀ {k}, Follows M inside k → Follows M locked (FatGate.unlock l k)
  mutate : M.next locked (.act .mutate) = some locked

variable {s out inside locked : S} {p q : FatCode} {k : Bool → FatCode} {i : Nat} (n : Nat)

theorem follows_mutates (hs : M.next s (.act .mutate) = some s) (hp : Follows M s p) : Follows M s (mutates n p) := by
  induction n with
  | zero => exact hp
  | succ n ih => exact follows_choose ⟨s, hs, ih⟩ hp

theorem follows_fallible (hs : M.next s (.act .mutate) = some s) (hp : Follows M s p) (hq : Follows M s q) :
    Follows M s (fallible n p q) :=
  follows_mutates n hs (follows_choose hp hq)

theorem follows_gated {body : (Bool → FatCode) → FatCode} (hg : GateRules M out inside)
    (hbody : ∀ {k}, (∀ ok, Follows M inside (k ok)) → Follows M inside (body k))
    (hk : ∀ ok, Follows M out (k ok)) :
    Follows M out (gated body k) :=
  hg.enter (hk false) (hbody (fun ok => hg.leave (hk ok)))

theorem follows_unlocked (hs : M.next s (.act .mutate) = some s) (hk : ∀ ok, Follows M s (k ok)) :
    Follows M s (unlocked n k) :=
  follows_fallible n hs (hk true) (hk false)

theorem follows_underInodeLock (hl : LockRules M (.inode i) inside locked) (hk : ∀ ok, Follows M inside (k ok)) :
    Follows M inside (underInodeLock n k i) :=
  hl.lock (follows_fallible n hl.mutate (hl.unlock (hk true)) (hl.unlock (hk false)))

section InodeInside

variable (hg : GateRules M out inside) (hl : LockRules M (.inode i) inside locked)
  (hk : ∀ ok, Follows M out (k ok))

include hg hl hk

theorem follows_fatFileWriteIter : Follows M out (fatFileWriteIter n k i) :=
  follows_gated hg (follows_underInodeLock n hl) hk

theorem follows_fatFileFallocate : Follows M out (fatFileFallocate n k i) :=
  follows_gated hg (fun hk => follows_choose (follows_underInodeLock n hl hk) (hk false)) hk

theorem follows_fatIoctlSetAttributes : Follows M out (fatIoctlSetAttributes n k i) := by
  have hend := hg.leave (hk false)
  have hout ok := hl.unlock (hg.leave (hk ok))
  have hsetattr := follows_fallible n hl.mutate (follows_mutates n hl.mutate (hout true)) (hout false)
  have hchecks := follows_choose (follows_choose hsetattr (hout false)) (hout false)
  exact hg.enter (hk false) (follows_choose (follows_choose (hl.lock hchecks) hend) hend)

end InodeInside

theorem follows_spliceLoop {inside₂ : S} (hg : GateRules M inside inside₂)
    (hl : LockRules M (.inode i) inside₂ locked) (hk : ∀ ok, Follows M inside (k ok)) (m : Nat) :
    Follows M inside (spliceLoop n k i m) := by
  induction m with
  | zero => exact hk true
  | succ m ih =>
      refine follows_choose (follows_fatFileWriteIter n hg hl ?_) (hk true)
      intro ok
      cases ok with
      | true => exact ih
      | false => exact hk false

theorem follows_fatFileSpliceWrite {inside₂ : S} (hg : GateRules M out inside) (hg₂ : GateRules M inside inside₂)
    (hl : LockRules M (.inode i) inside₂ locked) (hk : ∀ ok, Follows M out (k ok)) :
    Follows M out (fatFileSpliceWrite n k i) :=
  follows_gated hg (fun hk => follows_spliceLoop n hg₂ hl hk n) hk

section NoInode

variable (hg : GateRules M out inside) (hk : ∀ ok, Follows M out (k ok))

include hg hk

theorem follows_fatPageMkwrite : Follows M out (fatPageMkwrite n k) :=
  follows_gated hg (follows_unlocked n hg.mutate) hk

theorem follows_fatIoctlFitrim : Follows M out (fatIoctlFitrim n k) :=
  follows_gated hg (follows_unlocked n hg.mutate) hk

theorem follows_fatSetattr : Follows M out (fatSetattr n k) :=
  follows_gated hg (follows_unlocked n hg.mutate) hk

end NoInode

section UnderSLock

variable (hg : GateRules M out inside) (hl : LockRules M .sLock inside locked) (hk : ∀ ok, Follows M out (k ok))

include hg hl hk

theorem follows_vfatCreate : Follows M out (vfatCreate n k) := by
  have hout ok := hl.unlock (hg.leave (hk ok))
  exact hg.enter (hk false)
    (hl.lock (follows_fallible n hl.mutate (follows_choose (hout true) (hout false)) (hout false)))

theorem follows_vfatUnlink : Follows M out (vfatUnlink n k) := by
  have hout ok := hl.unlock (hg.leave (hk ok))
  have hremove := follows_fallible n hl.mutate (follows_mutates n hl.mutate (hout true)) (hout false)
  exact hg.enter (hk false) (hl.lock (follows_choose hremove (hout false)))

theorem follows_vfatRmdir : Follows M out (vfatRmdir n k) := by
  have hout ok := hl.unlock (hg.leave (hk ok))
  have hremove := follows_fallible n hl.mutate (follows_mutates n hl.mutate (hout true)) (hout false)
  exact hg.enter (hk false) (hl.lock (follows_choose (follows_choose hremove (hout false)) (hout false)))

theorem follows_vfatMkdir : Follows M out (vfatMkdir n k) := by
  have hout ok := hl.unlock (hg.leave (hk ok))
  have hbuild := follows_choose (follows_mutates n hl.mutate (hout true)) (hout false)
  have hfree := follows_mutates n hl.mutate (hout false)
  have hadd := follows_fallible n hl.mutate (follows_mutates n hl.mutate hbuild) hfree
  exact hg.enter (hk false) (hl.lock (follows_fallible n hl.mutate hadd (hout false)))

theorem follows_vfatRename2 : Follows M out (vfatRename2 n k) := by
  have hout ok := hl.unlock (hg.leave (hk ok))
  have hundo := follows_mutates n hl.mutate (hout false)
  have hchange := follows_fallible n hl.mutate (follows_fallible n hl.mutate (hout true) hundo) (hout false)
  have hrename := hl.lock (follows_choose hchange (hout false))
  exact hg.enter (hk false) (follows_choose (follows_choose hrename hrename) (hg.leave (hk false)))

end UnderSLock

end SuperRaid.FatGate
