import Mathlib.Algebra.Order.BigOperators.Group.Finset
import SuperRaid.FatGateRules

namespace SuperRaid.FatGate

open Locks Transition

/-- Where a thread stands with respect to the gate. An operation is outside it or inside after d successful begins,
or in the middle of fat_begin_write; a disable-write call goes through the stages of its body. -/
inductive Grip
  | free (d : Nat)
  | window (d : Nat)
  | refusing (d : Nat)
  | idle
  | exclusive
  | blocking
  | committed
  | reopened
  | disabled
  | failed
  deriving DecidableEq

namespace Grip

def readers : Grip → Int
  | .free d => d
  | .window d | .refusing d => d + 1
  | _ => 0

def writers : Grip → Int
  | .exclusive | .blocking | .committed | .reopened => 1
  | _ => 0

def depth : Grip → Int
  | .free d | .window d | .refusing d => d
  | _ => 0

def pending : Grip → Int
  | .window _ | .refusing _ => 1
  | _ => 0

def sealing : Grip → Int
  | .blocking | .committed | .reopened => 1
  | _ => 0

def settled : Grip → Bool
  | .window _ | .refusing _ => false
  | _ => true

def disabler : Grip → Bool
  | .free _ | .window _ | .refusing _ => false
  | _ => true

end Grip

def gripNext : Grip → Head Lock Event → Option Grip
  | .free d, .acquire .read .gate .entered => some (.window d)
  | .window d, .test true .refused => some (.refusing d)
  | .window d, .test false .began => some (.free (d + 1))
  | .refusing d, .release .read .gate .left => some (.free d)
  | .free (d + 1), .release .read .gate .ended => some (.free d)
  | .free (d + 1), .act .mutate => some (.free (d + 1))
  | .idle, .acquire .write .gate .quiet => some .exclusive
  | .exclusive, .set true .blocked => some .blocking
  | .blocking, .act .sync => some .blocking
  | .blocking, .act .flush => some .blocking
  | .blocking, .release .write .sUmount .committed => some .committed
  | .committed, .release .write .gate .upWrite => some .disabled
  | .blocking, .set false .unblocked => some .reopened
  | .reopened, .release .write .gate .upWrite => some .failed
  | g, .acquire .write l .quiet => if l ≠ .gate ∧ g.settled then some g else none
  | g, .release .write l .quiet => if l ≠ .gate ∧ g.settled then some g else none
  | _, _ => none

def gripDiscipline : Automaton Grip Lock Event where
  next := gripNext
  final g ok := g = .free 0 ∨ g = .disabled ∧ ok ∨ g = .failed ∧ !ok

def Call.grip : Call → Grip
  | .op _ => .free 0
  | .disableWrite => .idle

theorem gateRules_grip (d : Nat) : GateRules gripDiscipline (.free d) (.free (d + 1)) where
  enter hp hq := ⟨.window d, rfl, ⟨.refusing d, rfl, .free d, rfl, hp⟩, .free (d + 1), rfl, hq⟩
  leave hk := ⟨.free d, rfl, hk⟩
  mutate := rfl

theorem grip_lock {l : Lock} (hl : l ≠ .gate) {d : Nat} {k : FatCode} (hk : Follows gripDiscipline (.free d) k) :
    Follows gripDiscipline (.free d) (lock l k) := by
  refine ⟨.free d, ?_, hk⟩
  cases l with
  | gate => exact absurd rfl hl
  | sUmount | sLock | inode i => cases d <;> rfl

theorem grip_unlock {l : Lock} (hl : l ≠ .gate) {d : Nat} {k : FatCode} (hk : Follows gripDiscipline (.free d) k) :
    Follows gripDiscipline (.free d) (unlock l k) := by
  refine ⟨.free d, ?_, hk⟩
  cases l with
  | gate => exact absurd rfl hl
  | sUmount | sLock | inode i => cases d <;> rfl

theorem lockRules_grip {l : Lock} (hl : l ≠ .gate) (d : Nat) :
    LockRules gripDiscipline l (.free (d + 1)) (.free (d + 1)) where
  lock := grip_lock hl
  unlock := grip_unlock hl
  mutate := rfl

theorem grip_underVfs {v : VfsLocks} {op : (Bool → FatCode) → FatCode}
    (hop : ∀ {k}, (∀ ok, Follows gripDiscipline (.free 0) (k ok)) → Follows gripDiscipline (.free 0) (op k)) :
    Follows gripDiscipline (.free 0) (underVfs v op) := by
  have hunlock (is : List Nat) (ok : Bool) : Follows gripDiscipline (.free 0) (unlockAll is (.ret ok)) := by
    induction is with
    | nil => rfl
    | cons i is ih => exact grip_unlock (by simp) ih
  have hlock (is : List Nat) {k : FatCode} (hk : Follows gripDiscipline (.free 0) k) :
      Follows gripDiscipline (.free 0) (lockAll is k) := by
    induction is with
    | nil => exact hk
    | cons i is ih => exact grip_lock (by simp) ih
  exact hlock _ (hop (hunlock _))

theorem grip_fatDisableWrite : Follows gripDiscipline .idle fatDisableWrite := by
  have hfailed : Follows gripDiscipline .blocking
      (unlock .sUmount (.set false .unblocked (.release .write .gate .upWrite (.ret false)))) :=
    ⟨.blocking, rfl, .reopened, rfl, .failed, rfl, rfl⟩
  have hcommitted : Follows gripDiscipline .blocking
      (.release .write .sUmount .committed (.release .write .gate .upWrite (.ret true))) :=
    ⟨.committed, rfl, .disabled, rfl, rfl⟩
  have hdone := follows_choose hcommitted hfailed
  have hflush : Follows gripDiscipline .blocking (.choose (.act .flush (.choose _ _)) _) :=
    follows_choose ⟨.blocking, rfl, hdone⟩ hfailed
  -- the sync may take s_lock on its way
  exact ⟨.exclusive, rfl, .blocking, rfl, .blocking, rfl, .blocking, rfl,
    follows_choose ⟨.blocking, rfl, .blocking, rfl, hflush⟩ hflush⟩

theorem grip_code (n : Nat) (call : Call) : Follows gripDiscipline call.grip (call.code n) := by
  have hgate := gateRules_grip 0
  have hinode (i : Nat) := lockRules_grip (l := .inode i) (by simp) 0
  have hsLock := lockRules_grip (l := .sLock) (by simp) 0
  have hret : ∀ ok, Follows gripDiscipline (.free 0) (.ret ok : FatCode) := fun _ => rfl
  cases call with
  | disableWrite => exact grip_fatDisableWrite
  | op o =>
      cases o with
      | fileWriteIter i => exact follows_fatFileWriteIter n hgate (hinode i) hret
      | pageMkwrite => exact follows_fatPageMkwrite n hgate hret
      | fileSpliceWrite i =>
          exact follows_fatFileSpliceWrite n hgate (gateRules_grip 1) (lockRules_grip (by simp) 1) hret
      | fileFallocate i => exact follows_fatFileFallocate n hgate (hinode i) hret
      | ioctlSetAttributes i => exact follows_fatIoctlSetAttributes n hgate (hinode i) hret
      | ioctlFitrim => exact follows_fatIoctlFitrim n hgate hret
      | setattr v => exact grip_underVfs (follows_fatSetattr n hgate)
      | create v => exact grip_underVfs (follows_vfatCreate n hgate hsLock)
      | rmdir v => exact grip_underVfs (follows_vfatRmdir n hgate hsLock)
      | unlink v => exact grip_underVfs (follows_vfatUnlink n hgate hsLock)
      | mkdir v => exact grip_underVfs (follows_vfatMkdir n hgate hsLock)
      | rename2 v => exact grip_underVfs (follows_vfatRename2 n hgate hsLock)

/-- The event an instruction leaves, and what it adds to the gate's reader and writer counts. -/
def event : Head Lock Event → Event
  | .acquire _ _ e | .release _ _ e | .test _ e | .set _ e | .act e => e

def addsReaders : Head Lock Event → Int
  | .acquire .read .gate _ => 1
  | .release .read .gate _ => -1
  | _ => 0

def addsWriters : Head Lock Event → Int
  | .acquire .write .gate _ => 1
  | .release .write .gate _ => -1
  | _ => 0

def once (e x : Event) : Int := if e = x then 1 else 0

/-- Every instruction keeps the books: grips change exactly as the counts and the log do. -/
structure Accounts (g : Grip) (head : Head Lock Event) (g' : Grip) : Prop where
  readers : g'.readers = g.readers + addsReaders head
  writers : g'.writers = g.writers + addsWriters head
  depth : once (event head) .began = once (event head) .ended + (g'.depth - g.depth)
  pending : once (event head) .entered =
    once (event head) .began + once (event head) .left + (g'.pending - g.pending)
  sealing : once (event head) .blocked = once (event head) .upWrite + (g'.sealing - g.sealing)
  role : g'.disabler = g.disabler

theorem accounts_of_quiet {g : Grip} {head : Head Lock Event} (he : event head = .quiet)
    (hr : addsReaders head = 0) (hw : addsWriters head = 0) : Accounts g head g := by
  constructor <;> simp [he, hr, hw, once]

theorem gripNext_accounts {g g' : Grip} {head : Head Lock Event} (h : gripNext g head = some g') :
    Accounts g head g' := by
  unfold gripNext at h
  split at h
  case h_15 l _ =>
    split_ifs at h with hl
    cases h
    exact accounts_of_quiet rfl (by cases l <;> rfl) (by cases l <;> simp_all [addsWriters])
  case h_16 l =>
    split_ifs at h with hl
    cases h
    exact accounts_of_quiet rfl (by cases l <;> rfl) (by cases l <;> simp_all [addsWriters])
  case h_17 => cases h
  all_goals
    cases h
    constructor <;> simp [Grip.readers, Grip.writers, Grip.depth, Grip.pending, Grip.sealing, Grip.disabler,
      addsReaders, addsWriters, event, once]

variable {ι : Type} [DecidableEq ι]

def times (c : Config ι Lock Event) (t : ι) (e : Event) : Int := c.log.count (t, e)

theorem times_cons {c c' : Config ι Lock Event} {t : ι} {e : Event} (hlog : c'.log = (t, e) :: c.log) (u : ι)
    (x : Event) : times c' u x = times c u x + if u = t then once e x else 0 := by
  unfold times once
  rw [hlog, List.count_cons]
  by_cases hu : u = t
  · subst hu; by_cases hx : e = x <;> simp [hx]
  · have hne : ((t, e) == (u, x)) = false := by simp [Ne.symm hu]
    simp [hne, hu]

section Invariant

variable [Fintype ι]

/-- The gate's counts and the log are what the threads' grips say, and a writer excludes readers. -/
structure Grips (calls : ι → Call) (c : Config ι Lock Event) (grip : ι → Grip) : Prop where
  role : ∀ t, (grip t).disabler = true ↔ calls t = .disableWrite
  follows : ∀ t, Follows gripDiscipline (grip t) (c.thread t).code
  readers : c.readers .gate = ∑ t, (grip t).readers
  writers : (c.writer .gate).toInt = ∑ t, (grip t).writers
  excluded : c.writer .gate = true → c.readers .gate = 0
  depth : ∀ t, times c t .began = times c t .ended + (grip t).depth
  pending : ∀ t, times c t .entered = times c t .began + times c t .left + (grip t).pending
  sealing : ∀ t, times c t .blocked = times c t .upWrite + (grip t).sealing

variable {calls : ι → Call} {c c' : Config ι Lock Event} {grip : ι → Grip}

theorem Grip.readers_nonneg (g : Grip) : 0 ≤ g.readers := by
  cases g <;> simp [Grip.readers] <;> omega

theorem Grip.writers_nonneg (g : Grip) : 0 ≤ g.writers := by
  cases g <;> simp [Grip.writers]

theorem Grips.writer_of_grip (hc : Grips calls c grip) {t : ι} (ht : (grip t).writers = 1) :
    c.writer .gate = true := by
  by_contra hw
  have hsum : ∑ u, (grip u).writers = 0 := by rw [← hc.writers, Bool.eq_false_iff.mpr hw]; rfl
  have hle := Finset.single_le_sum (f := fun u => (grip u).writers) (fun u _ => (grip u).writers_nonneg)
    (Finset.mem_univ t)
  simp only [hsum] at hle
  omega

theorem Grips.reader_free (hc : Grips calls c grip) (hw : c.writer .gate = true) (u : ι) : (grip u).readers = 0 := by
  have hzero := hc.excluded hw
  rw [hc.readers] at hzero
  exact (Finset.sum_eq_zero_iff_of_nonneg (fun u _ => (grip u).readers_nonneg)).mp hzero u (Finset.mem_univ u)

theorem Grips.readers_zero (hc : Grips calls c grip) {t : ι} (ht : (grip t).writers = 1) (u : ι) :
    (grip u).readers = 0 :=
  hc.reader_free (hc.writer_of_grip ht) u

theorem grips_start (n : Nat) (calls : ι → Call) :
    Grips calls (start (threads n calls)) (fun t => (calls t).grip) where
  role t := by cases calls t <;> simp [Call.grip, Grip.disabler]
  follows t := grip_code n (calls t)
  readers := by
    refine (Finset.sum_eq_zero (fun t _ => ?_)).symm
    cases calls t <;> rfl
  writers := by
    refine (Finset.sum_eq_zero (fun t _ => ?_)).symm
    cases calls t <;> rfl
  excluded h := by simp [start] at h
  depth t := by cases calls t <;> simp [times, start, Grip.depth, Call.grip]
  pending t := by cases calls t <;> simp [times, start, Grip.pending, Call.grip]
  sealing t := by cases calls t <;> simp [times, start, Grip.sealing, Call.grip]

theorem Grips.silent (hc : Grips calls c grip) (hs : Silent c c')
    (hf : ∀ t, Follows gripDiscipline (grip t) (c'.thread t).code) : Grips calls c' grip where
  role := hc.role
  follows := hf
  readers := by rw [hs.readers, hc.readers]
  writers := by rw [hs.writer, hc.writers]
  excluded := by rw [hs.writer, hs.readers]; exact hc.excluded
  depth := by simpa only [times, hs.log] using hc.depth
  pending := by simpa only [times, hs.log] using hc.pending
  sealing := by simpa only [times, hs.log] using hc.sealing

theorem Grips.advance (hc : Grips calls c grip) {t : ι} {head : Head Lock Event} {g : Grip}
    (hacc : Accounts (grip t) head g) (hlog : c'.log = (t, event head) :: c.log)
    (hf : ∀ u, Follows gripDiscipline (Function.update grip t g u) (c'.thread u).code)
    (hr : c'.readers .gate = c.readers .gate + addsReaders head)
    (hw : (c'.writer .gate).toInt = (c.writer .gate).toInt + addsWriters head)
    (hx : c'.writer .gate = true → c'.readers .gate = 0) : Grips calls c' (Function.update grip t g) where
  role u := by
    by_cases hu : u = t
    · subst hu; rw [Function.update_self, hacc.role, hc.role]
    · rw [Function.update_of_ne hu, hc.role]
  follows := hf
  readers := by rw [sum_update Grip.readers, hacc.readers, hr, hc.readers]; omega
  writers := by rw [sum_update Grip.writers, hacc.writers, hw, hc.writers]; omega
  excluded := hx
  depth u := by
    have hold := hc.depth u
    have hnew := hacc.depth
    simp only [times_cons hlog]
    by_cases hu : u = t
    · subst hu; simp only [Function.update_self, if_true]; omega
    · simp only [Function.update_of_ne hu, if_neg hu]; omega
  pending u := by
    have hold := hc.pending u
    have hnew := hacc.pending
    simp only [times_cons hlog]
    by_cases hu : u = t
    · subst hu; simp only [Function.update_self, if_true]; omega
    · simp only [Function.update_of_ne hu, if_neg hu]; omega
  sealing u := by
    have hold := hc.sealing u
    have hnew := hacc.sealing
    simp only [times_cons hlog]
    by_cases hu : u = t
    · subst hu; simp only [Function.update_self, if_true]; omega
    · simp only [Function.update_of_ne hu, if_neg hu]; omega

omit [Fintype ι] in
theorem effect_log {t : ι} {head : Head Lock Event} (h : Effect c t head c') : c'.log = (t, event head) :: c.log := by
  cases h <;> assumption

omit [Fintype ι] in
theorem effect_gate {t : ι} {head : Head Lock Event} (h : Effect c t head c')
    (hin : addsWriters head = -1 → c.writer .gate = true) (hx : c.writer .gate = true → c.readers .gate = 0)
    (hpos : addsReaders head = -1 → c.writer .gate = false) :
    c'.readers .gate = c.readers .gate + addsReaders head ∧
      ((c'.writer .gate).toInt = (c.writer .gate).toInt + addsWriters head) ∧
      (c'.writer .gate = true → c'.readers .gate = 0) := by
  cases h with
  | @acquire _ m l e hg hr hw hf hlog =>
      rw [hr, hw]
      cases m <;> cases l <;>
        simp_all [Config.take, addsReaders, addsWriters, grantable, Function.update_of_ne]
  | @release _ m l e hr hw hf hlog =>
      rw [hr, hw]
      cases m <;> cases l <;>
        simp_all [Config.drop, addsReaders, addsWriters, Function.update_of_ne]
      omega
  | test hb hr hw hf hlog | set hcode hr hw hf hlog | act hr hw hf hlog =>
      rw [hr, hw]
      simpa [addsReaders, addsWriters] using hx

theorem Grip.writers_le_one (g : Grip) : g.writers ≤ 1 := by
  cases g <;> simp [Grip.writers]

/-- What a step can do: nothing to the gate, or one instruction that the thread's grip allows. -/
theorem Grips.step_cases (hc : Grips calls c grip) {a : ι × Bool} (h : Locks.step c a = some c') :
    (Silent c c' ∧ Grips calls c' grip) ∨ ∃ head g, gripNext (grip a.1) head = some g ∧ Effect c a.1 head c' ∧
      Grips calls c' (Function.update grip a.1 g) := by
  obtain ⟨hs, hf⟩ | ⟨head, g, hnext, heff, hf⟩ := follows_step hc.follows h
  · exact .inl ⟨hs, hc.silent hs hf⟩
  · have hacc := gripNext_accounts hnext
    have hin : addsWriters head = -1 → c.writer .gate = true := by
      intro hhead
      have hw := hacc.writers
      have hnonneg := g.writers_nonneg
      have hle := (grip a.1).writers_le_one
      exact hc.writer_of_grip (t := a.1) (by omega)
    have hout : addsReaders head = -1 → c.writer .gate = false := by
      intro hhead
      have hr := hacc.readers
      have hnonneg := g.readers_nonneg
      by_contra hw
      have hzero := hc.reader_free (by simpa using hw) a.1
      omega
    obtain ⟨hr, hw, hx⟩ := effect_gate heff hin hc.excluded hout
    exact .inr ⟨head, g, hnext, heff, hc.advance hacc (effect_log heff) hf hr hw hx⟩

theorem Grips.step (hc : Grips calls c grip) {a : ι × Bool} (h : Locks.step c a = some c') :
    ∃ grip', Grips calls c' grip' := by
  obtain ⟨_, hc'⟩ | ⟨_, _, _, _, hc'⟩ := hc.step_cases h
  · exact ⟨_, hc'⟩
  · exact ⟨_, hc'⟩

theorem grips_run {n : Nat} {as : List (ι × Bool)}
    (hrun : run Locks.step (start (threads n calls)) as = some c) : ∃ grip, Grips calls c grip :=
  run_invariant (I := fun c => ∃ grip, Grips calls c grip) ⟨_, grips_start n calls⟩
    (fun _ _ _ ⟨_, hu⟩ hv => hu.step hv) hrun

theorem Grips.of_event (hc : Grips calls c grip) {a : ι × Bool} {u : ι} {e : Event} (h : Locks.step c a = some c')
    (hlog : c'.log = (u, e) :: c.log) : ∃ head g, gripNext (grip u) head = some g ∧ event head = e := by
  obtain ⟨hs, -⟩ | ⟨head, g, hnext, heff, -⟩ := follows_step hc.follows h
  · have hlen := congrArg List.length (hs.log.symm.trans hlog)
    simp at hlen
  · have heq := (effect_log heff).symm.trans hlog
    simp only [List.cons.injEq, Prod.mk.injEq, and_true] at heq
    obtain ⟨rfl, he⟩ := heq
    exact ⟨head, g, hnext, he⟩

omit [DecidableEq ι] [Fintype ι] in
theorem gripNext_mutate {g g' : Grip} {head : Head Lock Event} (h : gripNext g head = some g')
    (he : event head = .mutate) : ∃ d, g = .free (d + 1) := by
  unfold gripNext at h
  split at h
  case h_6 d => exact ⟨d, rfl⟩
  all_goals simp_all [event]

omit [DecidableEq ι] [Fintype ι] in
theorem gripNext_sync {g g' : Grip} {head : Head Lock Event} (h : gripNext g head = some g')
    (he : event head = .sync) : g = .blocking := by
  unfold gripNext at h
  split at h <;> simp_all [event]

end Invariant

end SuperRaid.FatGate
