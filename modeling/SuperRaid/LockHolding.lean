import Mathlib.Algebra.Order.BigOperators.Group.Finset
import SuperRaid.Typestate

namespace SuperRaid.Locks

open Transition

variable {ι L E : Type} [DecidableEq ι] [DecidableEq L]

/-- A discipline by what a thread holds: it takes only the locks it may take then, gives back only what it holds, and
returns holding nothing. -/
def heldLocks (E : Type) (may : List (Mode × L) → Mode → L → Prop) [∀ h m l, Decidable (may h m l)] :
    Automaton (List (Mode × L)) L E where
  next h
    | .acquire m l _ => if may h m l then some ((m, l) :: h) else none
    | .release m l _ => if (m, l) ∈ h then some (h.erase (m, l)) else none
    | _ => some h
  final h _ := h.isEmpty

def lockOrder {R : Type} [LinearOrder R] (E : Type) (rank : L → R) : Automaton (List (Mode × L)) L E :=
  heldLocks E fun h _ l => ∀ x ∈ h, rank x.2 < rank l

variable {may : List (Mode × L) → Mode → L → Prop} [∀ h m l, Decidable (may h m l)]

omit [DecidableEq ι] in
theorem heldLocks_acquire_iff {h : List (Mode × L)} {m : Mode} {l : L} {e : E} {k : Code L E} :
    Follows (heldLocks E may) h (.acquire m l e k) ↔ may h m l ∧ Follows (heldLocks E may) ((m, l) :: h) k := by
  simp [Follows, heldLocks]

omit [DecidableEq ι] in
theorem heldLocks_release_iff {h : List (Mode × L)} {m : Mode} {l : L} {e : E} {k : Code L E} :
    Follows (heldLocks E may) h (.release m l e k) ↔
      (m, l) ∈ h ∧ Follows (heldLocks E may) (h.erase (m, l)) k := by
  simp [Follows, heldLocks]

omit [DecidableEq ι] in
theorem Follows.weaken {may' : List (Mode × L) → Mode → L → Prop} [∀ h m l, Decidable (may' h m l)]
    (hmay : ∀ h m l, may h m l → may' h m l) {h : List (Mode × L)} {k : Code L E}
    (hk : Follows (heldLocks E may) h k) : Follows (heldLocks E may') h k := by
  induction k generalizing h with
  | ret ok => exact hk
  | acquire m l e k ih =>
      obtain ⟨hl, hk⟩ := heldLocks_acquire_iff.mp hk
      exact heldLocks_acquire_iff.mpr ⟨hmay h m l hl, ih hk⟩
  | release m l e k ih =>
      obtain ⟨hl, hk⟩ := heldLocks_release_iff.mp hk
      exact heldLocks_release_iff.mpr ⟨hl, ih hk⟩
  | test set yes clear no ihyes ihno =>
      obtain ⟨⟨_, h₁, hyes⟩, _, h₂, hno⟩ := hk
      cases Option.some.inj h₁
      cases Option.some.inj h₂
      exact ⟨⟨h, rfl, ihyes hyes⟩, h, rfl, ihno hno⟩
  | set b e k ih | act e k ih =>
      obtain ⟨_, hs, hk⟩ := hk
      cases Option.some.inj hs
      exact ⟨h, rfl, ih hk⟩
  | choose p q ihp ihq => exact ⟨ihp hk.1, ihq hk.2⟩

variable [Fintype ι]

/-- The semaphores count what the threads hold, and the queues list the threads that wait. -/
structure Tracks (may : List (Mode × L) → Mode → L → Prop) [∀ h m l, Decidable (may h m l)] (c : Config ι L E)
    (held : ι → List (Mode × L)) : Prop where
  follows : ∀ t, Follows (heldLocks E may) (held t) (c.thread t).code
  readers : ∀ l, c.readers l = ∑ t, ((held t).count (.read, l) : Int)
  writers : ∀ l, (c.writer l).toInt = ∑ t, ((held t).count (.write, l) : Int)
  queued : ∀ l t m, (t, m) ∈ c.queue l → (c.thread t).waiting = true ∧
    ∃ e k, (c.thread t).code = .acquire m l e k

inductive Moves (c : Config ι L E) (held : ι → List (Mode × L)) (t : ι) :
    Config ι L E → (ι → List (Mode × L)) → Prop
  | enqueue {m : Mode} {l : L} {e : E} {k : Code L E} (hcode : (c.thread t).code = .acquire m l e k)
      (hidle : (c.thread t).waiting = false) : Moves c held t (c.enqueue t m l) held
  | grant {m : Mode} {l : L} {e : E} {k : Code L E} (hcode : (c.thread t).code = .acquire m l e k)
      (hg : grantable c t m l = true) :
      Moves c held t (((c.dequeue t l).take m l).emit t e k) (Function.update held t ((m, l) :: held t))
  | drop {m : Mode} {l : L} {e : E} {k : Code L E} (hcode : (c.thread t).code = .release m l e k)
      (hmem : (m, l) ∈ held t) :
      Moves c held t ((c.drop m l).emit t e k) (Function.update held t ((held t).erase (m, l)))
  | internal {c' : Config ι L E} {k : Code L E} (hcode : ∀ m l e k, (c.thread t).code ≠ .acquire m l e k)
      (hthread : c'.thread = Function.update c.thread t ⟨k, false⟩) (hr : c'.readers = c.readers)
      (hw : c'.writer = c.writer) (hq : c'.queue = c.queue) : Moves c held t c' held

variable {c c' : Config ι L E} {held held' : ι → List (Mode × L)}

theorem count_update (t : ι) (h : List (Mode × L)) (x : Mode × L) :
    ∑ u, ((Function.update held t h u).count x : Int) =
      ∑ u, ((held u).count x : Int) + ((h.count x : Int) - (held t).count x) :=
  sum_update (fun h => (h.count x : Int)) held t h

omit [DecidableEq ι] in
theorem holder_of_sum_ne_zero {x : Mode × L} (h : ∑ t, ((held t).count x : Int) ≠ 0) : ∃ t, x ∈ held t := by
  obtain ⟨t, _, ht⟩ := Finset.exists_ne_zero_of_sum_ne_zero h
  exact ⟨t, List.count_pos_iff.mp (by omega)⟩

omit [DecidableEq ι] in
theorem sum_pos_of_holder {x : Mode × L} {t : ι} (h : x ∈ held t) : 0 < ∑ u, ((held u).count x : Int) := by
  have hpos : 0 < (held t).count x := List.count_pos_iff.mpr h
  have hle := Finset.single_le_sum (f := fun u => ((held u).count x : Int)) (fun u _ => by omega) (Finset.mem_univ t)
  have hone : ((held t).count x : Int) ≤ ∑ u, ((held u).count x : Int) := hle
  omega

omit [DecidableEq ι] in
theorem tracks_start {code : ι → Code L E} (h : ∀ t, Follows (heldLocks E may) [] (code t)) :
    Tracks may (start code) (fun _ => []) where
  follows := h
  readers l := by simp [start]
  writers l := by simp [start]
  queued l t m hm := by simp [start] at hm

omit [Fintype ι] in
@[simp] theorem Config.queue_grant (c : Config ι L E) (t : ι) (m : Mode) (l : L) (e : E) (k : Code L E) :
    (((c.dequeue t l).take m l).emit t e k).queue = (c.dequeue t l).queue := by
  cases m <;> rfl

omit [Fintype ι] in
@[simp] theorem Config.queue_drop (c : Config ι L E) (t : ι) (m : Mode) (l : L) (e : E) (k : Code L E) :
    ((c.drop m l).emit t e k).queue = c.queue := by
  cases m <;> rfl

namespace Tracks

theorem advance (hc : Tracks may c held) {t : ι} {k : Code L E} {h : List (Mode × L)}
    (hthread : c'.thread = Function.update c.thread t ⟨k, false⟩) (hk : Follows (heldLocks E may) h k)
    (hr : ∀ l, c'.readers l = c.readers l + ((h.count (.read, l) : Int) - (held t).count (.read, l)))
    (hw : ∀ l, (c'.writer l).toInt =
      (c.writer l).toInt + ((h.count (.write, l) : Int) - (held t).count (.write, l)))
    (hq : ∀ l u m, (u, m) ∈ c'.queue l → (u, m) ∈ c.queue l ∧ u ≠ t) :
    Tracks may c' (Function.update held t h) where
  follows := follows_update hc.follows hthread hk
  readers l := by rw [count_update, hr l, hc.readers l]
  writers l := by rw [count_update, hw l, hc.writers l]
  queued l u m hm := by
    obtain ⟨hm, hu⟩ := hq l u m hm
    simpa [hthread, hu] using hc.queued l u m hm

omit [DecidableEq ι] in
theorem not_queued (hc : Tracks may c held) {t : ι}
    (hcode : ∀ m l e k, (c.thread t).code ≠ .acquire m l e k) {l : L} {u : ι} {m : Mode}
    (hm : (u, m) ∈ c.queue l) : u ≠ t := by
  rintro rfl
  obtain ⟨_, e, k, h⟩ := hc.queued l u m hm
  exact hcode m l e k h

theorem internal (hc : Tracks may c held) {t : ι} {k : Code L E}
    (hcode : ∀ m l e k, (c.thread t).code ≠ .acquire m l e k)
    (hthread : c'.thread = Function.update c.thread t ⟨k, false⟩) (hk : Follows (heldLocks E may) (held t) k)
    (hr : c'.readers = c.readers) (hw : c'.writer = c.writer) (hq : c'.queue = c.queue) :
    ∃ held', Moves c held t c' held' ∧ Tracks may c' held' := by
  refine ⟨held, .internal hcode hthread hr hw hq, ?_⟩
  rw [← Function.update_eq_self t held]
  refine hc.advance hthread hk (fun l => by simp [hr]) (fun l => by simp [hw]) ?_
  intro l u m hm
  rw [hq] at hm
  exact ⟨hm, hc.not_queued hcode hm⟩

theorem enqueue (hc : Tracks may c held) {t : ι} {m : Mode} {l : L} {e : E} {k : Code L E}
    (hcode : (c.thread t).code = .acquire m l e k) : Tracks may (c.enqueue t m l) held where
  follows u := by
    by_cases hu : u = t
    · subst hu; simpa [Config.enqueue] using hc.follows u
    · simpa [Config.enqueue, hu] using hc.follows u
  readers := hc.readers
  writers := hc.writers
  queued l' u m' hm := by
    by_cases hu : u = t
    · subst hu
      refine ⟨by simp [Config.enqueue], ?_⟩
      by_cases hl : l' = l
      · subst hl
        have hcases : (u, m') ∈ c.queue l' ∨ m' = m := by simpa [Config.enqueue] using hm
        rcases hcases with hold | rfl
        · simpa [Config.enqueue] using (hc.queued l' u m' hold).2
        · exact ⟨e, k, by simpa [Config.enqueue] using hcode⟩
      · simpa [Config.enqueue] using (hc.queued l' u m' (by simpa [Config.enqueue, hl] using hm)).2
    · have hold : (u, m') ∈ c.queue l' := by
        by_cases hl : l' = l
        · subst hl; simpa [Config.enqueue, hu] using hm
        · simpa [Config.enqueue, hl] using hm
      simpa [Config.enqueue, hu] using hc.queued l' u m' hold

theorem mem_dequeue (hc : Tracks may c held) {t : ι} {m : Mode} {l : L} {e : E} {k : Code L E}
    (hcode : (c.thread t).code = .acquire m l e k) {l' : L} {u : ι} {m' : Mode}
    (hm : (u, m') ∈ (c.dequeue t l).queue l') : (u, m') ∈ c.queue l' ∧ u ≠ t := by
  by_cases hl : l' = l
  · subst hl; simpa [Config.dequeue] using hm
  · have hold : (u, m') ∈ c.queue l' := by simpa [Config.dequeue, hl] using hm
    refine ⟨hold, ?_⟩
    rintro rfl
    obtain ⟨_, e', k', hcode'⟩ := hc.queued l' u m' hold
    rw [hcode] at hcode'
    exact hl (Code.acquire.inj hcode').2.1.symm

theorem grant (hc : Tracks may c held) {t : ι} {m : Mode} {l : L} {e : E} {k : Code L E}
    (hcode : (c.thread t).code = .acquire m l e k) (hg : grantable c t m l = true) :
    Tracks may (((c.dequeue t l).take m l).emit t e k) (Function.update held t ((m, l) :: held t)) := by
  obtain ⟨_, hk⟩ := heldLocks_acquire_iff.mp (hcode ▸ hc.follows t)
  have hqueue : ∀ l' u m', (u, m') ∈ ((((c.dequeue t l).take m l).emit t e k).queue l') →
      (u, m') ∈ c.queue l' ∧ u ≠ t := by
    intro l' u m' hm
    rw [Config.queue_grant] at hm
    exact hc.mem_dequeue hcode hm
  cases m with
  | read =>
      refine hc.advance rfl hk ?_ ?_ hqueue
      · intro l'
        by_cases hl : l' = l
        · subst hl; simp [Config.emit, Config.goto, Config.take, Config.dequeue]
        · simp [Config.emit, Config.goto, Config.take, Config.dequeue, hl, Ne.symm hl]
      · intro l'; simp [Config.emit, Config.goto, Config.take, Config.dequeue]
  | write =>
      have hfree : c.writer l = false := by simp [grantable] at hg; exact hg.2
      refine hc.advance rfl hk ?_ ?_ hqueue
      · intro l'; simp [Config.emit, Config.goto, Config.take, Config.dequeue]
      · intro l'
        by_cases hl : l' = l
        · subst hl; simp [Config.emit, Config.goto, Config.take, Config.dequeue, hfree]
        · simp [Config.emit, Config.goto, Config.take, Config.dequeue, hl, Ne.symm hl]

omit [DecidableEq ι] in
theorem writer_of_mem (hc : Tracks may c held) {t : ι} {l : L} (h : (.write, l) ∈ held t) : c.writer l = true := by
  have hpos := sum_pos_of_holder h
  rw [← hc.writers l] at hpos
  by_contra hout
  rw [Bool.eq_false_iff.mpr hout] at hpos
  exact absurd hpos (by decide)

omit [DecidableEq ι] in
theorem readers_of_mem (hc : Tracks may c held) {t : ι} {l : L} (h : (.read, l) ∈ held t) : 0 < c.readers l := by
  rw [hc.readers l]
  exact sum_pos_of_holder h

theorem drop (hc : Tracks may c held) {t : ι} {m : Mode} {l : L} {e : E} {k : Code L E}
    (hcode : (c.thread t).code = .release m l e k) :
    (m, l) ∈ held t ∧ Tracks may ((c.drop m l).emit t e k) (Function.update held t ((held t).erase (m, l))) := by
  obtain ⟨hmem, hk⟩ := heldLocks_release_iff.mp (hcode ▸ hc.follows t)
  have hpos : 0 < (held t).count (m, l) := List.count_pos_iff.mpr hmem
  have hqueue : ∀ l' u m', (u, m') ∈ ((c.drop m l).emit t e k).queue l' → (u, m') ∈ c.queue l' ∧ u ≠ t := by
    intro l' u m' hm
    rw [Config.queue_drop] at hm
    exact ⟨hm, hc.not_queued (by simp [hcode]) hm⟩
  refine ⟨hmem, ?_⟩
  cases m with
  | read =>
      refine hc.advance rfl hk ?_ ?_ hqueue
      · intro l'
        by_cases hl : l' = l
        · subst hl
          simp only [Config.emit, Config.goto, Config.drop, Function.update_self, List.count_erase_self]
          omega
        · simp [Config.emit, Config.goto, Config.drop, hl, List.count_erase_of_ne]
      · intro l'
        rw [List.count_erase_of_ne (by simp), sub_self, add_zero]
        rfl
  | write =>
      have hin : c.writer l = true := hc.writer_of_mem hmem
      refine hc.advance rfl hk ?_ ?_ hqueue
      · intro l'; simp [Config.emit, Config.goto, Config.drop, List.count_erase_of_ne]
      · intro l'
        by_cases hl : l' = l
        · subst hl
          simp only [Config.emit, Config.goto, Config.drop, Function.update_self, List.count_erase_self, hin,
            Bool.toInt_true, Bool.toInt_false]
          omega
        · simp [Config.emit, Config.goto, Config.drop, hl, List.count_erase_of_ne]

theorem step (hc : Tracks may c held) {a : ι × Bool} (h : step c a = some c') :
    ∃ held', Moves c held a.1 c' held' ∧ Tracks may c' held' := by
  obtain ⟨t, pick⟩ := a
  have hfollows := hc.follows t
  cases hcode : (c.thread t).code with
  | ret ok => simp [Locks.step, hcode] at h
  | acquire m l e k =>
      simp only [Locks.step, hcode] at h
      split_ifs at h with hwait hg
      · cases h
        exact ⟨_, .grant hcode hg, hc.grant hcode hg⟩
      · cases h
        exact ⟨held, .enqueue hcode (by simpa using hwait), hc.enqueue hcode⟩
  | release m l e k =>
      simp only [Locks.step, hcode, Option.some.injEq] at h
      subst h
      obtain ⟨hmem, hdrop⟩ := hc.drop hcode
      exact ⟨_, .drop hcode hmem, hdrop⟩
  | test set yes clear no =>
      simp only [Locks.step, hcode, Option.some.injEq] at h
      rw [hcode] at hfollows
      obtain ⟨⟨_, h₁, hyes⟩, _, h₂, hno⟩ := hfollows
      cases Option.some.inj h₁
      cases Option.some.inj h₂
      subst h
      split_ifs
      · exact hc.internal (by simp [hcode]) rfl hyes rfl rfl rfl
      · exact hc.internal (by simp [hcode]) rfl hno rfl rfl rfl
  | set b e k | act e k =>
      simp only [Locks.step, hcode, Option.some.injEq] at h
      rw [hcode] at hfollows
      obtain ⟨_, hs, hk⟩ := hfollows
      cases Option.some.inj hs
      subst h
      exact hc.internal (by simp [hcode]) rfl hk rfl rfl rfl
  | choose p q =>
      simp only [Locks.step, hcode, Option.some.injEq] at h
      rw [hcode] at hfollows
      subst h
      cases pick with
      | false => exact hc.internal (by simp [hcode]) rfl hfollows.2 rfl rfl rfl
      | true => exact hc.internal (by simp [hcode]) rfl hfollows.1 rfl rfl rfl

omit [DecidableEq ι] in
theorem weaken {may' : List (Mode × L) → Mode → L → Prop} [∀ h m l, Decidable (may' h m l)]
    (hmay : ∀ h m l, may h m l → may' h m l) (hc : Tracks may c held) : Tracks may' c held :=
  { hc with follows := fun t => Follows.weaken hmay (hc.follows t) }

omit [DecidableEq ι] in
theorem writer_holder (hc : Tracks may c held) {l : L} (h : c.writer l = true) : ∃ u, (Mode.write, l) ∈ held u := by
  apply holder_of_sum_ne_zero
  rw [← hc.writers l, h]
  decide

end Tracks

theorem tracks_run {code : ι → Code L E} (hcode : ∀ t, Follows (heldLocks E may) [] (code t))
    {as : List (ι × Bool)} (hrun : run step (start code) as = some c) : ∃ held, Tracks may c held :=
  run_invariant (I := fun c => ∃ held, Tracks may c held) ⟨_, tracks_start hcode⟩
    (fun _ _ _ hu hv => by
      obtain ⟨held, hu⟩ := hu
      exact (hu.step hv).imp fun _ => And.right) hrun

end SuperRaid.Locks
