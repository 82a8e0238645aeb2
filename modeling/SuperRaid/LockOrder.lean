import Mathlib.Data.Finset.Max
import Mathlib.Order.WithBot
import SuperRaid.LockHolding

namespace SuperRaid.Locks

open Transition

variable {ι L E R : Type} [DecidableEq ι] [DecidableEq L] [LinearOrder R]

/-- The same order, but a lock that is held for reading may be taken once more for reading. -/
def mayReenter (rank : L → R) (h : List (Mode × L)) (m : Mode) (l : L) : Prop :=
  (∀ x ∈ h, rank x.2 < rank l) ∨ m = .read ∧ (.read, l) ∈ h

instance (rank : L → R) (h : List (Mode × L)) (m : Mode) (l : L) : Decidable (mayReenter rank h m l) :=
  inferInstanceAs (Decidable ((∀ x ∈ h, rank x.2 < rank l) ∨ m = .read ∧ (.read, l) ∈ h))

variable [Fintype ι]

variable {rank : L → R} {c : Config ι L E} {held : ι → List (Mode × L)}

omit [Fintype ι] in
theorem waits_of_no_step (h : ∀ a, step c a = none) {t : ι} (ht : (c.thread t).code.finished = false) :
    ∃ m l e k, (c.thread t).code = .acquire m l e k ∧ (c.thread t).waiting = true ∧
      grantable c t m l = false := by
  have hnone := h (t, false)
  cases hcode : (c.thread t).code with
  | ret ok => simp [hcode, Code.finished] at ht
  | acquire m l e k =>
      simp only [step, hcode] at hnone
      split_ifs at hnone with hwait hg
      exact ⟨m, l, e, k, rfl, hwait, by simpa using hg⟩
  | release m l e k | test s y c n | set b e k | act e k | choose p q => simp [step, hcode] at hnone

variable {may : List (Mode × L) → Mode → L → Prop} [∀ h m l, Decidable (may h m l)]

theorem Tracks.write_blocker (hc : Tracks may c held) {t : ι} {l : L}
    (h : grantable c t .write l = false) : ∃ u m, (m, l) ∈ held u := by
  by_cases hw : c.writer l = true
  · obtain ⟨u, hu⟩ := hc.writer_holder hw
    exact ⟨u, .write, hu⟩
  · have hr : c.readers l ≠ 0 := by
      intro hr
      simp [grantable, hr, hw] at h
    rw [hc.readers l] at hr
    obtain ⟨u, hu⟩ := holder_of_sum_ne_zero hr
    exact ⟨u, .read, hu⟩

/-- Whoever waits in a stuck configuration waits, at last, for a thread that holds the same semaphore: a reader
may wait for a queued writer, but that writer waits for a holder. -/
theorem Tracks.blocker (hc : Tracks may c held) (hstuck : ∀ a, Locks.step c a = none) {t : ι} {m : Mode} {l : L}
    (h : grantable c t m l = false) : ∃ u m', (m', l) ∈ held u := by
  cases m with
  | write => exact hc.write_blocker h
  | read =>
      by_cases hw : c.writer l = true
      · obtain ⟨u, hu⟩ := hc.writer_holder hw
        exact ⟨u, .write, hu⟩
      · obtain ⟨⟨u, m'⟩, hmem, hm'⟩ : ∃ x ∈ (c.queue l).takeWhile (·.1 ≠ t), x.2 ≠ .read := by
          by_contra hall
          push Not at hall
          have hg : grantable c t .read l = true := by
            simpa only [grantable, hw, Bool.not_false, Bool.true_and, List.all_eq_true, decide_eq_true_eq] using hall
          rw [hg] at h
          exact absurd h (by decide)
        obtain rfl : m' = .write := by cases m' <;> simp_all
        obtain ⟨_, e, k, hcode⟩ := hc.queued l u .write (List.takeWhile_subset _ hmem)
        obtain ⟨m₂, l₂, e₂, k₂, hcode₂, -, hg⟩ := waits_of_no_step hstuck (t := u)
          (by simp [hcode, Code.finished])
        rw [hcode] at hcode₂
        obtain ⟨rfl, rfl, -, -⟩ := Code.acquire.inj hcode₂
        exact hc.write_blocker hg

def Code.wants (rank : L → R) : Code L E → WithBot R
  | .acquire _ l _ _ => rank l
  | _ => ⊥

/-- A thread that asks once more for a lock it reads must be let in; then no order of the requests is a deadlock. -/
theorem Tracks.not_stuck (hc : Tracks (mayReenter rank) c held)
    (hagain : ∀ t l e k, (c.thread t).code = .acquire .read l e k → (.read, l) ∈ held t →
      (c.thread t).waiting = true → grantable c t .read l = true) : ¬ Stuck c := by
  rintro ⟨⟨t₀, ht₀⟩, hstuck⟩
  -- Among the waiting threads take one whose semaphore has the highest rank: its holder waits for a higher one.
  obtain ⟨t, ht, hmax⟩ := Finset.exists_max_image
    (Finset.univ.filter (fun t => (c.thread t).code.finished = false)) (fun t => (c.thread t).code.wants rank)
    ⟨t₀, by simpa using ht₀⟩
  obtain ⟨m, l, e, k, hcode, -, hg⟩ := waits_of_no_step hstuck (t := t) (by simpa using ht)
  obtain ⟨u, m', hu⟩ := hc.blocker hstuck hg
  have hfin : (c.thread u).code.finished = false := by
    cases hret : (c.thread u).code with
    | ret ok =>
        have hnil := hc.follows u
        rw [hret] at hnil
        simp [List.isEmpty_iff.mp hnil] at hu
    | _ => rfl
  obtain ⟨m₂, l₂, e₂, k₂, hcode₂, hwait, hg₂⟩ := waits_of_no_step hstuck hfin
  rcases (heldLocks_acquire_iff.mp (hcode₂ ▸ hc.follows u)).1 with hrank | ⟨rfl, hheld⟩
  · have hlt : rank l < rank l₂ := hrank _ hu
    have hle := hmax u (by simpa using hfin)
    simp only [hcode, hcode₂, Code.wants, WithBot.coe_le_coe] at hle
    exact absurd hlt (not_lt.mpr hle)
  · rw [hagain u l₂ e₂ k₂ hcode₂ hheld hwait] at hg₂
    exact absurd hg₂ (by decide)

theorem order_not_stuck {code : ι → Code L E} (hcode : ∀ t, Follows (lockOrder E rank) [] (code t))
    {as : List (ι × Bool)} (hrun : run step (start code) as = some c) : ¬ Stuck c := by
  obtain ⟨held, hc⟩ := tracks_run hcode hrun
  have hreenter : Tracks (mayReenter rank) c held := hc.weaken fun _ _ _ => Or.inl
  apply hreenter.not_stuck
  intro t l e k hcode hheld
  have hfollows := hc.follows t
  rw [hcode, heldLocks_acquire_iff] at hfollows
  exact absurd (hfollows.1 _ hheld) (lt_irrefl _)

end SuperRaid.Locks
