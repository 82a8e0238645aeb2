import Mathlib.Data.List.TakeWhile
import SuperRaid.LockOrder

namespace SuperRaid.Locks

open Transition

section Queues

variable {α : Type}

theorem takeWhile_append_of_mem {p : α → Bool} {x : α} {xs : List α} (hx : x ∈ xs) (hp : p x = false)
    (ys : List α) :
    (xs ++ ys).takeWhile p = xs.takeWhile p := by
  induction xs with
  | nil => cases hx
  | cons y xs ih =>
      by_cases hy : p y = true
      · have hmem : x ∈ xs := by
          rcases List.mem_cons.mp hx with rfl | hmem
          · rw [hp] at hy
            cases hy
          · exact hmem
        simp only [List.cons_append, List.takeWhile_cons, hy, if_true, ih hmem]
      · simp only [List.cons_append, List.takeWhile_cons, hy]
        rfl

theorem takeWhile_filter_subset {p q : α → Bool} (hpq : ∀ x, q x = false → p x = true) (xs : List α) :
    (xs.filter q).takeWhile p ⊆ xs.takeWhile p := by
  induction xs with
  | nil => simp
  | cons y xs ih =>
      intro x hx
      by_cases hq : q y = true
      · rw [List.filter_cons_of_pos hq] at hx
        by_cases hp : p y = true
        · rw [List.takeWhile_cons_of_pos hp] at hx ⊢
          rcases List.mem_cons.mp hx with rfl | hmem
          · exact List.mem_cons_self
          · exact List.mem_cons_of_mem _ (ih hmem)
        · rw [List.takeWhile_cons_of_neg hp] at hx
          cases hx
      · rw [List.filter_cons_of_neg hq] at hx
        rw [List.takeWhile_cons_of_pos (hpq y (by simpa using hq))]
        exact List.mem_cons_of_mem _ (ih hx)

end Queues

variable {ι L E R : Type} [DecidableEq ι] [DecidableEq L] [LinearOrder R]

def requestsBehind (c : Config ι L E) (a : ι × Bool) : Bool :=
  match (c.thread a.1).code with
  | .acquire .read l _ _ => !(c.thread a.1).waiting && c.readers l != 0 && (c.queue l).any (·.2 = .write)
  | _ => false

/-- Waiting threads are queued, a writer is alone inside, and no writer is ahead of a thread that waits to read a
semaphore it reads already. -/
structure Orderly (c : Config ι L E) (held : ι → List (Mode × L)) : Prop where
  present : ∀ {t m l e k}, (c.thread t).code = .acquire m l e k → (c.thread t).waiting = true →
    (t, m) ∈ c.queue l
  exclusive : ∀ l, c.writer l = true → c.readers l = 0
  ahead : ∀ {t l}, (t, .read) ∈ c.queue l → (.read, l) ∈ held t →
    ∀ x ∈ (c.queue l).takeWhile (·.1 ≠ t), x.2 = .read

variable [Fintype ι] {may : List (Mode × L) → Mode → L → Prop} [∀ h m l, Decidable (may h m l)]
  {c c' : Config ι L E} {held held' : ι → List (Mode × L)}

omit [Fintype ι] [DecidableEq L] in
theorem orderly_start (code : ι → Code L E) : Orderly (start code) (fun _ => []) where
  present _ h := by cases h
  exclusive _ h := by cases h
  ahead h := by cases h

namespace Orderly

theorem enqueue (hs : Orderly c held) (hc : Tracks may c held) {t : ι} {pick : Bool} {m : Mode} {l : L} {e : E}
    {k : Code L E} (hcode : (c.thread t).code = .acquire m l e k) (hidle : (c.thread t).waiting = false)
    (hok : requestsBehind c (t, pick) = false) : Orderly (c.enqueue t m l) held where
  present {u m' l' e' k'} hu hw := by
    by_cases hut : u = t
    · subst hut
      have hcode' : (c.thread u).code = .acquire m' l' e' k' := by simpa [Config.enqueue] using hu
      rw [hcode] at hcode'
      obtain ⟨rfl, rfl, -, -⟩ := Code.acquire.inj hcode'
      simp [Config.enqueue]
    · have hold : (u, m') ∈ c.queue l' :=
        hs.present (e := e') (k := k') (by simpa [Config.enqueue, hut] using hu)
          (by simpa [Config.enqueue, hut] using hw)
      by_cases hl : l' = l
      · subst hl
        simp [Config.enqueue, hold]
      · simpa [Config.enqueue, hl] using hold
  exclusive := hs.exclusive
  ahead {u l'} hu hheld := by
    by_cases hl : l' = l
    · subst hl
      have hqueue : (c.enqueue t m l').queue l' = c.queue l' ++ [(t, m)] := by simp [Config.enqueue]
      rw [hqueue] at hu ⊢
      by_cases hut : u = t
      · subst hut
        have hout : ∀ m', (u, m') ∉ c.queue l' := fun m' hmem => by
          simpa [hidle] using (hc.queued l' u m' hmem).1
        obtain rfl : m = .read := by simpa [hout, eq_comm] using hu
        have hnone : ∀ x ∈ c.queue l', x.2 ≠ .write := by
          have hreaders : c.readers l' ≠ 0 := (hc.readers_of_mem hheld).ne'
          simpa [requestsBehind, hcode, hidle, hreaders] using hok
        intro x hx
        have hne : x.1 ≠ u := by simpa using List.mem_takeWhile_imp hx
        have hmem : x ∈ c.queue l' := by
          rcases List.mem_append.mp (List.takeWhile_subset _ hx) with hmem | hlast
          · exact hmem
          · exact absurd (congrArg Prod.fst (List.mem_singleton.mp hlast)) hne
        cases hm : x.2 with
        | read => rfl
        | write => exact absurd hm (hnone x hmem)
      · have hold : (u, .read) ∈ c.queue l' := by simpa [hut] using hu
        rw [takeWhile_append_of_mem hold (by simp)]
        exact hs.ahead hold hheld
    · have hqueue : (c.enqueue t m l).queue l' = c.queue l' := by simp [Config.enqueue, hl]
      rw [hqueue] at hu ⊢
      exact hs.ahead hu hheld

theorem grant (hs : Orderly c held) (hc : Tracks may c held) {t : ι} {m : Mode} {l : L} {e : E} {k : Code L E}
    (hcode : (c.thread t).code = .acquire m l e k) (hg : grantable c t m l = true) :
    Orderly (((c.dequeue t l).take m l).emit t e k) (Function.update held t ((m, l) :: held t)) where
  present {u m' l' e' k'} hu hw := by
    have hthread : (((c.dequeue t l).take m l).emit t e k).thread = Function.update c.thread t ⟨k, false⟩ := by
      cases m <;> rfl
    rw [hthread] at hu hw
    by_cases hut : u = t
    · subst hut
      simp at hw
    · rw [Function.update_of_ne hut] at hu hw
      rw [Config.queue_grant]
      have hold := hs.present hu hw
      by_cases hl : l' = l
      · subst hl
        simp [Config.dequeue, hold, hut]
      · simpa [Config.dequeue, hl] using hold
  exclusive l' hw := by
    cases m with
    | read =>
        have hfree : c.writer l = false := by
          simp only [grantable, Bool.and_eq_true, Bool.not_eq_true'] at hg
          exact hg.1
        by_cases hl : l' = l
        · subst hl
          have hin : c.writer l' = true := hw
          rw [hfree] at hin
          cases hin
        · simpa [Config.emit, Config.goto, Config.take, Config.dequeue, hl] using hs.exclusive l' hw
    | write =>
        have hnone : c.readers l = 0 := by simp [grantable] at hg; exact hg.1
        by_cases hl : l' = l
        · subst hl
          exact hnone
        · exact hs.exclusive l' (by simpa [Config.emit, Config.goto, Config.take, Config.dequeue, hl] using hw)
  ahead {u l'} hu hheld := by
    rw [Config.queue_grant] at hu ⊢
    obtain ⟨hold, hut⟩ := hc.mem_dequeue hcode hu
    rw [Function.update_of_ne hut] at hheld
    intro x hx
    apply hs.ahead hold hheld
    by_cases hl : l' = l
    · subst hl
      have hx : x ∈ ((c.queue l').filter (·.1 ≠ t)).takeWhile (·.1 ≠ u) := by simpa [Config.dequeue] using hx
      exact takeWhile_filter_subset (fun y hy => by simp at hy ⊢; rw [hy]; exact Ne.symm hut) _ hx
    · simpa [Config.dequeue, hl] using hx

theorem drop (hs : Orderly c held) (hc : Tracks may c held) {t : ι} {m : Mode} {l : L} {e : E} {k : Code L E}
    (hcode : (c.thread t).code = .release m l e k) (hmem : (m, l) ∈ held t) :
    Orderly ((c.drop m l).emit t e k) (Function.update held t ((held t).erase (m, l))) where
  present {u m' l' e' k'} hu hw := by
    have hthread : ((c.drop m l).emit t e k).thread = Function.update c.thread t ⟨k, false⟩ := by cases m <;> rfl
    rw [hthread] at hu hw
    rw [Config.queue_drop]
    by_cases hut : u = t
    · subst hut
      simp at hw
    · rw [Function.update_of_ne hut] at hu hw
      exact hs.present hu hw
  exclusive l' hw := by
    cases m with
    | read =>
        have hin : c.writer l' = true := hw
        by_cases hl : l' = l
        · subst hl
          have hpos := hc.readers_of_mem hmem
          rw [hs.exclusive l' hin] at hpos
          exact absurd hpos (lt_irrefl _)
        · simpa [Config.emit, Config.goto, Config.drop, hl] using hs.exclusive l' hin
    | write =>
        by_cases hl : l' = l
        · subst hl
          simp [Config.emit, Config.goto, Config.drop] at hw
        · exact hs.exclusive l' (by simpa [Config.emit, Config.goto, Config.drop, hl] using hw)
  ahead {u l'} hu hheld := by
    rw [Config.queue_drop] at hu ⊢
    have hut : u ≠ t := hc.not_queued (by simp [hcode]) hu
    rw [Function.update_of_ne hut] at hheld
    exact hs.ahead hu hheld

theorem step (hs : Orderly c held) (hc : Tracks may c held) {a : ι × Bool} (hok : requestsBehind c a = false)
    (hm : Moves c held a.1 c' held') : Orderly c' held' := by
  cases hm with
  | enqueue hcode hidle => exact hs.enqueue hc hcode hidle (show requestsBehind c (a.1, a.2) = false from hok)
  | grant hcode hg => exact hs.grant hc hcode hg
  | drop hcode hmem => exact hs.drop hc hcode hmem
  | internal hcode hthread hr hw hq =>
      refine ⟨fun {u m l e k} hu hwait => ?_, by rw [hr, hw]; exact hs.exclusive, by rw [hq]; exact hs.ahead⟩
      rw [hthread] at hu hwait
      rw [hq]
      by_cases hut : u = a.1
      · subst hut
        simp at hwait
      · rw [Function.update_of_ne hut] at hu hwait
        exact hs.present hu hwait

theorem grantable (hs : Orderly c held) (hc : Tracks may c held) {t : ι} {l : L} {e : E} {k : Code L E}
    (hcode : (c.thread t).code = .acquire .read l e k) (hheld : (.read, l) ∈ held t)
    (hwait : (c.thread t).waiting = true) : Locks.grantable c t .read l = true := by
  have hfree : c.writer l = false := by
    by_contra hin
    have hpos := hc.readers_of_mem hheld
    rw [hs.exclusive l (by simpa using hin)] at hpos
    exact lt_irrefl _ hpos
  have hahead := hs.ahead (hs.present hcode hwait) hheld
  simpa only [Locks.grantable, hfree, Bool.not_false, Bool.true_and, List.all_eq_true, decide_eq_true_eq] using hahead

end Orderly

/-- Threads that may read a semaphore again while they read it never deadlock, as long as nobody asks to read a
semaphore with readers inside and a writer queued. -/
theorem reentrant_not_stuck {rank : L → R} {code : ι → Code L E} {as : List (ι × Bool)}
    (hcode : ∀ t, Follows (heldLocks E (mayReenter rank)) [] (code t))
    (hevery : Every step (fun c a => requestsBehind c a = false) (start code) as)
    (hrun : run step (start code) as = some c) : ¬ Stuck c := by
  obtain ⟨held, hc, hs⟩ := run_every (I := fun c => ∃ held, Tracks (mayReenter rank) c held ∧ Orderly c held)
    ⟨_, tracks_start hcode, orderly_start code⟩ (fun u a v ⟨held, hu, hs⟩ hok hv => by
      obtain ⟨held', hm, hv⟩ := hu.step hv
      exact ⟨held', hv, hs.step hu hok hm⟩) hevery hrun
  exact hc.not_stuck (fun _ _ _ _ => hs.grantable hc)

end SuperRaid.Locks
