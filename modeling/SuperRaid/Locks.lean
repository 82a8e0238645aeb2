import Mathlib.Algebra.BigOperators.Group.Finset.Basic
import Mathlib.Data.Fintype.BigOperators
import Mathlib.Logic.Function.Basic
import SuperRaid.Transition

namespace SuperRaid.Locks

open Transition

inductive Mode
  | read
  | write
  deriving DecidableEq, Repr

/-- What a thread still has to do. Every instruction that has an effect carries the event it leaves in the log;
choose stands for the outcome of a call the thread does not control. -/
inductive Code (L E : Type)
  | ret (ok : Bool)
  | acquire (m : Mode) (l : L) (e : E) (k : Code L E)
  | release (m : Mode) (l : L) (e : E) (k : Code L E)
  | test (set : E) (yes : Code L E) (clear : E) (no : Code L E)
  | set (b : Bool) (e : E) (k : Code L E)
  | act (e : E) (k : Code L E)
  | choose (p q : Code L E)
  deriving DecidableEq

structure Thread (L E : Type) where
  code : Code L E
  waiting : Bool

/-- Threads over reader-writer semaphores and one shared flag. Requests queue in the order they arrive. -/
structure Config (ι L E : Type) where
  thread : ι → Thread L E
  readers : L → Int
  writer : L → Bool
  queue : L → List (ι × Mode)
  flag : Bool
  log : List (ι × E)

variable {ι L E : Type} [DecidableEq ι] [DecidableEq L]

def start (code : ι → Code L E) : Config ι L E where
  thread t := ⟨code t, false⟩
  readers _ := 0
  writer _ := false
  queue _ := []
  flag := false
  log := []

def Code.finished : Code L E → Bool
  | .ret _ => true
  | _ => false

/-- A writer needs the semaphore free. A reader needs no writer inside and none queued ahead of it. -/
def grantable (c : Config ι L E) (t : ι) : Mode → L → Bool
  | .write, l => c.readers l == 0 && !c.writer l
  | .read, l => !c.writer l && ((c.queue l).takeWhile (·.1 ≠ t)).all (·.2 = .read)

def Config.goto (c : Config ι L E) (t : ι) (k : Code L E) : Config ι L E :=
  { c with thread := Function.update c.thread t ⟨k, false⟩ }

def Config.emit (c : Config ι L E) (t : ι) (e : E) (k : Code L E) : Config ι L E :=
  { c.goto t k with log := (t, e) :: c.log }

def Config.enqueue (c : Config ι L E) (t : ι) (m : Mode) (l : L) : Config ι L E :=
  { c with
    thread := Function.update c.thread t ⟨(c.thread t).code, true⟩
    queue := Function.update c.queue l (c.queue l ++ [(t, m)]) }

def Config.take (c : Config ι L E) : Mode → L → Config ι L E
  | .read, l => { c with readers := Function.update c.readers l (c.readers l + 1) }
  | .write, l => { c with writer := Function.update c.writer l true }

def Config.drop (c : Config ι L E) : Mode → L → Config ι L E
  | .read, l => { c with readers := Function.update c.readers l (c.readers l - 1) }
  | .write, l => { c with writer := Function.update c.writer l false }

def Config.dequeue (c : Config ι L E) (t : ι) (l : L) : Config ι L E :=
  { c with queue := Function.update c.queue l ((c.queue l).filter (·.1 ≠ t)) }

def step (c : Config ι L E) (a : ι × Bool) : Option (Config ι L E) :=
  let t := a.1
  match (c.thread t).code with
  | .ret _ => none
  | .acquire m l e k =>
      if (c.thread t).waiting then
        if grantable c t m l then some (((c.dequeue t l).take m l).emit t e k) else none
      else some (c.enqueue t m l)
  | .release m l e k => some ((c.drop m l).emit t e k)
  | .test set yes clear no => some (if c.flag then c.emit t set yes else c.emit t clear no)
  | .set b e k => some ({ c with flag := b }.emit t e k)
  | .act e k => some (c.emit t e k)
  | .choose p q => some (c.goto t (if a.2 then p else q))

theorem sum_update {β : Type} [Fintype ι] (f : β → Int) (g : ι → β) (t : ι) (b : β) :
    ∑ u, f (Function.update g t b u) = ∑ u, f (g u) + (f b - f (g t)) := by
  have hcomp : (fun u => f (Function.update g t b u)) = Function.update (fun u => f (g u)) t (f b) := by
    funext u
    by_cases hu : u = t
    · subst hu; simp
    · simp [hu]
  rw [hcomp, Finset.sum_update_of_mem (Finset.mem_univ t),
    ← Finset.add_sum_erase Finset.univ (fun u => f (g u)) (Finset.mem_univ t),
    Finset.sdiff_singleton_eq_erase]
  omega

def Stuck (c : Config ι L E) : Prop :=
  (∃ t, (c.thread t).code.finished = false) ∧ ∀ a, step c a = none

end SuperRaid.Locks
