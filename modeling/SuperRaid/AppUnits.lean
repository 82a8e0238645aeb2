import SuperRaid.Recovery
import SuperRaid.Transition

namespace SuperRaid.AppUnits

open Machine Recovery Transition

/-- A process of an app: whether the constructor of the interposer has run, whether SIGUSR2 is pending, and the gate. -/
structure Process where
  constructed : Bool
  pending : Bool
  forcePagecache : Bool
deriving DecidableEq

inductive UnitState
  | inactive | activating | active | deactivating | failed
deriving DecidableEq

/-- The unit of an app service, whether its start job is still queued, and its process. -/
structure App where
  unit : UnitState
  queued : Bool
  process : Option Process
deriving DecidableEq

inductive Event
  | start | construct | activate | deactivate | stop | fail | cancel | deliver
deriving DecidableEq

def loaded : Process := ⟨false, false, true⟩

/-- The job is gone once the unit has started, so that a service starts at most once. -/
def App.next (a : App) : Event → Option App
  | .start => if a.unit = .inactive ∧ a.queued = true then some ⟨.activating, false, some loaded⟩ else none
  | .construct => a.process.map (fun p => { a with process := some { p with constructed := true } })
  | .activate =>
      -- a unit is active only when the constructor has run
      if a.unit = .activating ∧ a.process.all (·.constructed) = true then some { a with unit := .active } else none
  | .deactivate => if a.unit = .active then some { a with unit := .deactivating } else none
  | .stop => if a.unit = .deactivating then some { a with unit := .inactive, process := none } else none
  | .fail =>
      -- a start job may also fail before there is a process
      if a.unit = .failed ∨ (a.unit = .inactive ∧ a.queued = false) then none else some ⟨.failed, false, none⟩
  | .cancel => some { a with queued := false }
  | .deliver =>
      match a.process with
      | none => none
      | some p =>
          if p.pending = true then
            -- disable_force_pagecache, or the default action of the signal
            if p.constructed = true then some { a with process := some ⟨true, false, false⟩ }
            else some ⟨.failed, a.queued, none⟩
          else none

def App.signal (a : App) : App := { a with process := a.process.map (fun p => { p with pending := true }) }

def UnitState.activeState : UnitState → ActiveState
  | .inactive => .inactive
  | .active => .active
  | .failed => .failed
  | .activating | .deactivating => .other

inductive Outcome
  | completed | signal | wait

def pollOutcome (ok : Bool) (state : ActiveState) : Outcome :=
  if ok then match state with
    | .failed | .inactive => .completed
    | .active => .signal
    | .other => .wait
  else .wait

section Poll

open Sys

variable {env : Env}

theorem pollService_eq (v : Service) (r : Answer env.Choice) (rs : List (Answer env.Choice)) (w : World) :
    (pollService v : Run env (Option Bool)) (r :: rs) w =
      match pollOutcome r.ok r.state with
      | .completed => .done (some true) rs (w.act env r)
      | .wait => .done (some false) rs (w.act env r)
      | .signal => (killUnit v >>= fun sent => if sent then pure (some true) else pure none :
          Run env (Option Bool)) rs (w.act env r) := by
  obtain ⟨choice, ok, intr, count, state, delay⟩ := r
  cases ok with
  | false => rfl
  | true => cases state <;> rfl

end Poll

/-- Where recover_app_param is, with all_finished in the inner loop of release_app_services. -/
inductive Pc
  | recovering | busOpen | readStart
  | poll (index : Nat) (finished : Bool) | kill (v : Service) (index : Nat) (finished : Bool)
  | readNow | sleep
  | restore (ok : Bool) | returned (ok : Bool)
deriving DecidableEq

structure State where
  pc : Pc
  completed : Service → Bool
  app : Service → App
  start : Nat
  now : Nat

inductive Action
  | app (v : Service) (e : Event)
  | fsctl (ok : Bool)
  | wait (time : Nat)

namespace State

def goto (s : State) (pc : Pc) : State := { s with pc := pc }

def complete (s : State) (v : Service) : State := { s with completed := Function.update s.completed v true }

def setApp (s : State) (v : Service) (a : App) : State := { s with app := Function.update s.app v a }

end State

def pollStep (s : State) (index : Nat) (finished ok : Bool) : State :=
  match services[index]? with
  | none => s.goto (if finished then .restore true else .readNow)
  | some v =>
      if s.completed v then s.goto (.poll (index + 1) finished)
      else match pollOutcome ok (s.app v).unit.activeState with
        | .completed => (s.complete v).goto (.poll (index + 1) finished)
        | .signal => s.goto (.kill v index finished)
        | .wait => s.goto (.poll (index + 1) false)

def fsctlStep (s : State) (ok : Bool) : Option State :=
  match s.pc with
  | .recovering => some (s.goto (if ok then .busOpen else .restore false))
  | .busOpen => some (s.goto (if ok then .readStart else .restore false))
  | .readStart => some (if ok then { s with pc := .poll 0 true, start := s.now } else s.goto (.restore false))
  | .poll index finished => some (pollStep s index finished ok)
  | .kill v index finished =>
      some (if ok then ((s.setApp v (s.app v).signal).complete v).goto (.poll (index + 1) finished)
        else s.goto (.restore false))
  | .readNow =>
      some (s.goto (if ok then if readyTimeoutUsec ≤ elapsed s.start s.now then .restore true else .sleep
        else .restore false))
  | .sleep => some (s.goto (.poll 0 true))
  | .restore result => some (s.goto (.returned (result && ok)))
  | .returned _ => none

def step (s : State) : Action → Option State
  | .app v e => ((s.app v).next e).map (s.setApp v)
  | .fsctl ok => fsctlStep s ok
  | .wait time => some { s with now := s.now + time }

def initial (queued : Service → Bool) : State :=
  ⟨.recovering, fun _ => false, fun v => ⟨.inactive, queued v, none⟩, 0, 0⟩

end SuperRaid.AppUnits
