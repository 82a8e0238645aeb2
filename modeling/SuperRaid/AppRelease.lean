import SuperRaid.AppLife

namespace SuperRaid.AppUnits

open Machine Recovery Transition

def Done (completed : Service → Bool) (index : Nat) : Prop :=
  ∀ i v, i < index → services[i]? = some v → completed v = true

def Pc.Holds (completed : Service → Bool) (app : Service → App) : Pc → Prop
  | .poll index finished => finished = true → Done completed index
  | .kill v index finished =>
      services[index]? = some v ∧ (app v).Started ∧ (finished = true → Done completed index)
  | .restore ok | .returned ok => ok = true → ∀ v, completed v = true
  | _ => True

structure Inv (s : State) : Prop where
  wf : ∀ v, (s.app v).Wf
  settled : ∀ v, s.completed v = true → (s.app v).Settled
  here : s.pc.Holds s.completed s.app

def timedOut (s : State) : Action → Bool
  | .fsctl true => s.pc = .readNow ∧ readyTimeoutUsec ≤ elapsed s.start s.now
  | _ => false

/-- A service starts that release_app_services has completed. -/
def startsLate (s : State) : Action → Bool
  | .app v .start => s.completed v
  | _ => false

def Admitted (s : State) (a : Action) : Prop := timedOut s a = false ∧ startsLate s a = false

instance (s : State) (a : Action) : Decidable (Admitted s a) :=
  inferInstanceAs (Decidable (timedOut s a = false ∧ startsLate s a = false))

theorem not_start_of_completed {s : State} {v : Service} {e : Event} (hok : Admitted s (.app v e))
    (hv : s.completed v = true) : e ≠ .start := by
  rintro rfl
  have hlate : s.completed v = false := hok.2
  rw [hv] at hlate
  cases hlate

theorem done_zero (completed : Service → Bool) : Done completed 0 := fun _ _ h => absurd h (Nat.not_lt_zero _)

theorem Done.succ {completed : Service → Bool} {index : Nat} {v : Service} (h : Done completed index)
    (hv : services[index]? = some v) (hc : completed v = true) : Done completed (index + 1) := by
  intro i w hi hw
  rcases Nat.lt_succ_iff_lt_or_eq.mp hi with hlt | rfl
  · exact h i w hlt hw
  · rw [hv] at hw
    cases hw
    exact hc

theorem Done.update {completed : Service → Bool} {index : Nat} (h : Done completed index) (v : Service) :
    Done (Function.update completed v true) index := by
  intro i w hi hw
  by_cases hwv : w = v
  · rw [hwv, Function.update_self]
  · rw [Function.update_of_ne hwv]
    exact h i w hi hw

theorem Done.all {completed : Service → Bool} {index : Nat} (h : Done completed index)
    (hend : services[index]? = none) (v : Service) : completed v = true := by
  have hindex : 2 ≤ index := by simpa [services, Nat.succ_le_iff] using hend
  cases v with
  | sensorCenter => exact h 0 .sensorCenter (by omega) rfl
  | videoFunctions => exact h 1 .videoFunctions (by omega) rfl

namespace Inv

variable {s : State}

theorem goto (hs : Inv s) {pc : Pc} (h : pc.Holds s.completed s.app) : Inv (s.goto pc) := ⟨hs.wf, hs.settled, h⟩

theorem complete (hs : Inv s) {v : Service} {pc : Pc} (hv : (s.app v).Settled)
    (h : pc.Holds (Function.update s.completed v true) s.app) : Inv ((s.complete v).goto pc) := by
  refine ⟨hs.wf, fun w hw => ?_, h⟩
  by_cases hwv : w = v
  · subst hwv
    exact hv
  · have hw : Function.update s.completed v true w = true := hw
    rw [Function.update_of_ne hwv] at hw
    exact hs.settled w hw

theorem app (hs : Inv s) {v : Service} {e : Event} {b : App} (hok : Admitted s (.app v e))
    (h : (s.app v).next e = some b) : Inv (s.setApp v b) := by
  refine ⟨?_, ?_, ?_⟩
  · exact (Function.forall_update_iff s.app (fun _ a => a.Wf)).mpr ⟨(hs.wf v).next h, fun w _ => hs.wf w⟩
  · refine (Function.forall_update_iff s.app (fun w a => s.completed w = true → a.Settled)).mpr
      ⟨fun hv => ?_, fun w _ => hs.settled w⟩
    exact (hs.settled v hv).next h (not_start_of_completed hok hv)
  · have hhere := hs.here
    show Pc.Holds s.completed (Function.update s.app v b) s.pc
    cases hpc : s.pc with
    | kill w index finished =>
        rw [hpc] at hhere
        refine ⟨hhere.1, ?_, hhere.2.2⟩
        by_cases hwv : w = v
        · subst hwv
          rw [Function.update_self]
          exact hhere.2.1.next h
        · rw [Function.update_of_ne hwv]
          exact hhere.2.1
    | _ =>
        rw [hpc] at hhere
        exact hhere

theorem poll (hs : Inv s) {index : Nat} {finished ok : Bool} (hpc : s.pc = .poll index finished) :
    Inv (pollStep s index finished ok) := by
  have hhere := hs.here
  rw [hpc] at hhere
  have hdone : finished = true → Done s.completed index := hhere
  rw [pollStep]
  split
  · rename_i hend
    apply hs.goto
    cases finished with
    | false => trivial
    | true => exact fun _ => (hdone rfl).all hend
  · rename_i v hv
    by_cases hc : s.completed v = true
    · rw [if_pos hc]
      exact hs.goto (fun hf => (hdone hf).succ hv hc)
    · rw [if_neg hc]
      split
      · rename_i houtcome
        have hdown : (s.app v).unit = .inactive ∨ (s.app v).unit = .failed := by
          cases ok <;> cases hunit : (s.app v).unit <;> simp [pollOutcome, hunit, UnitState.activeState] at houtcome ⊢
        refine hs.complete (App.settled_of_down (hs.wf v) hdown) (fun hf => ?_)
        exact ((hdone hf).update v).succ hv (Function.update_self ..)
      · rename_i houtcome
        have hactive : (s.app v).unit = .active := by
          cases ok <;> cases hunit : (s.app v).unit <;> simp [pollOutcome, hunit, UnitState.activeState] at houtcome ⊢
        exact hs.goto ⟨hv, App.started_of_active (hs.wf v) hactive, hdone⟩
      · exact hs.goto (fun hf => by cases hf)

theorem kill (hs : Inv s) {v : Service} {index : Nat} {finished : Bool} (hpc : s.pc = .kill v index finished) :
    Inv (((s.setApp v (s.app v).signal).complete v).goto (.poll (index + 1) finished)) := by
  have hhere := hs.here
  rw [hpc] at hhere
  obtain ⟨hv, hstarted, hdone⟩ := hhere
  refine ⟨?_, ?_, fun hf => ((hdone hf).update v).succ hv (Function.update_self ..)⟩
  · exact (Function.forall_update_iff s.app (fun _ a => a.Wf)).mpr ⟨(hs.wf v).signal, fun w _ => hs.wf w⟩
  · refine (Function.forall_update_iff s.app
      (fun w a => Function.update s.completed v true w = true → a.Settled)).mpr
      ⟨fun _ => hstarted.signal, fun w hwv hw => ?_⟩
    rw [Function.update_of_ne hwv] at hw
    exact hs.settled w hw

theorem fsctl (hs : Inv s) {ok : Bool} {t : State} (hok : Admitted s (.fsctl ok)) (h : fsctlStep s ok = some t) :
    Inv t := by
  have hhere := hs.here
  cases hpc : s.pc with
  | poll index finished =>
      simp only [fsctlStep, hpc] at h
      cases h
      exact hs.poll hpc
  | kill v index finished =>
      simp only [fsctlStep, hpc] at h
      cases h
      cases ok with
      | true => exact hs.kill hpc
      | false => exact hs.goto (fun hf => by cases hf)
  | readStart =>
      simp only [fsctlStep, hpc] at h
      cases h
      cases ok with
      | true => exact ⟨hs.wf, hs.settled, fun _ => done_zero _⟩
      | false => exact hs.goto (fun hf => by cases hf)
  | sleep =>
      simp only [fsctlStep, hpc] at h
      cases h
      exact hs.goto (fun _ => done_zero _)
  | readNow =>
      simp only [fsctlStep, hpc] at h
      cases h
      cases ok with
      | true =>
          have htime : ¬ readyTimeoutUsec ≤ elapsed s.start s.now := by
            simpa [timedOut, hpc] using hok.1
          rw [if_pos rfl, if_neg htime]
          exact hs.goto trivial
      | false => exact hs.goto (fun hf => by cases hf)
  | recovering | busOpen =>
      simp only [fsctlStep, hpc] at h
      cases h
      cases ok with
      | true => exact hs.goto trivial
      | false => exact hs.goto (fun hf => by cases hf)
  | restore result =>
      rw [hpc] at hhere
      simp only [fsctlStep, hpc] at h
      cases h
      refine hs.goto (fun hf => hhere ?_)
      exact (Bool.and_eq_true_iff.mp hf).1
  | returned result => simp [fsctlStep, hpc] at h

theorem step {a : Action} {t : State} (hs : Inv s) (hok : Admitted s a) (h : step s a = some t) : Inv t := by
  cases a with
  | app v e =>
      obtain ⟨b, hb, rfl⟩ := Option.map_eq_some_iff.mp h
      exact hs.app hok hb
  | fsctl ok => exact hs.fsctl hok h
  | wait time =>
      cases h
      exact ⟨hs.wf, hs.settled, hs.here⟩

theorem initial (queued : Service → Bool) : Inv (initial queued) where
  wf := fun _ => ⟨fun _ => rfl, fun h => (by cases h), fun h => absurd rfl h⟩
  settled := fun _ h => by cases h
  here := trivial

end Inv

theorem State.setApp_app (s : State) (v : Service) (a : App) : (s.setApp v a).app v = a := Function.update_self ..

theorem State.setApp_app_of_ne (s : State) {v w : Service} (a : App) (h : w ≠ v) : (s.setApp v a).app w = s.app w :=
  Function.update_of_ne h ..

def Over (v : Service) (s : State) : Prop := s.pc = .returned true ∧ s.completed v = true

theorem app_step {s t : State} {v w : Service} {e : Event} (h : step s (.app w e) = some t) :
    t.pc = s.pc ∧ t.completed = s.completed ∧
      (t.app v = s.app v ∨ w = v ∧ (s.app v).next e = some (t.app v)) := by
  obtain ⟨b, hb, rfl⟩ := Option.map_eq_some_iff.mp h
  refine ⟨rfl, rfl, ?_⟩
  by_cases hwv : w = v
  · subst hwv
    exact .inr ⟨rfl, by rw [hb, State.setApp_app]⟩
  · exact .inl (s.setApp_app_of_ne b (Ne.symm hwv))

theorem Over.step {s t : State} {a : Action} {v : Service} (hs : Over v s) (h : step s a = some t) : Over v t ∧
    (t.app v = s.app v ∨ ∃ e, a = .app v e ∧ (s.app v).next e = some (t.app v)) := by
  cases a with
  | app w e =>
      obtain ⟨hpc, hcompleted, hmoved⟩ := app_step (v := v) h
      refine ⟨⟨hpc.trans hs.1, hcompleted ▸ hs.2⟩, ?_⟩
      rcases hmoved with hsame | ⟨rfl, hnext⟩
      · exact .inl hsame
      · exact .inr ⟨e, rfl, hnext⟩
  | fsctl ok => simp [AppUnits.step, fsctlStep, hs.1] at h
  | wait time =>
      cases h
      exact ⟨hs, .inl rfl⟩

theorem Over.released {s t : State} {a : Action} {v : Service} (hs : Over v s ∧ (s.app v).Released)
    (hok : Admitted s a) (h : AppUnits.step s a = some t) : Over v t ∧ (t.app v).Released := by
  obtain ⟨hover, hmoved⟩ := hs.1.step h
  refine ⟨hover, ?_⟩
  rcases hmoved with hsame | ⟨e, rfl, hnext⟩
  · rw [hsame]
    exact hs.2
  · exact hs.2.next hnext (not_start_of_completed hok hs.1.2)

theorem App.released_of_deliver {a b : App} (h : a.next .deliver = some b) : b.Released := by
  simp only [next] at h
  split at h
  · cases h
  · split_ifs at h
    · cases h
      intro p hp
      cases hp
      rfl
    · cases h
      intro p hp
      cases hp

/-- A pending signal is delivered in the end, unless the process exits before. -/
def Fair (f : ℕ → State) (as : ℕ → Action) : Prop :=
  ∀ n v p, ((f n).app v).process = some p → p.pending = true →
    ∃ m, n ≤ m ∧ (as m = .app v .deliver ∨ ((f m).app v).process = none)

/-- However systemd moves the units, if no service starts after release_app_services has completed it, then every
process of an app service has its gate open from some time after the return of recover_app_param on. -/
theorem apps_released (queued : Service → Bool) (f : ℕ → State) (as : ℕ → Action) (h0 : f 0 = initial queued)
    (hf : Execution step f as) (hok : ∀ n, Admitted (f n) (as n)) (hfair : Fair f as) (n : ℕ)
    (hn : (f n).pc = .returned true) (v : Service) :
    ∃ m, n ≤ m ∧ ∀ k, m ≤ k → ∀ p, ((f k).app v).process = some p → p.forcePagecache = false := by
  have hinv : ∀ k, Inv (f k) := fun k =>
    hf.stable (fun _ _ _ => Inv.step) hok (Nat.zero_le k) (h0 ▸ Inv.initial queued)
  have hover : Over v (f n) := by
    have hhere := (hinv n).here
    rw [hn] at hhere
    exact ⟨hn, hhere rfl v⟩
  have hlater : ∀ m, n ≤ m → Over v (f m) := fun m hm =>
    hf.stable (I := Over v) (fun _ _ _ hs _ h => (hs.step h).1) hok hm hover
  obtain ⟨m, hm, hopen⟩ : ∃ m, n ≤ m ∧ ((f m).app v).Released := by
    cases hp : ((f n).app v).process with
    | none => exact ⟨n, le_rfl, fun p h => by rw [hp] at h; cases h⟩
    | some p =>
        rcases ((hinv n).settled v hover.2 p hp).2 with hpending | hforce
        · obtain ⟨m, hm, hdeliver | hexit⟩ := hfair n v p hp hpending
          · -- the handler has run in the next state
            have hstep := hf m
            rw [hdeliver] at hstep
            obtain ⟨b, hb, hnext⟩ := Option.map_eq_some_iff.mp hstep
            refine ⟨m + 1, Nat.le_succ_of_le hm, ?_⟩
            rw [← hnext, State.setApp_app]
            exact App.released_of_deliver hb
          · exact ⟨m, hm, fun q h => by rw [hexit] at h; cases h⟩
        · exact ⟨n, le_rfl, fun q h => by rw [hp] at h; cases h; exact hforce⟩
  refine ⟨m, hm, fun k hk => ?_⟩
  exact (hf.stable (I := fun s => Over v s ∧ (s.app v).Released) (fun _ _ _ => Over.released) hok hk
    ⟨hlater m hm, hopen⟩).2

def signalledSchedule : List Action :=
  [.app .sensorCenter .start, .app .sensorCenter .construct, .app .sensorCenter .activate,
    .app .videoFunctions .cancel] ++ List.replicate 8 (.fsctl true) ++ [.app .sensorCenter .deliver]

def signalledActions (n : ℕ) : Action := signalledSchedule.getD n (.wait 0)

def signalled : ℕ → State := states step (initial fun _ => true) signalledActions

theorem apps_released_signalled : (signalled 12).pc = .returned true ∧
    (∃ p, ((signalled 12).app .sensorCenter).process = some p ∧ p.forcePagecache = true) ∧
    ∃ m, 12 ≤ m ∧ ∀ k, m ≤ k → ∀ p, ((signalled k).app .sensorCenter).process = some p →
      p.forcePagecache = false := by
  have hend : ∀ n, 13 ≤ n → signalledActions n = .wait 0 := by
    intro n hn
    rw [signalledActions, List.getD_eq_getElem?_getD, List.getElem?_eq_none hn, Option.getD_none]
  have hidle : ∀ n, 13 ≤ n → step (signalled 13) (signalledActions n) = some (signalled 13) := by
    intro n hn
    rw [hend n hn]
    rfl
  have hf : Execution step signalled signalledActions := execution_states (N := 13) (by decide) hidle
  have hok : ∀ n, Admitted (signalled n) (signalledActions n) := by
    intro n
    by_cases hn : n < 13
    · revert n
      decide
    · rw [hend n (Nat.le_of_not_lt hn)]
      exact ⟨rfl, rfl⟩
  have hfair : Fair signalled signalledActions := by
    intro n v p hp hpending
    by_cases hn : n < 13
    · cases v with
      | sensorCenter => exact ⟨12, Nat.le_of_lt_succ hn, .inl rfl⟩
      | videoFunctions =>
          have hnone : ∀ n, n < 13 → ((signalled n).app .videoFunctions).process = none := by decide
          rw [hnone n hn] at hp
          cases hp
    · have hlast : signalled n = signalled 13 := states_idle hidle (Nat.le_of_not_lt hn)
      rw [hlast] at hp
      cases v <;> cases hp
      cases hpending
  exact ⟨by decide, ⟨_, rfl, rfl⟩, apps_released _ signalled signalledActions rfl hf hok hfair 12 (by decide) _⟩

def Closed (v : Service) (s : State) : Prop :=
  Over v s ∧ (s.app v).queued = false ∧
    ∀ p ∈ (s.app v).process, p.forcePagecache = true ∧ p.pending = false

theorem Closed.step {s t : State} {a : Action} {v : Service} (hs : Closed v s) (h : AppUnits.step s a = some t) :
    Closed v t := by
  obtain ⟨hover, hmoved⟩ := hs.1.step h
  refine ⟨hover, ?_⟩
  rcases hmoved with hsame | ⟨e, rfl, hnext⟩
  · rw [hsame]
    exact hs.2
  · have hstart : e ≠ .start := App.not_start hnext hs.2.1
    refine ⟨App.next_unqueued hnext hs.2.1, ?_⟩
    apply (App.next_change hnext hstart).all (fun _ hp => hp) _ hs.2.2
    intro p hp hpending
    rw [hp.2] at hpending
    cases hpending

def lateSchedule : List Action :=
  List.replicate 7 (.fsctl true) ++
    [.app .sensorCenter .start, .app .sensorCenter .construct, .app .sensorCenter .activate]

/-- The process of sensor_center has its gate closed for good, although no call has failed. -/
theorem late_start_never_released : ∃ s, run step (initial fun _ => true) lateSchedule = some s ∧
    Every step (fun s a => timedOut s a = false) (initial fun _ => true) lateSchedule ∧
    s.pc = .returned true ∧ (s.app .sensorCenter).unit = .active ∧
    (∃ p, (s.app .sensorCenter).process = some p ∧ p.forcePagecache = true) ∧
    ∀ as t, run step s as = some t →
      ∀ p, (t.app .sensorCenter).process = some p → p.forcePagecache = true := by
  refine ⟨_, rfl, by decide, rfl, rfl, ⟨_, rfl, rfl⟩, fun as t hrun p hp => ?_⟩
  exact ((run_invariant (I := Closed .sensorCenter)
    ⟨⟨rfl, rfl⟩, rfl, fun q hq => by cases hq; exact ⟨rfl, rfl⟩⟩
    (fun _ _ _ => Closed.step) hrun).2.2 p hp).1

end SuperRaid.AppUnits
