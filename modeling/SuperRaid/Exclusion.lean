import SuperRaid.Recovery
import SuperRaid.Transition

namespace SuperRaid.Exclusion

open Machine Recovery Transition

/-- Where the mount command is. The labels are its steps, with the exit code that is already decided. -/
inductive MountPc
  | notStarted
  | splitDevices | readDirtySettings | enablePagecacheDelay | mkdir
  | verifyCandidate (index : Nat) | mountCandidate (index : Nat)
  | strdup | sdNotify | cleanupUmount (code : Failure) | cleanupRestore (code : Failure)
  | verifyOther | resolveSource | copyRange | verifyCopied | releaseAppServices | restore (code : ExitCode)
  | returned (code : ExitCode)
deriving DecidableEq

inductive PreparePc
  | notStarted
  | busOpen | readStart | getUnitSubstate | readNow | sleep
  | splitDevices | resolveActivePeer | disableWrite | sealBlockDevice | copyBlockDevice
  | returned (ok : Bool)
deriving DecidableEq

inductive Entry
  | prepareAppParam | fsctlUmount

structure State where
  mount : MountPc
  mounted : Bool
  prepare : PreparePc
  start : Nat
  now : Nat

structure Reply where
  ok : Bool
  substate : SubState

inductive Action
  | startMount
  | mount (ok : Bool) (code : Failure)
  | startPrepare (entry : Entry)
  | prepare (reply : Reply)
  | wait (time : Nat)

namespace MountPc

/-- From the first step of mount_partition to the return of recover_app_param, or of a mount_partition that failed. -/
def running : MountPc → Bool
  | .notStarted | .returned _ => false
  | _ => true

def finished : MountPc → Bool
  | .returned _ => true
  | _ => false

end MountPc

/-- The next step of the mount command, and whether the file system is mounted then. The code is that of a verify. -/
def mountStep (pc : MountPc) (mounted ok : Bool) (code : Failure) : Option (MountPc × Bool) :=
  match pc with
  | .notStarted | .returned _ => none
  | .splitDevices => some (if ok then .readDirtySettings else .returned (.failed .unsupportedLayout), mounted)
  | .readDirtySettings => some (if ok then .enablePagecacheDelay else .returned (.failed .ioError), mounted)
  | .enablePagecacheDelay => some (if ok then .mkdir else .cleanupRestore .ioError, mounted)
  | .mkdir => some (if ok then .verifyCandidate 0 else .cleanupRestore .ioError, mounted)
  | .verifyCandidate index =>
      if index < 2 then some (if ok then .mountCandidate index else .verifyCandidate (index + 1), mounted)
      else some (.cleanupRestore .metadataInvalid, mounted)
  | .mountCandidate index => if ok then some (.strdup, true) else some (.verifyCandidate (index + 1), mounted)
  | .strdup => some (if ok then .sdNotify else .cleanupUmount .nomem, mounted)
  | .sdNotify => some (if ok then .verifyOther else .cleanupUmount .ioError, mounted)
  | .cleanupUmount code => some (.cleanupRestore code, mounted && !ok)
  | .cleanupRestore code => some (.returned (.failed code), mounted)
  | .verifyOther => some (if ok then .releaseAppServices else .resolveSource, mounted)
  | .resolveSource => some (if ok then .copyRange else .restore (.failed .ioError), mounted)
  | .copyRange => some (if ok then .verifyCopied else .restore (.failed .ioError), mounted)
  | .verifyCopied => some (if ok then .releaseAppServices else .restore (.failed code), mounted)
  | .releaseAppServices => some (.restore (if ok then .ok else .failed .ioError), mounted)
  | .restore code => some (.returned (if ok then code else if code = .ok then .failed .ioError else code), mounted)

def waitOutcome (ok : Bool) (substate : SubState) : Option Bool :=
  if ok then match substate with
    | .exited => some true
    | .other => some false
    | _ => none
  else some false

/-- The next step of the power prepare. systemd reports exited only after the mount command has exited with status 0. -/
def prepareStep (s : State) (reply : Reply) : Option PreparePc :=
  match s.prepare with
  | .notStarted | .returned _ => none
  | .busOpen => some (if reply.ok then .readStart else .returned false)
  | .readStart => some (if reply.ok then .getUnitSubstate else .returned false)
  | .getUnitSubstate =>
      if reply.substate = .exited ∧ s.mount ≠ .returned .ok then none
      else match waitOutcome reply.ok reply.substate with
        | some true => some .splitDevices
        | some false => some (.returned false)
        | none => some .readNow
  | .readNow =>
      some (if reply.ok ∧ elapsed s.start s.now < readyTimeoutUsec then .sleep else .returned false)
  | .sleep => some .getUnitSubstate
  | .splitDevices => some (if reply.ok then .resolveActivePeer else .returned false)
  | .resolveActivePeer => some (if reply.ok ∧ s.mounted then .disableWrite else .returned false)
  | .disableWrite => some (if reply.ok then .sealBlockDevice else .returned false)
  | .sealBlockDevice => some (if reply.ok then .copyBlockDevice else .returned false)
  | .copyBlockDevice => some (.returned reply.ok)

def Entry.first : Entry → PreparePc
  | .prepareAppParam => .busOpen
  | .fsctlUmount => .splitDevices

def step (s : State) : Action → Option State
  | .startMount => if s.mount = .notStarted then some { s with mount := .splitDevices } else none
  | .mount ok code => (mountStep s.mount s.mounted ok code).map (fun q => { s with mount := q.1, mounted := q.2 })
  | .startPrepare entry => if s.prepare = .notStarted then some { s with prepare := entry.first } else none
  | .prepare reply => (prepareStep s reply).map (fun pc =>
      { s with prepare := pc, start := if s.prepare = .readStart then s.now else s.start })
  | .wait time => some { s with now := s.now + time }

def initial : State := ⟨.notStarted, false, .notStarted, 0, 0⟩

def PreparePc.entered : PreparePc → Bool
  | .splitDevices | .resolveActivePeer | .disableWrite | .sealBlockDevice | .copyBlockDevice => true
  | _ => false

def PreparePc.acting : PreparePc → Bool
  | .disableWrite | .sealBlockDevice | .copyBlockDevice => true
  | _ => false

def Action.startsUmount : Action → Bool
  | .startPrepare .fsctlUmount => true
  | _ => false

/-- fsctl umount is started only after the mount command has returned. -/
def UmountAfterMount (s : State) (a : Action) : Prop := a.startsUmount = true → s.mount.finished = true

instance (s : State) (a : Action) : Decidable (UmountAfterMount s a) :=
  inferInstanceAs (Decidable (a.startsUmount = true → s.mount.finished = true))

def Waited (s : State) : Prop := s.prepare.entered = true → s.mount.finished = true

theorem waitOutcome_true {ok : Bool} {substate : SubState} (h : waitOutcome ok substate = some true) :
    substate = .exited := by
  cases ok <;> cases substate <;> simp [waitOutcome] at h ⊢

theorem entered_of_prepareStep {s : State} {reply : Reply} {pc : PreparePc} (h : prepareStep s reply = some pc)
    (hpc : pc.entered = true) : s.prepare.entered = true ∨ s.mount = .returned .ok := by
  cases hat : s.prepare with
  | notStarted | returned => simp [prepareStep, hat] at h
  | splitDevices | resolveActivePeer | disableWrite | sealBlockDevice | copyBlockDevice => exact .inl rfl
  | getUnitSubstate =>
      simp only [prepareStep, hat] at h
      split_ifs at h with hearly
      split at h
      · rename_i houtcome
        refine .inr (by_contra fun hmount => hearly ⟨waitOutcome_true houtcome, hmount⟩)
      · cases h
        cases hpc
      · cases h
        cases hpc
  | busOpen | readStart | readNow | sleep =>
      simp only [prepareStep, hat, Option.some.injEq] at h
      subst h
      first
        | cases hpc
        | (split_ifs at hpc <;> cases hpc)

theorem Waited.step {s t : State} {a : Action} (hs : Waited s) (hok : UmountAfterMount s a) (h : step s a = some t) :
    Waited t := by
  cases a with
  | startMount =>
      simp only [Exclusion.step] at h
      split_ifs at h with hfresh
      cases h
      intro hentered
      exact absurd (hs hentered) (by rw [hfresh]; decide)
  | mount ok code =>
      simp only [Exclusion.step, Option.map_eq_some_iff] at h
      obtain ⟨⟨pc, mounted⟩, hstep, rfl⟩ := h
      intro hentered
      have hfinished := hs hentered
      cases hpc : s.mount with
      | returned code => simp [mountStep, hpc] at hstep
      | _ => simp [hpc, MountPc.finished] at hfinished
  | startPrepare entry =>
      simp only [Exclusion.step] at h
      split_ifs at h
      cases h
      cases entry with
      | prepareAppParam => exact fun hentered => by cases hentered
      | fsctlUmount => exact fun _ => hok rfl
  | prepare reply =>
      simp only [Exclusion.step, Option.map_eq_some_iff] at h
      obtain ⟨pc, hstep, rfl⟩ := h
      intro hentered
      rcases entered_of_prepareStep hstep hentered with hin | hdone
      · exact hs hin
      · show s.mount.finished = true
        rw [hdone]
        rfl
  | wait time =>
      cases h
      exact hs

/-- However the two processes are interleaved, while the mount command runs the power prepare is not at one of the
steps that change the devices. -/
theorem prepare_waits_for_mount (as : List Action) (s : State) (hevery : Every step UmountAfterMount initial as)
    (hrun : run step initial as = some s) : ¬ (s.mount.running = true ∧ s.prepare.acting = true) := by
  have hwaited : Waited s := run_every (I := Waited) (fun h => by cases h) (fun _ _ _ => Waited.step) hevery hrun
  rintro ⟨hrunning, hacting⟩
  have hentered : s.prepare.entered = true := by
    cases hpc : s.prepare <;> simp_all [PreparePc.acting, PreparePc.entered]
  have hfinished := hwaited hentered
  cases hpc : s.mount <;> simp_all [MountPc.running, MountPc.finished]

def mountActions (oks : List Bool) : List Action := .startMount :: oks.map (.mount · .hashMismatch)

def exitedReply : Reply := ⟨true, .exited⟩

def waitingSchedule : List Action :=
  mountActions (List.replicate 8 true) ++
    [.startPrepare .prepareAppParam, .prepare ⟨true, .start⟩, .prepare ⟨true, .start⟩,
      .prepare ⟨true, .start⟩,
      .prepare ⟨true, .start⟩, .prepare ⟨true, .start⟩] ++ List.replicate 3 (.mount true .hashMismatch) ++
    List.replicate 5 (.prepare exitedReply)

theorem prepare_waits_for_mount_recovering : ∃ s, run step initial waitingSchedule = some s ∧
    s.prepare = .copyBlockDevice ∧ ¬ (s.mount.running = true ∧ s.prepare.acting = true) := by
  obtain ⟨s, hrun, hcopy⟩ : ∃ s, run step initial waitingSchedule = some s ∧ s.prepare = .copyBlockDevice :=
    ⟨_, rfl, by decide⟩
  exact ⟨s, hrun, hcopy, prepare_waits_for_mount waitingSchedule s (by decide) hrun⟩

/-- fsctl umount, started during recovery, has disabled writes and goes on to the seal. -/
theorem umount_during_recovery : ∃ s, run step initial (mountActions (List.replicate 8 true) ++
      [.startPrepare .fsctlUmount, .prepare exitedReply, .prepare exitedReply, .prepare exitedReply]) = some s ∧
    s.mount = .verifyOther ∧ s.prepare = .sealBlockDevice :=
  ⟨_, rfl, by decide, by decide⟩

end SuperRaid.Exclusion
