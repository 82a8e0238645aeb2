import SuperRaid.Storage

namespace SuperRaid.Recovery

open Image Footer Volatile Sys Machine Storage

variable {env : Env} (L : Layout) (sha : Sha)

def saveDirty (w : World) (k : Knob) : World :=
  { w with ctl := { w.ctl with original := Function.update w.ctl.original k (w.ctl.dirty k) } }

def setDirty (w : World) (k : Knob) (value : Nat) : World :=
  { w with ctl := { w.ctl with dirty := Function.update w.ctl.dirty k value }, log := .wroteSysctl k value :: w.log }

/-- A failing close comes after the value has been stored. -/
def readSysctlU32 (k : Knob) : Run env Bool :=
  sys (fun r w => (r.ok, if r.ok || r.count != 0 then saveDirty w k else w))

/-- A failing close may come after the value has been written. -/
def writeSysctlU32 (k : Knob) (value : Nat) : Run env Bool :=
  sys (fun r w => (r.ok, if r.ok || r.count != 0 then setDirty w k value else w))

def readDirtySettings : Run env Bool := do
  if ← readSysctlU32 .writebackCentisecs then
    if ← readSysctlU32 .backgroundRatio then
      readSysctlU32 .dirtyRatio
    else pure false
  else pure false

def writeDirtySettings (settings : DirtySettings) : Run env Bool := do
  let writeback ← writeSysctlU32 .writebackCentisecs (settings .writebackCentisecs)
  let background ← writeSysctlU32 .backgroundRatio (settings .backgroundRatio)
  let ratio ← writeSysctlU32 .dirtyRatio (settings .dirtyRatio)
  pure (writeback && background && ratio)

def delayed : DirtySettings
  | .writebackCentisecs => 6000
  | .backgroundRatio => 80
  | .dirtyRatio => 90

def enablePagecacheDelay : Run env Bool := writeDirtySettings delayed

/-- write_dirty_settings(&original): the static variable is read now. -/
def restoreDirtySettings : Run env Bool := fun rs w => writeDirtySettings w.ctl.original rs w

structure AppState where
  mountedDev : Path
  otherDev : Path
  mountedDigest : Bytes

def setMounted (w : World) (d : Dev) (path : Path) : World :=
  { w with ctl := { w.ctl with mounted := some d, blocked := false }, log := .mounted path :: w.log }

def clearMounted (w : World) : World := { w with ctl := { w.ctl with mounted := none }, log := .unmounted :: w.log }

def mount (path : Path) : Run env Bool :=
  sys (fun r w => match r.ok, L.node path with
    | true, some (.part d) => (true, setMounted w d path)
    | _, _ => (false, w))

def umount2 : Run env Bool := sys (fun r w => (r.ok, if r.ok then clearMounted w else w))

def sdNotify : Run env Bool :=
  sys (fun r w => (r.ok, if r.ok then w.note .notified else w))

def failRestoreDirty (code : Failure) : Run env (Except Failure AppState) := do
  let _ ← restoreDirtySettings
  pure (.error code)

def failUnmount (code : Failure) : Run env (Except Failure AppState) := do
  let _ ← umount2
  failRestoreDirty code

def mountCandidates : List (Path × Path) → Bytes → Run env (Except Failure AppState)
  | [], _ => failRestoreDirty .metadataInvalid
  | (candidate, other) :: rest, digest => do
      match ← powerctlVerifyPathDigest L sha candidate with
      | .error _ => mountCandidates rest digest
      | .ok digest =>
          if ← mount L candidate then
            -- the two strdups
            if ← succeeds then
              if ← sdNotify then pure (.ok ⟨candidate, other, digest⟩) else failUnmount .ioError
            else failUnmount .nomem
          else mountCandidates rest digest

def mountPartition (devices : Path) : Run env (Except Failure AppState) := do
  match ← splitDevices devices with
  | none => pure (.error .unsupportedLayout)
  | some (first, second) =>
      if ← readDirtySettings then
        if ← enablePagecacheDelay then
          -- mkdir, or EEXIST
          if ← succeeds then
            mountCandidates L sha [(first, second), (second, first)] (List.replicate digestSize 0)
          else failRestoreDirty .ioError
        else failRestoreDirty .ioError
      else pure (.error .ioError)

def services : List Service := [.sensorCenter, .videoFunctions]

def getUnitActiveState : Run env (Option ActiveState) := ask (fun r => if r.ok then some r.state else none)

/-- KillUnit with SIGUSR2. The signal may be out when the reply is an error. -/
def killUnit (s : Service) : Run env Bool := sys (fun r w => (r.ok, w.note (.killed s)))

def pollService (s : Service) : Run env (Option Bool) := do
  match ← getUnitActiveState with
  | none => pure (some false)
  | some .failed => pure (some true)
  | some .inactive => pure (some true)
  | some .active => if ← killUnit s then pure (some true) else pure none
  | some .other => pure (some false)

def pollServices : List Service → (Service → Bool) → Bool → Run env (Option ((Service → Bool) × Bool))
  | [], completed, finished => pure (some (completed, finished))
  | s :: rest, completed, finished =>
      if completed s then pollServices rest completed finished
      else do
        match ← pollService s with
        | none => pure none
        | some done => pollServices rest (Function.update completed s done) (finished && done)

def clockGettime : Run env (Option Nat) := sys (fun r w => (if r.ok then some w.ctl.now else none, w))

/-- Microseconds between two readings of the clock, as the source computes them from seconds and nanoseconds. -/
def elapsed (start now : Nat) : Nat :=
  let sec := (now / 10 ^ 9 - start / 10 ^ 9) * 10 ^ 6
  if start % 10 ^ 9 ≤ now % 10 ^ 9 then sec + (now % 10 ^ 9 - start % 10 ^ 9) / 10 ^ 3
  else sec - 10 ^ 6 + (10 ^ 9 + now % 10 ^ 9 - start % 10 ^ 9) / 10 ^ 3

def readyTimeoutUsec : Nat := 60 * 10 ^ 6

/-- usleep(100000), which a signal may cut short. -/
def pause (r : Answer env.Choice) (w : World) : World :=
  let w := w.act env r
  if r.ok then { w with ctl := { w.ctl with now := w.ctl.now + 10 ^ 8 } } else w

def releaseRound (start : Nat) (completed : Service → Bool) : Run env ((Service → Bool) ⊕ Bool) := do
  match ← pollServices services completed true with
  | none => pure (.inr false)
  | some (completed, finished) =>
      if finished then pure (.inr true)
      else match ← clockGettime with
        | none => pure (.inr false)
        | some now => if readyTimeoutUsec ≤ elapsed start now then pure (.inr true) else pure (.inl completed)

def releaseLoop : Run env Bool := do
  -- sd_bus_open_system
  if ← succeeds then
    match ← clockGettime with
    | none => pure false
    | some start => Prog.loop (releaseRound start) pause (fun _ => false)
  else pure false

def releaseAppServices : Run env Bool := do
  let result ← releaseLoop
  note .released
  pure result

def recoverPeer (st : AppState) : Run env ExitCode := do
  match ← resolvePartitionSource L st.mountedDev with
  | none => pure (.failed .ioError)
  | some (parent, sourceOffset, partitionSize) =>
      if ← copyBlockRange L parent sourceOffset partitionSize st.otherDev then
        match ← powerctlVerifyPathDigest L sha st.otherDev with
        | .error code => pure (.failed code)
        | .ok digest => if st.mountedDigest = digest then pure .ok else pure (.failed .hashMismatch)
      else pure (.failed .ioError)

def markRecovered : Run env Unit := Prog.modify (fun w => { w with ctl := { w.ctl with recovered := true } })

def markRestored : Run env Unit := Prog.modify (fun w => { w with ctl := { w.ctl with restored := true } })

def releasePeer : Run env ExitCode := do
  markRecovered
  if ← releaseAppServices then pure .ok else pure (.failed .ioError)

def recoverAndRelease (st : AppState) : Run env ExitCode := do
  let other ← powerctlVerifyPathDigest L sha st.otherDev
  if other = .ok st.mountedDigest then
    releasePeer
  else
    let code ← recoverPeer L sha st
    if code = .ok then releasePeer else pure code

def recoverAppParam (st : AppState) : Run env ExitCode := do
  let code ← recoverAndRelease L sha st
  markRestored
  let restored ← restoreDirtySettings
  if restored then pure code else if code = .ok then pure (.failed .ioError) else pure code

def fsctlMount (devices : Path) : Run env ExitCode := do
  match ← mountPartition L sha devices with
  | .error code => pure (.failed code)
  | .ok st => recoverAppParam L sha st

end SuperRaid.Recovery
