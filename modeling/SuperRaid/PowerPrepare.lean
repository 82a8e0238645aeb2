import SuperRaid.Recovery

namespace SuperRaid.PowerPrepare

open Image Footer Volatile Sys Machine Storage Recovery

variable {env : Env} (L : Layout) (sha : Sha)

def statMountpoint : Run env (Option (Option Dev)) :=
  sys (fun r w => (if r.ok then some w.ctl.mounted else none, w))

def activePeer (backing : Option Dev) (first second : Path) : Option (Path × Path) :=
  match L.node first, L.node second with
  | some m, some n =>
      if m = n then none
      else if backing.map Node.part = some m then some (first, second)
      else if backing.map Node.part = some n then some (second, first)
      else none
  | _, _ => none

def resolveActivePeer (first second : Path) : Run env (Option (Path × Path)) := do
  match ← statMountpoint with
  | none => pure none
  | some backing =>
      if ← succeeds then
        if ← succeeds then pure (activePeer L backing first second) else pure none
      else pure none

/-- FAT_IOCTL_DISABLE_WRITE as its callers rely on it: when it succeeds all cached changes are on the device, and
nothing changes it through the file system from then on. -/
def ioctlDisableWrite : Run env Bool :=
  sys (fun r w => match r.ok, w.ctl.mounted with
    | true, some d => (true, { w.sync d with ctl := { w.ctl with blocked := true } })
    | _, _ => (false, w))

def disableVfatWrite : Run env Bool := do
  if ← succeeds then
    let disabled ← ioctlDisableWrite
    let closed ← succeeds
    pure (disabled && closed)
  else pure false

def sealAndCopy (active peer : Path) : Run env ExitCode := do
  if ← disableVfatWrite then
    match ← powerctlSealBlockDevice L sha active with
    | none => pure (.failed .ioError)
    | some _ => if ← copyBlockDevice L active peer then pure .ok else pure (.failed .ioError)
  else pure (.failed .ioError)

def umountPartition (devices : Path) : Run env ExitCode := do
  match ← splitDevices devices with
  | none => pure (.failed .unsupportedLayout)
  | some (first, second) =>
      match ← resolveActivePeer L first second with
      | none => pure (.failed .ioError)
      | some (active, peer) => sealAndCopy L sha active peer

def getUnitSubstate : Run env (Option SubState) :=
  sys (fun r w => (if r.ok then some w.ctl.service else none, w))

def waitRound (start : Nat) (_ : Unit) : Run env (Unit ⊕ Bool) := do
  match ← getUnitSubstate with
  | none => pure (.inr false)
  | some .exited => pure (.inr true)
  | some .other => pure (.inr false)
  | some _ =>
      match ← clockGettime with
      | none => pure (.inr false)
      | some now => if readyTimeoutUsec ≤ elapsed start now then pure (.inr false) else pure (.inl ())

def waitMountRecoveryComplete : Run env Bool := do
  if ← succeeds then
    match ← clockGettime with
    | none => pure false
    | some start => Prog.loop (waitRound start) pause ()
  else pure false

def prepareAppParam (devices : Path) : Run env Bool := do
  if ← waitMountRecoveryComplete then
    let code ← umountPartition L sha devices
    pure (code = .ok)
  else pure false

end SuperRaid.PowerPrepare
