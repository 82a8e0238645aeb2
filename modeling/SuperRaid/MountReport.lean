import SuperRaid.Recovery

namespace SuperRaid.MountReport

open Image Footer Sys Machine Storage Recovery

variable {env : Env} (L : Layout) (sha : Sha)

structure Slots where
  mountedDev : Option Path
  otherDev : Option Path

def Slots.empty : Slots := ⟨none, none⟩

abbrev Writes := Knob → Bool

def Writes.all (writes : Writes) : Bool := writes .writebackCentisecs && writes .backgroundRatio && writes .dirtyRatio

/-- What mount_partition leaves in the state it is given, and how it ended: the result of umount2 and of the restoring
writes, if they were called. -/
structure Report where
  code : ExitCode
  slots : Slots
  digest : Bytes
  unmounted : Option Bool
  restored : Option Writes

def Report.result (rep : Report) : Except Failure AppState :=
  match rep.code with
  | .failed code => .error code
  | .ok => match rep.slots.mountedDev, rep.slots.otherDev with
      | some mountedDev, some otherDev => .ok ⟨mountedDev, otherDev, rep.digest⟩
      | _, _ => .error .ioError

def writeKnobs (settings : DirtySettings) : Run env Writes := do
  let writeback ← writeSysctlU32 .writebackCentisecs (settings .writebackCentisecs)
  let background ← writeSysctlU32 .backgroundRatio (settings .backgroundRatio)
  let ratio ← writeSysctlU32 .dirtyRatio (settings .dirtyRatio)
  pure (fun
    | .writebackCentisecs => writeback
    | .backgroundRatio => background
    | .dirtyRatio => ratio)

def restoreKnobs : Run env Writes := fun rs w => writeKnobs w.ctl.original rs w

def restoreReport (code : Failure) (slots : Slots) (digest : Bytes) (unmounted : Option Bool) : Run env Report := do
  let writes ← restoreKnobs
  pure ⟨.failed code, slots, digest, unmounted, some writes⟩

def unmountReport (code : Failure) (digest : Bytes) : Run env Report := do
  let ok ← umount2
  restoreReport code .empty digest (some ok)

def duplicated (candidate other : Path) : Bool → Nat → Slots
  | true, _ => ⟨some candidate, some other⟩
  | false, 0 => ⟨none, none⟩
  | false, 1 => ⟨some candidate, none⟩
  | false, _ => ⟨none, some other⟩

def strdups (candidate other : Path) : Run env Slots := ask (fun r => duplicated candidate other r.ok r.count)

def candidatesReport : List (Path × Path) → Slots → Bytes → Run env Report
  | [], slots, digest => restoreReport .metadataInvalid slots digest none
  | (candidate, other) :: rest, slots, digest => do
      match ← powerctlVerifyPathDigest L sha candidate with
      | .error _ => candidatesReport rest slots digest
      | .ok digest =>
          if ← mount L candidate then
            let slots ← strdups candidate other
            if slots.mountedDev.isNone || slots.otherDev.isNone then unmountReport .nomem digest
            else if ← sdNotify then pure ⟨.ok, slots, digest, none, none⟩
            else unmountReport .ioError digest
          else candidatesReport rest slots digest

def partitionReport (slots : Slots) (devices : Path) : Run env Report := do
  match ← splitDevices devices with
  | none => pure ⟨.failed .unsupportedLayout, slots, List.replicate digestSize 0, none, none⟩
  | some (first, second) =>
      if ← readDirtySettings then
        if ← enablePagecacheDelay then
          if ← succeeds then
            candidatesReport L sha [(first, second), (second, first)] slots (List.replicate digestSize 0)
          else restoreReport .ioError slots (List.replicate digestSize 0) none
        else restoreReport .ioError slots (List.replicate digestSize 0) none
      else pure ⟨.failed .ioError, slots, List.replicate digestSize 0, none, none⟩

/-- How fsctl mount has ended, with the last attempt to restore the settings. -/
structure Exit where
  code : ExitCode
  mount : Report
  restored : Option Writes

def restoredCode (code : ExitCode) (restored : Bool) : ExitCode :=
  if restored then code else if code = .ok then .failed .ioError else code

def recoverReport (rep : Report) : Run env Exit :=
  match rep.slots.mountedDev, rep.slots.otherDev with
  | some mountedDev, some otherDev => do
      let code ← recoverAndRelease L sha ⟨mountedDev, otherDev, rep.digest⟩
      markRestored
      let writes ← restoreKnobs
      pure ⟨restoredCode code writes.all, rep, some writes⟩
  | _, _ => pure ⟨.failed .ioError, rep, none⟩

def mountReport (devices : Path) : Run env Exit := do
  let rep ← partitionReport L sha .empty devices
  match rep.code with
  | .failed code => pure ⟨.failed code, rep, rep.restored⟩
  | .ok => recoverReport L sha rep

section Refinement

theorem writeDirtySettings_eq (settings : DirtySettings) :
    (writeDirtySettings settings : Run env Bool) = writeKnobs settings >>= fun writes => pure writes.all := by
  simp only [writeDirtySettings, writeKnobs, bind_assoc, pure_bind]
  rfl

theorem restoreDirtySettings_eq :
    (restoreDirtySettings : Run env Bool) = restoreKnobs >>= fun writes => pure writes.all := by
  funext rs w
  exact congrFun (congrFun (writeDirtySettings_eq w.ctl.original) rs) w

theorem restoreReport_result (code : Failure) (slots : Slots) (digest : Bytes) (unmounted : Option Bool) :
    (restoreReport code slots digest unmounted >>= fun rep => pure rep.result : Run env (Except Failure AppState)) =
      failRestoreDirty code := by
  simp only [restoreReport, failRestoreDirty, restoreDirtySettings_eq, bind_assoc, pure_bind]
  rfl

theorem unmountReport_result (code : Failure) (digest : Bytes) :
    (unmountReport code digest >>= fun rep => pure rep.result : Run env (Except Failure AppState)) =
      failUnmount code := by
  simp only [unmountReport, failUnmount, bind_assoc, restoreReport_result]

theorem duplicated_missing (candidate other : Path) (ok : Bool) (count : Nat) :
    ((duplicated candidate other ok count).mountedDev.isNone ||
      (duplicated candidate other ok count).otherDev.isNone) = !ok := by
  cases ok with
  | true => rfl
  | false => rcases count with _ | _ | n <;> rfl

theorem strdups_bind {α : Type} (candidate other : Path) (p : Run env α) (q : Slots → Run env α) :
    (strdups candidate other >>= fun slots => if slots.mountedDev.isNone || slots.otherDev.isNone then p else q slots) =
      (succeeds >>= fun ok => if ok = true then q ⟨some candidate, some other⟩ else p) := by
  funext rs w
  cases rs with
  | nil => rfl
  | cons r rs =>
      show (if ((duplicated candidate other r.ok r.count).mountedDev.isNone ||
          (duplicated candidate other r.ok r.count).otherDev.isNone) = true then p
        else q (duplicated candidate other r.ok r.count)) rs (w.act env r) =
          (if r.ok = true then q ⟨some candidate, some other⟩ else p) rs (w.act env r)
      rw [duplicated_missing]
      cases r.ok <;> rfl

theorem candidatesReport_result (candidates : List (Path × Path)) (slots : Slots) (digest : Bytes) :
    (candidatesReport L sha candidates slots digest >>= fun rep => pure rep.result : Run env _) =
      mountCandidates L sha candidates digest := by
  induction candidates generalizing digest with
  | nil => exact restoreReport_result _ _ _ _
  | cons pair rest ih =>
      obtain ⟨candidate, other⟩ := pair
      simp only [candidatesReport, mountCandidates, bind_assoc]
      refine bind_congr (fun res => ?_)
      cases res with
      | error code => exact ih digest
      | ok digest =>
          dsimp only
          rw [bind_assoc]
          refine bind_congr (fun mounted => ?_)
          cases mounted with
          | false => exact ih digest
          | true =>
              simp only [if_true, apply_ite (· >>= fun rep : Report => (pure rep.result : Run env _)), bind_assoc]
              rw [strdups_bind]
              refine bind_congr (fun ok => ?_)
              cases ok with
              | false => exact unmountReport_result _ _
              | true =>
                  refine bind_congr (fun notified => ?_)
                  cases notified with
                  | false => exact unmountReport_result _ _
                  | true => rfl

theorem partitionReport_result (slots : Slots) (devices : Path) :
    (partitionReport L sha slots devices >>= fun rep => pure rep.result : Run env _) =
      mountPartition L sha devices := by
  simp only [partitionReport, mountPartition, bind_assoc]
  refine bind_congr (fun pair => ?_)
  rcases pair with _ | ⟨first, second⟩
  · rfl
  dsimp only
  rw [bind_assoc]
  refine bind_congr (fun saved => ?_)
  cases saved with
  | false => rfl
  | true =>
      simp only [if_true]
      rw [bind_assoc]
      refine bind_congr (fun delayed => ?_)
      cases delayed with
      | false => exact restoreReport_result _ _ _ _
      | true =>
          simp only [if_true]
          rw [bind_assoc]
          refine bind_congr (fun made => ?_)
          cases made with
          | false => exact restoreReport_result _ _ _ _
          | true => exact candidatesReport_result L sha _ _ _

theorem mountReport_code (devices : Path) :
    (mountReport L sha devices >>= fun exit => pure exit.code : Run env ExitCode) = fsctlMount L sha devices := by
  simp only [mountReport, fsctlMount, ← partitionReport_result L sha .empty devices, bind_assoc, pure_bind]
  refine bind_congr (fun rep => ?_)
  rcases rep with ⟨_ | code, ⟨_ | mountedDev, _ | otherDev⟩, digest, unmounted, restored⟩
  · rfl
  · rfl
  · rfl
  · simp only [recoverReport, Report.result, recoverAppParam, restoreDirtySettings_eq, bind_assoc, pure_bind]
    refine bind_congr (fun code => bind_congr (fun _ => bind_congr (fun writes => ?_)))
    unfold restoredCode
    split_ifs <;> rfl
  all_goals rfl

end Refinement

end SuperRaid.MountReport
