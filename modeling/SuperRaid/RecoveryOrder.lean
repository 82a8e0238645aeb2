import SuperRaid.RecoverSpec

namespace SuperRaid.RecoveryOrder

open Image Footer Volatile Sys Machine Storage Recovery Calls StorageSpec CopySpec MountSpec ReleaseSpec RecoverSpec

variable {env : Env} {L : Layout} {sha : Sha} {st : AppState}

/-- Every event of the log, newest first, is as required of it given the ones before. -/
def Each (J : Event → List Event → Prop) (log : List Event) : Prop :=
  ∀ after e before, log = after ++ e :: before → J e before

theorem each_nil (J : Event → List Event → Prop) : Each J [] := by simp [Each]

theorem Each.cons {J : Event → List Event → Prop} {e : Event} {log : List Event} (he : J e log) (h : Each J log) :
    Each J (e :: log) := by
  intro after e' before heq
  cases after with
  | nil =>
      obtain ⟨rfl, rfl⟩ := List.cons.inj heq
      exact he
  | cons _ after => exact h after e' before (List.cons.inj heq).2

def touchesPeer (st : AppState) : Event → Bool
  | .wrote _ => true
  | .verified path _ => path = st.otherDev
  | _ => false

/-- The last verify of the peer comes after the last write, and gave the digest of the mounted device. -/
def Trusted (st : AppState) (log : List Event) : Prop :=
  log.find? (touchesPeer st) = some (.verified st.otherDev (.ok st.mountedDigest))

def Distrusted (st : AppState) (log : List Event) : Prop :=
  ∃ res, .verified st.otherDev res ∈ log ∧ res ≠ .ok st.mountedDigest

/-- Only a distrusted peer is written, and a service is only signalled when it is trusted. -/
def Justified (L : Layout) (st : AppState) : Event → List Event → Prop
  | .wrote d, before => L.node st.otherDev = some (.part d) ∧ Distrusted st before
  | .killed _, before => Trusted st before
  | _, _ => True

def AfterRelease : Event → List Event → Prop
  | .wroteSysctl _ _, before => .released ∈ before
  | _, _ => True

theorem Trusted.cons {e : Event} {log : List Event} (h : Trusted st log) (he : touchesPeer st e = false) :
    Trusted st (e :: log) := by
  rw [Trusted, List.find?_cons_of_neg (by simp [he])]
  exact h

theorem trusted_verified (st : AppState) (log : List Event) :
    Trusted st (.verified st.otherDev (.ok st.mountedDigest) :: log) := by
  simp [Trusted, touchesPeer]

theorem Distrusted.cons {log : List Event} (h : Distrusted st log) (e : Event) : Distrusted st (e :: log) := by
  obtain ⟨res, hmem, hne⟩ := h
  exact ⟨res, List.mem_cons_of_mem e hmem, hne⟩

structure InOrder (L : Layout) (st : AppState) (log : List Event) : Prop where
  justified : Each (Justified L st) log
  late : Each AfterRelease log

theorem inOrder_nil (L : Layout) (st : AppState) : InOrder L st [] := ⟨each_nil _, each_nil _⟩

theorem InOrder.cons {e : Event} {log : List Event} (h : InOrder L st log) (hj : Justified L st e log)
    (hl : AfterRelease e log) : InOrder L st (e :: log) := ⟨h.justified.cons hj, h.late.cons hl⟩

/-- What recover_app_param has done when it restores the settings, given the result it will return. -/
def Restoring (L : Layout) (st : AppState) (code : ExitCode) (log : List Event) : Prop :=
  Each (Justified L st) log ∧ (code = .ok → InOrder L st log ∧ Trusted st log ∧ .released ∈ log)

theorem Restoring.cons {code : ExitCode} {log : List Event} (h : Restoring L st code log) (k : Knob) (v : Nat) :
    Restoring L st code (.wroteSysctl k v :: log) := by
  refine ⟨h.1.cons trivial, fun hok => ?_⟩
  obtain ⟨horder, htrusted, hreleased⟩ := h.2 hok
  exact ⟨horder.cons trivial hreleased, htrusted.cons rfl, List.mem_cons_of_mem _ hreleased⟩

theorem recoverPlan_order (env : Env) (L : Layout) (sha : Sha) (st : AppState) (old : List Event) :
    RecoverPlan env L sha false st (LogSince old (· = []))
      (fun _ => LogSince old (fun log => InOrder L st log ∧ Distrusted st log))
      (fun _ => LogSince old (fun log => InOrder L st log ∧ Distrusted st log))
      (LogSince old (fun log => InOrder L st log ∧ Trusted st log))
      (LogSince old (fun log => InOrder L st log ∧ Trusted st log))
      (fun _ => LogSince old (fun log => InOrder L st log ∧ Trusted st log ∧ .released ∈ log))
      (LogSince old (fun log => Each (Justified L st) log))
      (fun code => LogSince old (Restoring L st code))
      (LogSince old (fun log => Each (Justified L st) log)) where
  stable := stable_logSince _ _
  stable_releasing := stable_logSince _ _
  stable_restoring _ := stable_logSince _ _
  safe _ hw := hw.mono (by rintro _ rfl; exact each_nil _)
  safe_releasing _ hw := hw.mono (fun _ h => h.1.justified)
  safe_restoring _ _ hw := hw.mono (fun _ h => h.1)
  frame := {
    stable := fun _ => stable_logSince _ _
    safe := fun _ _ hw => hw.mono (fun _ h => h.1.justified)
    stable_done := fun _ _ hw => hw
    safe_done := fun _ ⟨_, hw⟩ => hw.mono (fun _ h => h.1.justified) }
  stable_copied _ := stable_logSince _ _
  equal _ hw _ := hw.note (by
    rintro _ rfl
    exact ⟨(inOrder_nil L st).cons trivial trivial, trusted_verified st []⟩)
  differs res _ hw _ hres := hw.note (by
    rintro _ rfl
    exact ⟨(inOrder_nil L st).cons trivial trivial, res, List.mem_cons_self .., hres⟩)
  copies d e _ he _ := {
    write := fun _ _ _ _ _ _ _ hw _ _ => hw.write (fun _ h => ⟨h.1.cons ⟨he, h.2⟩ trivial, h.2.cons _⟩)
    done := fun _ hw => ⟨[], hw⟩ }
  ready ht := absurd ht (by decide)
  repaired _ _ hw _ := hw.note (fun log h => ⟨h.1.cons trivial trivial, trusted_verified st log⟩)
  broken _ _ _ hw _ _ := hw.note (fun _ h => h.1.justified.cons trivial)
  failed _ _ _ hw := hw.mono (fun _ h => h.1.justified)
  recovered _ hw := hw
  killed _ _ hw := hw.note (fun _ h => ⟨h.1.cons h.2 trivial, h.2.cons rfl⟩)
  tick _ _ hw := hw
  released _ _ hw _ := hw.note (fun _ h => ⟨h.1.cons trivial trivial, h.2.cons rfl, List.mem_cons_self ..⟩)
  finish _ hw := hw.mono (fun _ h => ⟨h.1.justified, fun _ => h⟩)
  finishUnreleased _ hw := hw.mono (fun _ h => ⟨h.1.justified, by simp⟩)
  finishFailed _ _ hw := hw.mono (fun _ h => ⟨h, by simp⟩)
  restore _ w j v hw := by
    have hnote : LogSince old _ (w.note (.wroteSysctl j v)) := hw.note (fun _ h => h.cons j v)
    exact hnote

def MountedAfterVerify (L : Layout) (path : Path) (digest : Bytes) (w : World) : Prop :=
  (∃ d, L.node path = some (.part d) ∧ w.ctl.mounted = some d) ∧
    ∃ rest, w.log = .mounted path :: .verified path (.ok digest) :: rest

def candidate (pair : Path × Path) (k : Nat) : Path := if k = 0 then pair.1 else pair.2

theorem mountPlan_order (env : Env) (L : Layout) (sha : Sha) (pair : Path × Path) :
    MountPlan env L sha false (candidate pair) (fun _ _ => True)
      (fun k digest w => ∃ rest, w.log = .verified (candidate pair k) (.ok digest) :: rest)
      (fun k => MountedAfterVerify L (candidate pair k))
      (fun k digest w => ∃ v, MountedAfterVerify L (candidate pair k) digest v ∧ w = v.note .notified)
      (fun _ => True) (fun _ => True) where
  stable _ _ _ _ := trivial
  stable_verified _ _ _ _ hw := hw
  stable_mounted _ _ _ _ hw := hw
  stable_failed _ _ _ := trivial
  safe _ _ _ := trivial
  safe_verified _ _ _ _ := trivial
  safe_mounted _ _ _ _ := trivial
  safe_failed _ _ := trivial
  save _ _ _ := trivial
  delay _ _ _ _ := trivial
  reject _ _ _ _ _ _ := trivial
  accept _ _ w _ _ := ⟨w.log, rfl⟩
  mount k _ d _ hw hnode := by
    obtain ⟨rest, hlog⟩ := hw
    exact ⟨⟨d, hnode, rfl⟩, rest, congrArg (Event.mounted (candidate pair k) :: ·) hlog⟩
  refuse _ _ _ _ _ := trivial
  notify _ _ w hw := ⟨w, hw, rfl⟩
  unmount _ _ _ _ _ := trivial
  linger _ _ _ _ _ := trivial
  giveUp _ _ _ _ := trivial
  restore _ _ _ _ := trivial

theorem mountPartition_split {devices : Path} {rs rs' : List (Answer env.Choice)} {w w' : World}
    (h : mountPartition L sha devices rs w = .done (.ok st) rs' w') : ∃ pair, splitSpec devices = some pair := by
  rcases hsplit : splitSpec devices with _ | pair
  · have hmeets : Meets false 0 (fun _ => True) (mountPartition L sha devices : Run env (Except Failure AppState))
        (fun res _ => ∃ code, res = .error code) (fun _ => True) := by
      refine Meets.bind (n := 0) (K := fun _ _ => True)
        (meets_splitDevices (fun _ _ _ => trivial) (fun _ _ => trivial)) (fun res hres => ?_)
      rcases res with _ | pair
      · exact Meets.ret (fun _ _ => ⟨_, rfl⟩)
      · exact absurd ((hres.1 pair rfl).symm.trans hsplit) (by simp)
    obtain ⟨code, hcode⟩ := hmeets.done trivial h
    exact absurd hcode (by simp)
  · exact ⟨pair, rfl⟩

theorem mountPartition_order {devices : Path} {rs rs' : List (Answer env.Choice)} {w w' : World}
    (h : mountPartition L sha devices rs w = .done (.ok st) rs' w') :
    ∃ pair, splitSpec devices = some pair ∧
      ((st.mountedDev, st.otherDev) = pair ∨ (st.mountedDev, st.otherDev) = pair.swap) ∧
      ∃ v, MountedAfterVerify L st.mountedDev st.mountedDigest v ∧ w' = v.note .notified := by
  obtain ⟨pair, hsplit⟩ := mountPartition_split h
  obtain ⟨i, hi, hend⟩ := (meets_mountPartition (mountPlan_order env L sha pair) hsplit).done trivial h
  match i, hi with
  | 0, hi =>
      have hst := Option.some.inj hi
      refine ⟨pair, hsplit, .inl hst.symm, ?_⟩
      rw [← (Prod.mk.inj hst).1]
      exact hend
  | 1, hi =>
      have hst := Option.some.inj hi
      refine ⟨pair, hsplit, .inr hst.symm, ?_⟩
      rw [← (Prod.mk.inj hst).1]
      exact hend

/-- For any outcome of every step, and whatever else happens to the devices: mount_partition returns the device it has
mounted, the other one, and the digest of the verify just before the mount; recover_app_param writes to the peer and
releases the services only when it may, and reports success only for a peer that verified with that digest after the
last write, having restored no setting before the release. -/
theorem recovery_commits_in_order (env : Env) (L : Layout) (sha : Sha) :
    (∀ devices rs w st rs' w',
      (mountPartition L sha devices : Run env (Except Failure AppState)) rs w = .done (.ok st) rs' w' →
      ∃ pair, splitSpec devices = some pair ∧
        ((st.mountedDev, st.otherDev) = pair ∨ (st.mountedDev, st.otherDev) = pair.swap) ∧
        (∃ d, L.node st.mountedDev = some (.part d) ∧ w'.ctl.mounted = some d) ∧
        ∃ rest, w'.log =
          .notified :: .mounted st.mountedDev :: .verified st.mountedDev (.ok st.mountedDigest) :: rest) ∧
    (∀ st rs w, ∃ new, ((recoverAppParam L sha st : Run env ExitCode) rs w).state.log = new ++ w.log ∧
      Each (Justified L st) new ∧
      (∀ rs' w', (recoverAppParam L sha st : Run env ExitCode) rs w = .done .ok rs' w' →
        Trusted st new ∧ .released ∈ new ∧ Each AfterRelease new)) := by
  refine ⟨fun devices rs w st rs' w' h => ?_, fun st rs w => ?_⟩
  · obtain ⟨pair, hsplit, hpair, v, hv, rfl⟩ := mountPartition_order h
    obtain ⟨hmounted, rest, hlog⟩ := hv
    exact ⟨pair, hsplit, hpair, hmounted, rest, by rw [World.note_log, hlog]⟩
  · have hmeets := meets_recoverAppParam (recoverPlan_order env L sha st w.log)
    have hstart : LogSince w.log (· = []) w := logSince_self rfl
    by_cases hok : ∃ rs' w', (recoverAppParam L sha st : Run env ExitCode) rs w = .done .ok rs' w'
    · obtain ⟨rs', w', hdone⟩ := hok
      obtain ⟨code, ⟨new, hlog, hnew⟩, hcode, -⟩ := hmeets.done hstart hdone
      obtain ⟨horder, htrusted, hreleased⟩ := hnew.2 (hcode rfl)
      exact ⟨new, by rw [hdone]; exact hlog, hnew.1, fun _ _ _ => ⟨htrusted, hreleased, horder.late⟩⟩
    · have hreached :
          LogSince w.log (Each (Justified L st)) ((recoverAppParam L sha st : Run env ExitCode) rs w).state :=
        hmeets.reached hstart (fun _ _ ⟨_, hw, _⟩ => hw.mono (fun _ h => h.1))
      obtain ⟨new, hlog, hnew⟩ := hreached
      exact ⟨new, hlog, hnew, fun rs' w' hdone => absurd ⟨rs', w', hdone⟩ hok⟩

end SuperRaid.RecoveryOrder
