import SuperRaid.Interposer

namespace SuperRaid.Interposer

open FileFlags Transition

/-- A call to openat2 gives it a struct open_how of the size the library knows. -/
def Formed : Call → Prop
  | .openat2 _ _ how size => how.isSome ∧ size = howSize
  | _ => True

def Syncs : Call → Prop
  | .fsync _ | .fdatasync _ | .sync | .syncfs _ | .msync _ _ _ | .syncFileRange _ _ _ _ => True
  | .pwritev2 _ _ _ _ flags | .pwritev64v2 _ _ _ _ flags => flags &&& (rwfSync ||| rwfDsync) ≠ 0
  | _ => False

/-- The argument that fcntl(2) defines for a command: none for F_GETFD and F_GETFL, an int for F_SETFL. -/
def SameArg (cmd : CInt) (arg : Word) (passed : Option Word) : Prop :=
  if cmd = fGetfd ∨ cmd = fGetfl then True
  else if cmd = fSetfl then passed.map (·.setWidth 32) = some (arg.setWidth 32 : CInt)
  else passed = some arg

/-- The call that was passed on has the arguments of the call that was made. -/
def Agrees : Call → Libc → Prop
  | .openFile pathname flags mode, forward => ∃ mode', forward = .openFile pathname flags mode' ∧
      (needsMode flags = true → mode' = some mode)
  | .openat dirfd pathname flags mode, forward => ∃ mode', forward = .openat dirfd pathname flags mode' ∧
      (needsMode flags = true → mode' = some mode)
  | .openat2 dirfd pathname how size, forward => ∃ sanitized, how = some sanitized ∧
      forward = .openat2 dirfd pathname sanitized size
  | .creat pathname mode, forward => forward = .creat pathname mode
  | .fcntl fd cmd arg, forward => ∃ passed, forward = .fcntl fd cmd passed ∧ SameArg cmd arg passed
  | .pwritev2 fd iov iovcnt offset flags, forward => forward = .pwritev2 fd iov iovcnt offset flags
  | .pwritev64v2 fd iov iovcnt offset flags, forward => forward = .pwritev64v2 fd iov iovcnt offset flags
  | .fsync fd, forward => forward = .fsync fd
  | .fdatasync fd, forward => forward = .fdatasync fd
  | .sync, forward => forward = .sync
  | .syncfs fd, forward => forward = .syncfs fd
  | .msync addr length flags, forward => forward = .msync addr length flags
  | .syncFileRange fd offset nbytes flags, forward => forward = .syncFileRange fd offset nbytes flags

theorem setWidth_signExtend (x : CInt) : (x.signExtend 64).setWidth 32 = x := by
  ext i hi
  rw [BitVec.getElem_setWidth, BitVec.getLsbD_signExtend, if_pos hi]
  simp [hi]
  omega

theorem checkedOpen_released (flags mode : CInt) (forward : Option CInt → Libc) :
    ∃ mode', checkedOpen false flags mode forward = .ok (forward mode') ∧
      (needsMode flags = true → mode' = some mode) := by
  by_cases hmode : needsMode flags = true
  · exact ⟨some mode, by simp [checkedOpen, hmode], fun _ => rfl⟩
  · exact ⟨none, by simp [checkedOpen, hmode], fun h => absurd h hmode⟩

theorem checkedOpen_forced (flags mode : CInt) (forward : Option CInt → Libc) :
    (flags &&& syncMask = 0#32 ∧ ∃ mode', checkedOpen true flags mode forward = .ok (forward mode')) ∨
      checkedOpen true flags mode forward = .error .eopnotsupp := by
  by_cases hflags : flags &&& syncMask = 0#32
  · refine .inl ⟨hflags, ?_⟩
    by_cases hmode : needsMode flags = true
    · exact ⟨some mode, by simp [checkedOpen, hflags, hmode]⟩
    · exact ⟨none, by simp [checkedOpen, hflags, hmode]⟩
  · exact .inr (by simp [checkedOpen, hflags])

theorem checkedPwritev2_forced (flags : CInt) (forward : Libc) :
    checkedPwritev2 true flags forward =
      if flags &&& (rwfSync ||| rwfDsync) = 0#32 then .ok forward else .error .eopnotsupp := by
  by_cases hflags : flags &&& (rwfSync ||| rwfDsync) = 0#32
  · simp [checkedPwritev2, rejectPwritev2Flags, hflags]
  · simp [checkedPwritev2, rejectPwritev2Flags, hflags]

theorem intercept_released {c : Call} (hc : Formed c) :
    ∃ forward, intercept false c = .ok forward ∧ Agrees c forward := by
  cases c with
  | openFile pathname flags mode =>
      obtain ⟨mode', hopen, hmode⟩ := checkedOpen_released flags mode (.openFile pathname flags)
      exact ⟨_, hopen, mode', rfl, hmode⟩
  | openat dirfd pathname flags mode =>
      obtain ⟨mode', hopen, hmode⟩ := checkedOpen_released flags mode (.openat dirfd pathname flags)
      exact ⟨_, hopen, mode', rfl, hmode⟩
  | openat2 dirfd pathname how size =>
      obtain ⟨hhow, rfl⟩ := hc
      obtain ⟨sanitized, rfl⟩ := Option.isSome_iff_exists.mp hhow
      exact ⟨_, by simp [intercept, openat2], sanitized, rfl, rfl⟩
  | fcntl fd cmd arg =>
      by_cases hget : cmd = fGetfd ∨ cmd = fGetfl
      · exact ⟨.fcntl fd cmd none, by simp [intercept, fcntl, hget], none, rfl, by simp [SameArg, hget]⟩
      by_cases hset : cmd = fSetfl
      · refine ⟨.fcntl fd cmd (some ((arg.setWidth 32 : CInt).signExtend 64)), ?_, _, rfl, ?_⟩
        · rw [intercept, fcntl, if_neg hget, if_pos hset]
          simp
        · rw [SameArg, if_neg hget, if_pos hset, Option.map_some, setWidth_signExtend]
      · exact ⟨.fcntl fd cmd (some arg), by simp [intercept, fcntl, hget, hset], some arg, rfl,
          by simp [SameArg, hget, hset]⟩
  | creat | pwritev2 | pwritev64v2 | fsync | fdatasync | sync | syncfs | msync | syncFileRange =>
      exact ⟨_, rfl, rfl⟩

def requested : Libc → CInt
  | .openFile _ flags _ | .openat _ _ flags _ => flags
  | .openat2 _ _ how _ => how.flags.setWidth 32
  | .fcntl _ cmd arg => if cmd = fSetfl then (arg.getD 0).setWidth 32 else 0
  | _ => 0

theorem requested_forced {c : Call} {forward : Libc} (h : intercept true c = .ok forward) :
    requested forward &&& syncMask = 0#32 := by
  cases c with
  | openFile pathname flags mode =>
      rcases checkedOpen_forced flags mode (.openFile pathname flags) with ⟨hflags, mode', hok⟩ | hrefused
      · rw [intercept, openFile, hok] at h
        cases h
        exact hflags
      · rw [intercept, openFile, hrefused] at h
        cases h
  | openat dirfd pathname flags mode =>
      rcases checkedOpen_forced flags mode (.openat dirfd pathname flags) with ⟨hflags, mode', hok⟩ | hrefused
      · rw [intercept, openat, hok] at h
        cases h
        exact hflags
      · rw [intercept, openat, hrefused] at h
        cases h
  | openat2 dirfd pathname how size =>
      rcases how with _ | sanitized
      · cases h
      simp only [intercept, openat2, true_and] at h
      split_ifs at h with hsize hflags
      cases h
      have hclear : sanitized.flags &&& syncMask.setWidth 64 = 0#64 := by simpa using hflags
      have hlow := congrArg (BitVec.setWidth 32) hclear
      rw [BitVec.setWidth_and] at hlow
      exact hlow
  | fcntl fd cmd arg =>
      simp only [intercept, fcntl, true_and] at h
      split_ifs at h with hget hset hflags
      · cases h
        rw [requested, if_neg (by rcases hget with rfl | rfl <;> decide)]
        rfl
      · cases h
        have hclear : (arg.setWidth 32 : CInt) &&& syncMask = 0#32 := by simpa using hflags
        rw [requested, if_pos hset, Option.getD_some, setWidth_signExtend]
        exact hclear
      · cases h
        rw [requested, if_neg hset]
        rfl
  | pwritev2 | pwritev64v2 =>
      simp only [intercept, pwritev2, pwritev64v2, checkedPwritev2_forced] at h
      split_ifs at h
      cases h
      exact BitVec.zero_and
  | creat =>
      cases h
      exact BitVec.zero_and
  | fsync | fdatasync | sync | syncfs | msync | syncFileRange => cases h

def Clean (p : Process) : Prop := ∀ flags ∈ p.files, flags &&& syncMask = 0#32

theorem Clean.install {p : Process} {fd flags : CInt} (h : Clean p) (hflags : flags &&& syncMask = 0#32) :
    Clean (p.install fd flags) := by
  intro f hf
  rcases List.mem_append.mp hf with hf | hf
  · exact h f hf
  · rw [List.mem_singleton.mp hf]
    exact hflags

theorem Clean.setFlags {p : Process} {fd arg : CInt} (h : Clean p) (harg : arg &&& syncMask = 0#32) :
    Clean (p.setFlags fd arg) := by
  unfold Process.setFlags
  cases p.fds fd with
  | none => exact h
  | some i =>
      intro f hf
      obtain ⟨k, hk, rfl⟩ := List.mem_iff_getElem.mp hf
      simp only [List.getElem_modify]
      split_ifs
      · exact mix_and_eq_zero (h _ (List.getElem_mem _)) harg setflMask
      · exact h _ (List.getElem_mem _)

theorem Clean.perform {p : Process} {value extra : CInt} {forward : Libc} (h : Clean p)
    (hforward : requested forward &&& syncMask = 0#32) : Clean (p.perform value extra forward) := by
  have hopened {flags : CInt} (hflags : flags &&& syncMask = 0#32) :
      Clean (p.install value (Process.openedFlags flags extra)) := by
    refine h.install ?_
    rw [Process.openedFlags, mix_and]
    exact hflags
  cases forward with
  | openFile | openat | openat2 => exact hopened hforward
  | creat => exact hopened (by decide)
  | fcntl fd cmd arg =>
      simp only [Process.perform]
      split_ifs with hset hdup
      · rw [requested, if_pos hset] at hforward
        exact h.setFlags hforward
      · exact h
      · exact h
  | _ => exact h

theorem Process.perform_force (p : Process) (value extra : CInt) (forward : Libc) :
    (p.perform value extra forward).forcePagecache = p.forcePagecache := by
  cases forward with
  | fcntl fd cmd arg =>
      simp only [Process.perform]
      split_ifs
      · unfold Process.setFlags
        split <;> rfl
      · rfl
      · rfl
  | _ => rfl

def Gated (as : List Action) (p : Process) : Prop :=
  (.sigusr2 ∉ as → p.forcePagecache = true ∧ Clean p) ∧ (.sigusr2 ∈ as → p.forcePagecache = false)

theorem Gated.call {as : List Action} {p : Process} (h : Gated as p) (c : Call) (reply : Reply) :
    Gated (as ++ [.call c reply]) (call p c reply).1 := by
  have hforce : (Interposer.call p c reply).1.forcePagecache = p.forcePagecache := by
    unfold Interposer.call
    split
    · rfl
    · split
      · rfl
      · exact p.perform_force _ _ _
  refine ⟨fun hnot => ?_, fun hmem => hforce.trans (h.2 (by simpa using hmem))⟩
  obtain ⟨hclosed, hclean⟩ := h.1 (fun hmem => hnot (List.mem_append_left _ hmem))
  refine ⟨hforce.trans hclosed, ?_⟩
  unfold Interposer.call
  rw [hclosed]
  split
  · exact hclean
  · rename_i forward hforward
    split
    · exact hclean
    · exact hclean.perform (requested_forced hforward)

theorem gated_run {as : List Action} {p : Process} (hrun : run step initial as = some p) : Gated as p := by
  refine run_history (I := Gated)
    ⟨fun _ => ⟨rfl, by simp [Clean, initial]⟩, by simp⟩ (fun bs u a v _ hu hv => ?_) hrun
  cases a with
  | call c reply =>
      obtain rfl := Option.some.inj hv
      exact hu.call c reply
  | sigusr2 =>
      obtain rfl := Option.some.inj hv
      exact ⟨by simp, fun _ => rfl⟩

theorem run_total (p : Process) (as : List Action) : ∃ q, run step p as = some q := by
  induction as generalizing p with
  | nil => exact ⟨p, rfl⟩
  | cons a as ih =>
      cases a with
      | call c reply => exact ih (call p c reply).1
      | sigusr2 => exact ih (disableForcePagecache p)

theorem intercept_forced {c : Call} (hc : Formed c) :
    (Syncs c → intercept true c = .error .eopnotsupp) ∧
      ∀ errno, intercept true c = .error errno → errno = .eopnotsupp := by
  cases c with
  | openFile pathname flags mode =>
      refine ⟨fun h => absurd h (by simp [Syncs]), fun errno h => ?_⟩
      rcases checkedOpen_forced flags mode (.openFile pathname flags) with ⟨-, mode', hok⟩ | hrefused
      · cases hok.symm.trans h
      · exact (Except.error.inj (hrefused.symm.trans h)).symm
  | openat dirfd pathname flags mode =>
      refine ⟨fun h => absurd h (by simp [Syncs]), fun errno h => ?_⟩
      rcases checkedOpen_forced flags mode (.openat dirfd pathname flags) with ⟨-, mode', hok⟩ | hrefused
      · cases hok.symm.trans h
      · exact (Except.error.inj (hrefused.symm.trans h)).symm
  | openat2 dirfd pathname how size =>
      obtain ⟨hhow, rfl⟩ := hc
      obtain ⟨sanitized, rfl⟩ := Option.isSome_iff_exists.mp hhow
      refine ⟨fun h => absurd h (by simp [Syncs]), fun errno h => ?_⟩
      simp only [intercept, openat2] at h
      split_ifs at h
      · rename_i hne
        exact absurd rfl hne
      · exact (Except.error.inj h).symm
  | fcntl fd cmd arg =>
      refine ⟨fun h => absurd h (by simp [Syncs]), fun errno h => ?_⟩
      simp only [intercept, fcntl] at h
      split_ifs at h
      exact (Except.error.inj h).symm
  | pwritev2 fd iov iovcnt offset flags =>
      refine ⟨fun h => (checkedPwritev2_forced flags _).trans (if_neg h), fun errno h => ?_⟩
      simp only [intercept, pwritev2, checkedPwritev2_forced] at h
      split_ifs at h
      exact (Except.error.inj h).symm
  | pwritev64v2 fd iov iovcnt offset flags =>
      refine ⟨fun h => (checkedPwritev2_forced flags _).trans (if_neg h), fun errno h => ?_⟩
      simp only [intercept, pwritev64v2, checkedPwritev2_forced] at h
      split_ifs at h
      exact (Except.error.inj h).symm
  | creat => exact ⟨fun h => absurd h (by simp [Syncs]), fun errno h => by cases h⟩
  | fsync | fdatasync | sync | syncfs | msync | syncFileRange =>
      exact ⟨fun _ => rfl, fun errno h => (Except.error.inj h).symm⟩

/-- Until the first SIGUSR2 no descriptor has O_DIRECT, O_SYNC or O_DSYNC, no sync gets through and a call that does
not get through fails with EOPNOTSUPP and changes nothing; from then on every call is passed on as it was made. -/
theorem gate_holds_until_signal (as : List Action) : ∃ p, run step initial as = some p ∧
    (.sigusr2 ∉ as →
      (∀ fd flags, p.status fd = some flags → flags &&& syncMask = 0) ∧
      ∀ c reply, Formed c → (Syncs c → (call p c reply).2.forwarded = none) ∧
        ((call p c reply).2.forwarded = none → call p c reply = (p, ⟨none, .error .eopnotsupp⟩))) ∧
    (.sigusr2 ∈ as → p.forcePagecache = false ∧
      ∀ c reply, Formed c → ∃ forward, (call p c reply).2 = ⟨some forward, reply.result⟩ ∧
        Agrees c forward) := by
  obtain ⟨p, hrun⟩ := run_total initial as
  have hgated := gated_run hrun
  refine ⟨p, hrun, fun hnot => ?_, fun hmem => ⟨hgated.2 hmem, fun c reply hc => ?_⟩⟩
  · obtain ⟨hclosed, hclean⟩ := hgated.1 hnot
    refine ⟨fun fd flags hstatus => ?_, fun c reply hc => ?_⟩
    · obtain ⟨i, -, hi⟩ := Option.bind_eq_some_iff.mp hstatus
      exact hclean flags (List.mem_of_getElem? hi)
    · obtain ⟨hsyncs, hrefused⟩ := intercept_forced hc
      unfold call
      rw [hclosed]
      cases hres : intercept true c with
      | error errno =>
          rw [hrefused errno hres]
          exact ⟨fun _ => rfl, fun _ => rfl⟩
      | ok forward =>
          refine ⟨fun hs => ?_, fun hnone => ?_⟩
          · rw [hsyncs hs] at hres
            cases hres
          · dsimp only at hnone
            split at hnone
            · cases hnone
            · cases hnone
  · obtain ⟨forward, hforward, hagrees⟩ := intercept_released hc
    refine ⟨forward, ?_, hagrees⟩
    unfold call
    rw [hgated.2 hmem, hforward]
    dsimp only
    split <;> simp_all

/-- A null pointer to struct open_how is refused for good. -/
theorem null_how_not_forwarded : ∃ p, run step initial [.sigusr2] = some p ∧
    ∀ reply, (call p (.openat2 0 0 none howSize) reply).2 = ⟨none, .error .einval⟩ :=
  ⟨_, rfl, fun _ => rfl⟩

end SuperRaid.Interposer
