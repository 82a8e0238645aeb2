import SuperRaid.TransferCopy

namespace SuperRaid.TransferRange

open Image Footer Sys FileFlags Transfer TransferSpec TransferCopy

theorem does_readSize {P C : State → Prop} (fd : Fd) :
    Does 0 P (readSize fd) (fun size s => P s ∧ size = (s.content fd).length) C :=
  fun _ s _ hs => ⟨⟨hs, rfl⟩, List.suffix_rfl, by simp⟩

theorem does_openTarget (set : Setting) (fd : Fd) (flags : BitVec 32) (size : Nat) {P O C : State → Prop}
    (hC : ∀ s, P s → C s) (hC' : ∀ s, O s → C s)
    (hopen : ∀ s, P s → O { s with flags := Function.update s.flags fd flags })
    (hsize : ∀ s, O s → (s.content fd).length = size) :
    Does 6 P (openTarget set fd flags) (fun res s => match res with
      | none => C s
      | some t => O s ∧ t = ⟨size, set.logical fd⟩ ∧ admitted t = true) C := by
  have hcost : (1 : ℕ∞) + (1 + (0 + (((3 : Nat) : ℕ∞) + 1))) ≤ 6 := by norm_num
  unfold openTarget
  refine Does.mono (Spec.bind (does_succeeds hC) (fun found => ?_)) hcost
  cases found with
  | false => exact Does.ret (fun s hs => hC s hs)
  | true =>
      have hfd : Does 1 P (openFd fd flags) (fun ok s => if ok = true then O s else P s) C := by
        refine Spec.call (fun r _ => wt_le_one r) hC (fun r s _ hs => ?_)
        cases r with
        | moved count => exact hopen s hs
        | interrupted => exact hs
        | failed => exact hs
      refine Spec.bind hfd (fun opened => ?_)
      cases opened with
      | false => exact Does.ret (fun s hs => hC s hs)
      | true =>
          refine Spec.bind (does_readSize (P := O) fd) (fun n => ?_)
          refine Spec.conseq (Does.pull (A := n = size) (fun hn => ?_))
            (fun s hs => ⟨hs.1, hs.2.trans (hsize s hs.1)⟩) (fun _ _ hs => hs) (fun _ hs => hs) le_rfl
          subst hn
          refine Spec.bind (does_allSucceed hC' 3) (fun ok => ?_)
          split_ifs with hgood
          · rw [Bool.and_eq_true] at hgood
            exact Does.ret (fun s hs => ⟨hs, rfl, hgood.2⟩)
          · have hclose := Spec.bind (S := fun res s => match res with
              | none => C s
              | some t => O s ∧ t = ⟨n, set.logical fd⟩ ∧ admitted t = true) (does_closeTarget hC')
              (fun _ => Spec.ret (a := (none : Option Target)) (fun s hs => hC' s hs))
            rwa [add_zero] at hclose

theorem divides_of_admitted {t : Target} (h : admitted t = true) : t.logicalSize ∣ 4096 ∧ t.size < 2 ^ 63 := by
  simp only [admitted, decide_eq_true_eq] at h
  exact ⟨Nat.dvd_of_mod_eq_zero h.2.2.2.1, by omega⟩

theorem alignment_eq {source destination : Target} (hs : source.logicalSize ∣ 4096)
    (hd : destination.logicalSize ∣ 4096) : alignment source destination = 4096 := by
  have hs := Nat.le_of_dvd (by decide) hs
  have hd := Nat.le_of_dvd (by decide) hd
  unfold alignment
  dsimp only
  split_ifs <;> omega

section Range

variable {j : Job} {source destination : Target} {b : Fd → Bool}

def Returned (j : Job) (ok : Bool) (s : State) : Prop :=
  (ok = true → j.Apart → s.content .destination = j.range) ∧ Partly j s

theorem does_copyToTarget (hsource : source = ⟨j.size .source, j.set.logical .source⟩)
    (hdestination : destination = ⟨j.size .destination, j.set.logical .destination⟩) (hs : admitted source = true)
    (hd : admitted destination = true) (hrange : j.sourceOffset + j.length ≤ j.size .source)
    (hinside : Inside j.set j.before) :
    Does ((2 * j.length + 2 : Nat) : ℕ∞) (Moded j b 0)
      (copyToTarget j.set source j.sourceOffset j.length destination) (Returned j) (Partly j) := by
  have hs := divides_of_admitted hs
  have hd := divides_of_admitted hd
  have hstart : ∀ s, Moded j b 0 s → Partly j s := fun s hs => ⟨0, Nat.zero_le _, hs.1⟩
  unfold copyToTarget
  split_ifs with hchecks
  · exact Does.ret (fun s hs => ⟨by simp, hstart s hs⟩)
  obtain ⟨hfits, hbegin, hwhole, hwhole'⟩ : destination.size = j.length ∧
      j.sourceOffset % source.logicalSize = 0 ∧ j.length % source.logicalSize = 0 ∧
      j.length % destination.logicalSize = 0 := by tauto
  have hcost : (1 : ℕ∞) + (((2 * (j.length - 0) : Nat) : ℕ∞) + 1) ≤ ((2 * j.length + 2 : Nat) : ℕ∞) := by
    exact_mod_cast (by omega : 1 + (2 * (j.length - 0) + 1) ≤ 2 * j.length + 2)
  rw [alignment_eq hs.1 hd.1]
  subst hsource hdestination
  have haccepted : j.Accepted := by
    refine ⟨hrange, hs.2, hfits, hinside, ?_, Nat.dvd_of_mod_eq_zero hbegin, ?_⟩
    · rintro (_ | _)
      · exact hs.1
      · exact hd.1
    · rintro (_ | _)
      · exact Nat.dvd_of_mod_eq_zero hwhole
      · exact Nat.dvd_of_mod_eq_zero hwhole'
  have hbuffer : Does 1 (Moded j b 0) (posixMemalign 4096)
      (fun res s => Moded j b 0 s ∧ ∀ address, res = some address → 4096 ∣ address) (Partly j) := by
    refine Spec.call (fun r _ => wt_le_one r) hstart (fun r s _ hs => ⟨by cases r <;> exact hs, ?_⟩)
    cases r <;> simp
  refine Does.mono (Spec.bind hbuffer (fun res => ?_)) hcost
  cases res with
  | none => exact Does.ret (fun s hs => ⟨by simp, hstart s hs.1⟩)
  | some address =>
      refine Spec.conseq (Does.pull (A := 4096 ∣ address) (fun haddress => ?_))
        (fun s hs => ⟨hs.1, hs.2 address rfl⟩) (fun _ _ hs => hs) (fun _ hs => hs) le_rfl
      refine Spec.bind (does_copyLoop haccepted haddress j.length 0 (Nat.zero_le _) (by omega) (by simp)) (fun ok => ?_)
      cases ok with
      | false => exact Does.ret (fun s hs => ⟨by simp, hs.2⟩)
      | true =>
          have hsync := does_succeeds (P := Copying j j.length) (C := Partly j) (fun s hs => ⟨j.length, le_rfl, hs⟩)
          exact hsync.conseq (fun s hs => hs.1 rfl)
            (fun ok s hs => ⟨fun _ hapart => hs.complete haccepted hapart, j.length, le_rfl, hs⟩)
            (fun _ hs => hs) le_rfl

theorem direct_opened (s : State) (fd : Fd) (flags : BitVec 32) :
    ({ s with flags := Function.update s.flags fd (flags ||| oDirect) } : State).direct fd = true := by
  simp only [State.direct, Function.update_self]
  rw [bne_iff_ne]
  intro hzero
  have := congrArg (·.getLsbD 16) hzero
  simp [oDirect] at this

theorem does_copyBlockRangeFromTarget (direct : Bool) (hsource : source = ⟨j.size .source, j.set.logical .source⟩)
    (hs : admitted source = true) (hinside : Inside j.set j.before) :
    Does ((2 * j.length + 9 : Nat) : ℕ∞) (fun s => Copying j 0 s ∧ s.direct .source = direct)
      (copyBlockRangeFromTarget j.set source j.sourceOffset j.length) (Returned j) (Partly j) := by
  have hcost :
      (6 : ℕ∞) + (((2 * j.length + 2 : Nat) : ℕ∞) + (1 + 0)) ≤ ((2 * j.length + 9 : Nat) : ℕ∞) := by
    exact_mod_cast (by omega : 6 + (2 * j.length + 2 + (1 + 0)) ≤ 2 * j.length + 9)
  unfold copyBlockRangeFromTarget
  split_ifs with hchecks
  · exact Does.ret (fun s hs => ⟨by simp, 0, Nat.zero_le _, hs.1⟩)
  have hrange : j.sourceOffset + j.length ≤ j.size .source := by
    have hsize : source.size = j.size .source := by rw [hsource]
    omega
  have hopen := does_openTarget j.set .destination (oRdwr ||| oDirect) (j.size .destination)
    (P := fun s => Copying j 0 s ∧ s.direct .source = direct)
    (O := Moded j (fun fd => if fd = .source then direct else true) 0) (C := Partly j)
    (fun s hs => ⟨0, Nat.zero_le _, hs.1⟩) (fun s hs => ⟨0, Nat.zero_le _, hs.1⟩) ?_ (fun s hs => hs.1.sizes _)
  · refine Does.mono (Spec.bind hopen (fun res => ?_)) hcost
    cases res with
    | none => exact Does.ret (fun s hs => ⟨by simp, hs⟩)
    | some destination =>
        refine Spec.conseq (Does.pull (fun hd => ?_)) (fun s hs => ⟨hs.1, hs.2⟩) (fun _ _ hs => hs) (fun _ hs => hs)
          le_rfl
        refine Spec.bind (does_copyToTarget hsource hd.1 hs hd.2 hrange hinside) (fun ok => ?_)
        exact Spec.bind (does_closeTarget (fun s hs => hs.2)) (fun _ => Spec.ret (fun s hs => hs))
  · intro s hs
    refine ⟨hs.1.same rfl rfl, ?_⟩
    rintro (_ | _)
    · exact hs.2
    · exact direct_opened s .destination oRdwr

end Range

/-- However the kernel answers, the copy ends; what it has written then is a part of the range from its start on, and
all of it if the copy succeeded. -/
theorem copy_writes_range (set : Setting) (source : Target) (sourceOffset length : Nat) (s : State)
    (hsource : source = ⟨(s.content .source).length, set.logical .source⟩) (hadmitted : admitted source = true)
    (hinside : Inside set s) (hapart : Apart set sourceOffset length s) (rs : List Reply) :
    let run := copyBlockRangeFromTarget set source sourceOffset length rs s
    let range := slice (s.content .source) sourceOffset length
    (2 * length + 9 ≤ total wt rs → ∃ ok rs' s', run = .done ok rs' s') ∧
    (∀ rs' s', run = .done true rs' s' → s'.content .destination = range) ∧
    (∃ k ≤ length, run.state.content .destination = range.take k ++ (s.content .destination).drop k) ∧
    (∀ i, Outside set (s.content .destination).length i →
      (run.state.content .source)[i]? = (s.content .source)[i]?) ∧
    ∃ new, run.state.trace = new ++ s.trace ∧ ∀ op ∈ new, Fine set (fun fd => (s.content fd).length) op := by
  intro run range
  have h := does_copyBlockRangeFromTarget (j := ⟨set, sourceOffset, length, s⟩) (s.direct .source) hsource hadmitted
    hinside rs s (fun _ _ => trivial) ⟨.refl _, rfl⟩
  have hrun : copyBlockRangeFromTarget set source sourceOffset length rs s = run := rfl
  dsimp only at h
  rw [hrun] at h
  cases hresult : run with
  | stopped s' =>
      rw [hresult] at h
      obtain ⟨⟨k, hk, hs⟩, hshort⟩ := h
      refine ⟨fun hlong => ?_, fun _ _ hdone => by simp at hdone, ⟨k, hk, hs.destination hapart⟩,
        hs.source hapart,
        hs.trace⟩
      have hshort : total wt rs < 2 * length + 9 := by exact_mod_cast hshort
      omega
  | done ok rs' s' =>
      rw [hresult] at h
      obtain ⟨⟨hok, k, hk, hs⟩, -⟩ := h
      refine ⟨fun _ => ⟨ok, rs', s', rfl⟩, fun rs'' s'' hdone => ?_, ⟨k, hk, hs.destination hapart⟩,
        hs.source hapart,
        hs.trace⟩
      obtain ⟨rfl, rfl, rfl⟩ := Result.done.inj hdone
      exact hok rfl hapart

/-- A disk with blocks of 512 bytes; its last two pages are the destination, which has blocks of a page. -/
def pages : Setting where
  logical | .source => 512 | .destination => 4096
  granule | .source => 512 | .destination => 4096
  place := some 8192

def halfWritten : State where
  content
    | .source => List.replicate 8192 1 ++ List.replicate 8192 0
    | .destination => List.replicate 8192 0
  flags _ := oRdonly ||| oDirect
  trace := []

def partialAnswers : List Reply :=
  List.replicate 6 (.moved 1) ++ [.interrupted, .moved 3, .moved 13, .moved 1, .moved 1] ++ List.replicate 2 (.moved 0)

theorem halfWritten_copied :
    (copyBlockRangeFromTarget pages ⟨16384, 512⟩ 0 8192 partialAnswers halfWritten).value = some true := by
  decide +kernel

theorem copy_writes_range_halves :
    Inside pages halfWritten ∧ Apart pages 0 8192 halfWritten ∧ ∃ rs' s',
      copyBlockRangeFromTarget pages ⟨16384, 512⟩ 0 8192 partialAnswers halfWritten = .done true rs' s' ∧
        s'.content .destination = List.replicate 8192 1 := by
  have hsource : (halfWritten.content .source).length = 16384 := by
    simp only [halfWritten, List.length_append, List.length_replicate]
  have hdestination : (halfWritten.content .destination).length = 8192 := List.length_replicate
  have hinside : Inside pages halfWritten := by
    rintro _ ⟨⟩
    omega
  have hapart : Apart pages 0 8192 halfWritten := by
    rintro _ ⟨⟩
    exact .inr le_rfl
  have hcopy := (copy_writes_range pages ⟨16384, 512⟩ 0 8192 halfWritten (by rw [hsource]; rfl) (by decide) hinside
    hapart partialAnswers).2.1
  obtain ⟨rs', hdone⟩ := Result.done_of_value halfWritten_copied
  exact ⟨hinside, hapart, rs', _, hdone, (hcopy rs' _ hdone).trans (List.take_left' List.length_replicate)⟩

end SuperRaid.TransferRange
