import SuperRaid.Board
import SuperRaid.RacingHash

namespace SuperRaid.Convergence

open Image Footer Volatile Sys Machine Storage Recovery Calls StorageSpec Apps MountSpec RecoverSpec BootImages
  PartitionSpec BootSpec RacingHash Board Sha256

variable {env : Env} {L : Layout} {sha : Sha} {disk : Dev → Disk} {old : List Event}

def selectedState (L : Layout) (sha : Sha) (disk : Dev → Disk) (digest : Bytes) : AppState :=
  ⟨L.name (selected sha disk), L.name (selected sha disk).other, digest⟩

theorem candidates_nth {i : Nat} {pair : Path × Path}
    (h : [(L.name (nth 0), L.name (nth 1)), (L.name (nth 1), L.name (nth 0))][i]? = some pair) :
    pair = (L.name (nth i), L.name (nth i).other) := by
  match i, h with
  | 0, h => exact (Option.some.inj h).symm
  | 1, h => exact (Option.some.inj h).symm

theorem meets_mountPartition_boot (hstill : Still env) (hgeom : Geometry L) (hsane : ∀ e, Sane L e (disk e))
    (hsome : ∃ e, (verifyImage sha (disk e).cur).isSome) :
    Meets true 299 (Untouched disk none old Unwritten)
      (mountPartition L sha L.devices : Run env (Except Failure AppState))
      (fun res w => ∃ digest, (verifyImage sha (disk (selected sha disk)).cur = some digest ∧
        res = .ok (selectedState L sha disk digest)) ∧
        Untouched disk (some (selected sha disk)) old (OnlyRepairs L sha disk digest) w) (fun _ => True) := by
  have hmeets := meets_mountPartition (mountPlan_boot hstill hgeom hsane hsome old) (splitSpec_devices L)
  refine (hmeets.post (fun res w hres => ?_)).pre (fun w hw => ⟨hw, by simp⟩)
  cases res with
  | error code => exact hres.elim
  | ok st =>
      obtain ⟨i, hi, hw, hdigest, hselected⟩ := hres
      rw [Nat.zero_add] at hw hdigest hselected
      obtain ⟨mountedDev, otherDev, digest⟩ := st
      obtain ⟨rfl, rfl⟩ := Prod.mk.inj (candidates_nth hi)
      rw [← hselected] at hw hdigest ⊢
      exact ⟨digest, ⟨hdigest, rfl⟩, hw⟩

def bootCost (L : Layout) : Nat := copyCost L + 4204

theorem meets_fsctlMount_boot (hstill : Still env) (hgeom : Geometry L) (hsane : ∀ e, Sane L e (disk e))
    (hsome : ∃ e, (verifyImage sha (disk e).cur).isSome) :
    Meets true (bootCost L) (Untouched disk none old Unwritten) (fsctlMount L sha L.devices : Run env ExitCode)
      (fun code w => code = .ok ∧ ∃ digest, verifyImage sha (disk (selected sha disk)).cur = some digest ∧
        Recovered L sha disk digest old w) (fun _ => True) := by
  refine (Meets.bind (m := 299) (n := copyCost L + 3905) (F := fun _ => True)
    ((meets_mountPartition_boot hstill hgeom hsane hsome).post (fun _ _ hw => ⟨hw, trivial⟩))
    (fun res _ => ?_)).mono
    (by unfold bootCost; omega)
  refine Meets.exists (fun digest => Meets.of_pre (fun ⟨hdigest, hres⟩ => ?_))
  subst hres
  refine (meets_recoverAppParam (recoverPlan_boot hstill hgeom hsane hdigest old)).post (fun res w hw => ?_)
  obtain ⟨code, ⟨hok, hw⟩, -, hres⟩ := hw
  exact ⟨(hres rfl).trans hok, digest, hdigest, hw⟩

theorem fsctlMount_boot (hstill : Still env) (hgeom : Geometry L) {w : World} (hmounted : w.ctl.mounted = none)
    (hsane : ∀ e, Sane L e (w.disk e)) (hsome : ∃ e, (verifyImage sha (w.disk e).cur).isSome)
    {rs : List (Answer env.Choice)} (hrs : ∀ r ∈ rs, r.ok = true ∧ 0 < r.count ∧ env.Exact r.choice)
    (hlen : bootCost L ≤ rs.length) :
    ∃ digest rs' w', verifyImage sha (w.disk (selected sha w.disk)).cur = some digest ∧
      fsctlMount L sha L.devices rs w = .done .ok rs' w' ∧ Recovered L sha w.disk digest w.log w' := by
  have hstart : Untouched w.disk none w.log Unwritten w := ⟨hmounted, rfl, logSince_self (by simp [Unwritten])⟩
  obtain ⟨code, rs', w', hdone, rfl, digest, hdigest, hw'⟩ :=
    (meets_fsctlMount_boot hstill hgeom hsane hsome).total hstart hrs hlen
  exact ⟨digest, rs', w', hdigest, hdone, hw'⟩

theorem exact_of_none {rs : List (Answer racing.Choice)} (hrs : ∀ r ∈ rs, r.ok = true ∧ 0 < r.count)
    (hnone : ∀ r ∈ rs, r.choice = none) : ∀ r ∈ rs, r.ok = true ∧ 0 < r.count ∧ racing.Exact r.choice := by
  intro r hr
  rw [hnone r hr]
  exact ⟨(hrs r hr).1, (hrs r hr).2, exact_none⟩

/-- If all calls succeed and hash_sha256_fd digests all bytes, a boot mounts the first device that verifies, does not
write it, and leaves two devices that verify with its digest. A boot from there mounts A, finds the same digest and
writes nothing. -/
theorem fsctl_mount_converges (hgeom : Geometry L) (w : World) (hmounted : w.ctl.mounted = none)
    (hsane : ∀ e, Sane L e (w.disk e)) (hsome : ∃ e, (verifyImage sha (w.disk e).cur).isSome)
    (rs : List (Answer racing.Choice)) (hrs : ∀ r ∈ rs, r.ok = true ∧ 0 < r.count)
    (hnone : ∀ r ∈ rs, r.choice = none) (hlen : bootCost L ≤ rs.length) :
    ∃ d digest rs' w' new, d = (if (verifyImage sha (w.disk .a).cur).isSome then Dev.a else Dev.b) ∧
      verifyImage sha (w.disk d).cur = some digest ∧
      fsctlMount L sha L.devices rs w = .done .ok rs' w' ∧ w'.ctl.mounted = some d ∧
      w'.log = new ++ w.log ∧ .wrote d ∉ new ∧ w'.disk d = w.disk d ∧
      (∀ e, verifyImage sha (w'.disk e).cur = some digest) ∧
      ∀ (v : World) (rs₂ : List (Answer racing.Choice)), v.ctl.mounted = none → (∀ e, Sane L e (v.disk e)) →
        (∀ e, (v.disk e).cur = (w'.disk e).cur) → (∀ r ∈ rs₂, r.ok = true ∧ 0 < r.count) →
        (∀ r ∈ rs₂, r.choice = none) → bootCost L ≤ rs₂.length →
        ∃ rs₂' v' new₂, fsctlMount L sha L.devices rs₂ v = .done .ok rs₂' v' ∧ v'.ctl.mounted = some .a ∧
          v'.log = new₂ ++ v.log ∧ .verified (L.name .a) (.ok digest) ∈ new₂ ∧
          (∀ e, .wrote e ∉ new₂) ∧
          v'.disk = v.disk := by
  obtain ⟨digest, rs', w', hdigest, hdone, hend⟩ :=
    fsctlMount_boot still_racing hgeom hmounted hsane hsome (exact_of_none hrs hnone) hlen
  obtain ⟨new, hlog, hnew⟩ := hend.log
  have hboth : ∀ e, verifyImage sha (w'.disk e).cur = some digest := fun e => by
    rw [hend.same, verify_recovered, hdigest]
  refine ⟨selected sha w.disk, digest, rs', w', new, rfl, hdigest, hdone, hend.mounted, hlog,
    fun h => hnew.2 _ h hdigest, by rw [hend.same, recovered_selected], hboth, ?_⟩
  intro v rs₂ hvmounted hvsane hvcur hrs₂ hnone₂ hlen₂
  have hv : ∀ e, verifyImage sha (v.disk e).cur = some digest := fun e => by rw [hvcur, hboth]
  obtain ⟨hselected, hrecovered⟩ := recovered_of_agree hv
  have hvsome : (verifyImage sha (v.disk .a).cur).isSome := by
    rw [hv]
    rfl
  obtain ⟨digest₂, rs₂', v', hdigest₂, hdone₂, hend₂⟩ :=
    fsctlMount_boot still_racing hgeom hvmounted hvsane ⟨.a, hvsome⟩ (exact_of_none hrs₂ hnone₂) hlen₂
  obtain rfl : digest₂ = digest := Option.some.inj (hdigest₂.symm.trans (hv _))
  obtain ⟨new₂, hlog₂, hnew₂⟩ := hend₂.log
  exact ⟨rs₂', v', new₂, hdone₂, hselected ▸ hend₂.mounted, hlog₂, hselected ▸ hnew₂.1,
    fun e he => hnew₂.2 e he (hv e), hend₂.same.trans hrecovered⟩

theorem geometry_board : Geometry board where
  sizes _ _ := rfl
  supported := by rintro (_ | _) <;> decide
  parent := by
    have hlen : (board.target .parent).size = 512 * 20 := List.length_replicate
    have hlogical : (board.target .parent).logicalSize = 512 := rfl
    rw [Storage.supported, hlen, hlogical]
    decide
  start := by rintro (_ | _) <;> decide
  fits := by
    have hlen : board.parentRest.length = 512 * 20 := List.length_replicate
    rintro (_ | _) <;> (rw [hlen]; decide)
  disjoint := .inl (by decide)
  aligned := by rintro (_ | _) <;> decide

/-- Partition A without a descriptor, partition B sealed. -/
def lostFirst : World where
  ctl := ctl
  disk
    | .a => ⟨blank 0, []⟩
    | .b => ⟨sealImage sha256 (blank 1), []⟩
  log := []

theorem fsctl_mount_converges_board : ∃ rs rs' w',
    (fsctlMount board sha256 board.devices : Run racing ExitCode) rs lostFirst = .done .ok rs' w' ∧
      ∃ digest, ∀ e, verifyImage sha256 (w'.disk e).cur = some digest := by
  have hsane : ∀ e, Sane board e (lostFirst.disk e) := by
    rintro (_ | _)
    · exact sane_clean (blank_length 0)
    · exact sane_clean (sealed_blank 1).1
  obtain ⟨_, digest, rs', w', _, _, _, hdone, _, _, _, _, hboth, _⟩ :=
    fsctl_mount_converges geometry_board lostFirst rfl
    hsane ⟨.b, (sealed_blank 1).2⟩ (List.replicate (bootCost board) ⟨none, true, false, 1, .active, 0⟩)
    (fun r hr => by rw [List.eq_of_mem_replicate hr]; decide) (fun r hr => by rw [List.eq_of_mem_replicate hr])
    (by rw [List.length_replicate])
  exact ⟨_, rs', w', hdone, digest, hboth⟩

def bothSealed : World where
  ctl := ctl
  disk _ := ⟨sealImage sha256 (blank 1), []⟩
  log := []

/-- Every call of a boot succeeds, but the first hash misses everything. -/
def staleBoot : List (Answer racing.Choice) :=
  List.replicate 15 ⟨none, true, false, 128, .active, 0⟩ ++ ⟨some 0, true, false, 128, .active, 0⟩ ::
    List.replicate 64 ⟨none, true, false, 128, .active, 0⟩

theorem staleBoot_ends :
    let outcome := fsctlMount board sha256 board.devices staleBoot bothSealed
    (outcome.value, outcome.state.ctl.mounted) = (some .ok, some .b) := by
  decide +kernel

/-- Both devices verify and every call of the boot succeeds, but the threads of the first hash_sha256_fd miss the chunk
they were to digest: the boot does not mount A. -/
theorem stale_hash_skips_first :
    (∀ e, (verifyImage sha256 (bothSealed.disk e).cur).isSome) ∧
    (∀ r ∈ staleBoot, r.ok = true ∧ 0 < r.count) ∧
    (∃ s, Transition.run (HashRing.step (HashRing.collecting sha256.hash) (bothSealed.disk .a).cur 512)
        (HashRing.initial (HashRing.collecting sha256.hash) []) (missEverything 512) = some s ∧
      s.main.pc = .returned 0 ∧
      s.main.digest = sha256.hash (slice (bothSealed.disk .a).cur 0 (racing.digested (some 0) 512))) ∧
    ∃ rs' w', fsctlMount board sha256 board.devices staleBoot bothSealed = .done .ok rs' w' ∧
      w'.ctl.mounted = some .b := by
  refine ⟨fun e => (sealed_blank 1).2, by decide, ?_, ?_⟩
  · have hlen : (bothSealed.disk .a).cur.length = 4608 := (sealed_blank 1).1
    exact missEverything_run (HashRing.collecting sha256.hash) [] (by decide) (by decide) (by rw [hlen]; decide)
  · obtain ⟨hvalue, hmounted⟩ := Prod.mk.inj staleBoot_ends
    obtain ⟨rs', hdone⟩ := Result.done_of_value hvalue
    exact ⟨rs', _, hdone, hmounted⟩

end SuperRaid.Convergence
