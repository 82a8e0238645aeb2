import SuperRaid.Board
import SuperRaid.PrepareSpec

namespace SuperRaid.PrepareSafety

open Image Footer Volatile Sys Machine Storage PowerPrepare Calls VerifySpec Apps SealSpec PrepareSpec Board Sha256

/-- The applications write to the mounted file system until its gate is closed. -/
def writable (ctl : Ctl) (d : Dev) : Bool := ctl.mounted = some d ∧ ctl.blocked = false

theorem respects_writable : Respects writable := fun ctl d h => by simpa [writable] using h

variable {L : Layout} {sha : Sha} {d : Dev} {p : Bytes}

/-- The peer is as it was, or the active device has been sealed for good. -/
def KeepsCopy (L : Layout) (sha : Sha) (d : Dev) (p : Bytes) (w : World) : Prop :=
  (w.ctl.mounted = some d ∧ w.disk d.other = ⟨p, []⟩ ∧ Sane L d (w.disk d)) ∨
    ∃ img, img.length = L.size d ∧ SealedActive L sha d (fun _ => True) img w ∧ Sane L d.other (w.disk d.other)

theorem prepares_keepsCopy {gate : Ctl → Dev → Bool} (hgate : Respects gate) (hsize : footerAreaSize < L.size d)
    (hp : p.length = L.size d.other) :
    Prepares gate L sha d
      (fun w => w.ctl.mounted = some d ∧ w.disk d.other = ⟨p, []⟩ ∧ Sane L d (w.disk d))
      (· = ⟨p, []⟩) (fun _ => True) (·.length = L.size d) (KeepsCopy L sha d p) where
  respects := hgate
  stable w r hw := ⟨hw.1, by rw [act_disk_closed (hgate.closed_of_mounted hw.1)]; exact hw.2.1, act_sane hw.2.2 r⟩
  safe w hw := .inl hw
  mounted w hw := hw.1
  freeze w hw := ⟨hw.2.1, trivial, hw.2.2.cur_length, hw.2.2.cur_length⟩
  peer disk h := by
    rw [h]
    exact sane_clean hp
  log _ _ _ := trivial
  rewriting img w hlen hw hdisk := .inl ⟨hw.mounted, hw.peer, hdisk.sane hlen (by rwa [hlen])⟩
  sealed img w hlen hw hsane := .inr ⟨img, hlen, hw, hsane⟩

theorem KeepsCopy.survives {w : World} (h : KeepsCopy L sha d p w) (hp : (verifyImage sha p).isSome)
    {img : Dev → Bytes} (himg : ∀ e, Survives (w.disk e) (img e)) : ∃ e, (verifyImage sha (img e)).isSome := by
  rcases h with ⟨-, hpeer, -⟩ | ⟨c, hlen, hw, -⟩
  · refine ⟨d.other, ?_⟩
    have hs := himg d.other
    rw [hpeer] at hs
    rwa [survives_clean rfl hs]
  · refine ⟨d, ?_⟩
    have hs := himg d
    rw [hw.active] at hs
    rw [survives_clean rfl hs, (hw.verifies hlen).2]
    rfl

/-- However far umount_partition gets: the peer is only changed once the active device is sealed for good, one of the
two verifies after any power loss, and a run that reports success leaves two equal devices that verify. -/
theorem umount_keeps_a_copy (hsizes : L.size d.other = L.size d) (w : World) (hmounted : w.ctl.mounted = some d)
    (hactive : Sane L d (w.disk d)) (hp : p.length = L.size d.other) (hpeer : w.disk d.other = ⟨p, []⟩)
    (hverifies : (verifyImage sha p).isSome) (rs : List (Answer (apps writable).Choice)) :
    let v := (umountPartition L sha L.devices rs w).state
    (v.disk d.other ≠ w.disk d.other → (v.disk d).pending = [] ∧ Sealed sha (v.disk d).stable) ∧
    (∀ img : Dev → Bytes, (∀ e, Survives (v.disk e) (img e)) → ∃ e, (verifyImage sha (img e)).isSome) ∧
    (∀ rs', umountPartition L sha L.devices rs w = .done .ok rs' v →
      ∃ img digest, (∀ e, v.disk e = ⟨img, []⟩) ∧ verifyImage sha img = some digest) := by
  intro v
  have hsize : footerAreaSize < L.size d := by
    obtain ⟨digest, hdigest⟩ := Option.isSome_iff_exists.mp hverifies
    have := (verifyImage_eq_some.mp hdigest).1
    omega
  have hprepares : Prepares writable L sha d _ _ _ _ (KeepsCopy L sha d p) :=
    prepares_keepsCopy respects_writable hsize hp
  have hmeets := meets_umountPartition hprepares
  have hkeeps : KeepsCopy L sha d p v := hmeets.reached ⟨hmounted, hpeer, hactive⟩ (fun _ _ h => h.1)
  refine ⟨fun hchanged => ?_, fun img himg => hkeeps.survives hverifies himg, fun rs' hdone => ?_⟩
  · rcases hkeeps with ⟨-, hsame, -⟩ | ⟨img, hlen, hw, -⟩
    · exact absurd (hsame.trans hpeer.symm) hchanged
    · rw [hw.active]
      exact ⟨rfl, (hw.verifies hlen).1⟩
  · obtain ⟨img, hlen, hw, hother⟩ := (hmeets.done ⟨hmounted, hpeer, hactive⟩ hdone).2 rfl
    refine ⟨sealImage sha img, _, fun e => ?_, (hw.verifies hlen).2⟩
    rcases d.eq_or_other e with rfl | rfl
    · exact hw.active
    · exact hother

def beforePrepare : World where
  ctl := { ctl with mounted := some .b }
  disk
    | .a => ⟨sealImage sha256 (blank 0), []⟩
    | .b => ⟨sealImage sha256 (blank 0), [(0, [1, 2, 3])]⟩
  log := []

def prepareAnswers : List (Answer (apps writable).Choice) := List.replicate 64 ⟨[], true, false, 4608, .active, 0⟩

theorem beforePrepare_ends :
    (umountPartition board sha256 board.devices prepareAnswers beforePrepare).value = some .ok := by
  decide +kernel

theorem umount_keeps_a_copy_board : ∃ rs' v img digest,
    umountPartition board sha256 board.devices prepareAnswers beforePrepare = .done .ok rs' v ∧
    (∀ e, v.disk e = ⟨img, []⟩) ∧ verifyImage sha256 img = some digest ∧
    ∀ img : Dev → Bytes, (∀ e, Survives (v.disk e) (img e)) → ∃ e, (verifyImage sha256 (img e)).isSome := by
  have hactive : Sane board .b (beforePrepare.disk .b) := by
    refine ⟨(sealed_blank 0).1, fun v hv => ?_⟩
    rw [List.mem_singleton.mp hv, Fits, beforePrepare, (sealed_blank 0).1]
    decide
  have hpeer : beforePrepare.disk (Dev.b).other = ⟨sealImage sha256 (blank 0), []⟩ := rfl
  obtain ⟨-, hsurvives, hok⟩ := umount_keeps_a_copy rfl beforePrepare rfl hactive (sealed_blank 0).1 hpeer
    (sealed_blank 0).2 prepareAnswers
  obtain ⟨rs', hdone⟩ := Result.done_of_value beforePrepare_ends
  obtain ⟨img, digest, hequal, hdigest⟩ := hok rs' hdone
  exact ⟨rs', _, img, digest, hdone, hequal, hdigest, hsurvives⟩

end SuperRaid.PrepareSafety
