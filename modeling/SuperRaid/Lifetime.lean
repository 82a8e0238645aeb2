import SuperRaid.PrepareSafety
import SuperRaid.SafeBoot
import SuperRaid.SealVerify
import SuperRaid.WaitSpec

namespace SuperRaid.Lifetime

open Image Footer Volatile Sys Machine Storage Recovery PowerPrepare Calls VerifySpec Apps SealSpec PrepareSpec WaitSpec
  PrepareSafety SafeBoot SealVerify ReleaseSpec Board Sha256

/-- The board is without power, at some point inside a boot or a power prepare, or in normal operation. -/
inductive Phase
  | off | busy | normal

structure Moment where
  phase : Phase
  world : World

structure Fresh (ctl : Ctl) : Prop where
  mounted : ctl.mounted = none
  blocked : ctl.blocked = false
  recovered : ctl.recovered = false
  restored : ctl.restored = false
  service : ctl.service = .start

def serviceEnds (code : ExitCode) (w : World) : World :=
  { w with ctl := { w.ctl with service := if code = .ok then .exited else .other } }

/-- What can happen next. The programs can be stopped at any of their calls, and only a power loss stops them. -/
inductive Step (L : Layout) (sha : Sha) (gate : Ctl → Dev → Bool) : Moment → Moment → Prop
  | booting {w w' : World} (rs : List (Answer (apps gate).Choice))
      (h : fsctlMount L sha L.devices rs w = .stopped w') : Step L sha gate ⟨.off, w⟩ ⟨.busy, w'⟩
  | booted {w w' : World} {code : ExitCode} (rs rs' : List (Answer (apps gate).Choice))
      (h : fsctlMount L sha L.devices rs w = .done code rs' w') :
      Step L sha gate ⟨.off, w⟩ ⟨.normal, serviceEnds code w'⟩
  | writes {w : World} (r : Answer (apps gate).Choice) :
    Step L sha gate ⟨.normal, w⟩ ⟨.normal, w.act (apps gate) r⟩
  | preparing {w w' : World} (rs : List (Answer (apps gate).Choice))
      (h : prepareAppParam L sha L.devices rs w = .stopped w') : Step L sha gate ⟨.normal, w⟩ ⟨.busy, w'⟩
  | prepared {w w' : World} {b : Bool} (rs rs' : List (Answer (apps gate).Choice))
      (h : prepareAppParam L sha L.devices rs w = .done b rs' w') : Step L sha gate ⟨.normal, w⟩ ⟨.normal, w'⟩
  | powerLoss {phase : Phase} {w : World} (ctl : Ctl) (img : Dev → Bytes) (hctl : Fresh ctl)
      (himg : ∀ e, Survives (w.disk e) (img e)) :
      Step L sha gate ⟨phase, w⟩ ⟨.off, ⟨ctl, fun e => ⟨img e, []⟩, w.log⟩⟩

structure Off (img : Dev → Bytes) (w : World) : Prop where
  fresh : Fresh w.ctl
  disk : w.disk = fun e => ⟨img e, []⟩

variable {L : Layout} {sha : Sha} {d : Dev} {X : Bytes}

structure SealedImage (L : Layout) (sha : Sha) (d : Dev) (X : Bytes) : Prop where
  supported : supported (L.target (.part d)) = true
  length : X.length = L.size d
  sealed : Sealed sha X

/-- The mounted device d is sealed and frozen; it may be about to be sealed again. -/
structure Fixed (L : Layout) (sha : Sha) (d : Dev) (X : Bytes) (w : World) : Prop where
  mounted : w.ctl.mounted = some d
  blocked : w.ctl.blocked = true
  active : Rewriting sha X (w.disk d)
  peer : Sane L d.other (w.disk d.other)

theorem SealedImage.sizes (h : SealedImage L sha d X) : footerAreaSize < X.length ∧ X.length < 2 ^ 63 := by
  have hsup := h.supported
  simp only [Storage.supported, decide_eq_true_eq] at hsup
  rw [h.length]
  exact ⟨hsup.1, hsup.2.1⟩

theorem SealedImage.passes (h : SealedImage L sha d X) : Passes L sha d X := by
  refine ⟨h.supported, ?_⟩
  rw [h.sealed.verifies h.sizes.1 h.sizes.2]
  rfl

theorem SealedImage.survives (h : SealedImage L sha d X) {disk : Disk} (hdisk : Rewriting sha X disk) {Y : Bytes}
    (hY : Survives disk Y) : Y = X := by
  have hfour : descriptorSize ≤ footerAreaSize := by decide
  have hsize := h.sizes.1
  rw [← hdisk.1]
  refine survives_same hY (fun v hv => ?_)
  obtain ⟨k, hk, hfit, hv⟩ := hdisk.2 v hv
  have hbytes : sealBytes sha X = slice X (X.length - descriptorSize) descriptorSize := h.sealed.symm
  rw [hbytes] at hv
  rw [sealBytes_length] at hfit
  rw [slice_slice hfit] at hv
  rw [hdisk.1, hk, ← hv]

theorem Fixed.sane {w : World} (h : Fixed L sha d X w) (hX : SealedImage L sha d X) (e : Dev) :
    Sane L e (w.disk e) := by
  rcases d.eq_or_other e with rfl | rfl
  · exact h.active.sane hX.length hX.sizes.1
  · exact h.peer

theorem Fixed.alive {w : World} (h : Fixed L sha d X w) (hX : SealedImage L sha d X) : Alive L sha w := by
  refine ⟨h.sane hX, d, fun Y hY => ?_⟩
  rw [hX.survives h.active hY]
  exact hX.passes

theorem Fixed.act {w : World} (h : Fixed L sha d X w) (r : Answer (apps released).Choice) :
    Fixed L sha d X (w.act (apps released) r) := by
  have hsame : ∀ e, (w.act (apps released) r).disk e = w.disk e := fun e =>
    act_disk_closed (respects_released.closed_of_blocked e h.blocked) r
  exact ⟨h.mounted, h.blocked, by rw [hsame]; exact h.active, by rw [hsame]; exact h.peer⟩

theorem prepares_fixed (hX : SealedImage L sha d X) :
    Prepares released L sha d (Fixed L sha d X) (Sane L d.other) (fun _ => True) (· = X) (Fixed L sha d X) where
  respects := respects_released
  stable w r hw := hw.act r
  safe _ hw := hw
  mounted _ hw := hw.mounted
  freeze w hw := by
    have hcur : (w.disk d).cur = X := hX.survives hw.active (survives_cur (hw.sane hX d).bounded)
    exact ⟨hw.peer, trivial, hcur, by rw [hcur]; exact hX.length⟩
  peer _ h := h
  log _ _ _ := trivial
  rewriting img w hG hw hdisk := ⟨hw.mounted, hw.blocked, hG ▸ hdisk, hw.peer⟩
  sealed img w hG hw hsane := by
    refine ⟨hw.mounted, hw.blocked, ?_, hsane⟩
    rw [hw.active, hG, (sealed_iff_sealImage hX.sizes.1).mp hX.sealed]
    exact rewriting_clean sha X

/-- What is known in normal operation: recovery has failed and so has the mount service, the peer of the mounted device
passes a verify, or the mounted device has been sealed for good. -/
inductive Kept (L : Layout) (sha : Sha) (w : World) : Prop
  | unrecovered (h : Unrecovered L sha w) (hservice : w.ctl.service ≠ .exited)
  | held (d : Dev) (h : Held L sha d w)
  | fixed (d : Dev) (X : Bytes) (hX : SealedImage L sha d X) (h : Fixed L sha d X w)

theorem Kept.alive {w : World} (h : Kept L sha w) : Alive L sha w := by
  cases h with
  | unrecovered h _ => exact h.alive
  | held d h => exact h.alive
  | fixed d X hX h => exact h.alive hX

theorem Kept.act {w : World} (h : Kept L sha w) (r : Answer (apps released).Choice) :
    Kept L sha (w.act (apps released) r) := by
  cases h with
  | unrecovered h hservice => exact .unrecovered (h.act r) hservice
  | held d h => exact .held d (h.act r)
  | fixed d X hX h => exact .fixed d X hX (h.act r)

theorem kept_of_keepsCopy {w : World} {p : Bytes} (hsize : footerAreaSize < L.size d) (hlen : p.length = L.size d.other)
    (hp : Passes L sha d.other p) (h : KeepsCopy L sha d p w) : Kept L sha w := by
  rcases h with ⟨hmounted, hpeer, hsane⟩ | ⟨img, himg, hw, hsane⟩
  · exact .held d ⟨hmounted, hsize, hsane, p, hlen, hpeer, hp⟩
  · have hX : SealedImage L sha d (sealImage sha img) :=
      ⟨hw.supported, sealImage_length_eq himg hw.supported, (hw.verifies himg).1⟩
    refine .fixed d (sealImage sha img) hX ⟨hw.mounted, hw.blocked, ?_, hsane⟩
    rw [hw.active]
    exact rewriting_clean sha _

theorem meets_prepareAppParam_kept :
    Meets false 1805 (Kept L sha) (prepareAppParam L sha L.devices : Run (apps released) Bool) (fun _ => Kept L sha)
      (Alive L sha) := by
  have hprepare {P K : World → Prop} (hstable : Stable (apps released) P) (htick : ∀ w n, P w → P (tick w n))
      (hkept : ∀ w, P w → Kept L sha w) (hK : ∀ w, K w → Kept L sha w)
      (h : Meets false 0 (fun w => P w ∧ w.ctl.service = .exited)
        (umountPartition L sha L.devices : Run (apps released) ExitCode)
        (fun _ => K) K) :
      Meets false 1805 P (prepareAppParam L sha L.devices : Run (apps released) Bool) (fun _ => Kept L sha)
        (Alive L sha) :=
    meets_prepareAppParam hstable (fun w hw => (hkept w hw).alive) htick hkept
      (Spec.conseq h (fun _ hw => hw) (fun _ w hw => hK w hw) (fun w hw => (hK w hw).alive) le_rfl)
  intro rs w hrs hw
  cases hw with
  | unrecovered h hservice =>
      refine hprepare (P := fun w => Unrecovered L sha w ∧ w.ctl.service ≠ .exited) (K := fun _ => False)
        (fun w r hw => ⟨hw.1.act r, hw.2⟩) (fun w n hw => ⟨⟨hw.1.recovered, hw.1.sane, hw.1.good⟩, hw.2⟩)
        (fun w hw => .unrecovered hw.1 hw.2) (fun _ hw => hw.elim) ?_ rs w hrs ⟨h, hservice⟩
      exact fun _ _ _ hw => absurd hw.2 hw.1.2
  | held d h =>
      obtain ⟨p, hlen, hpeer, hp⟩ := h.good
      have hprepares : Prepares released L sha d _ _ _ _ (KeepsCopy L sha d p) :=
        prepares_keepsCopy respects_released h.size hlen
      refine hprepare hprepares.stable (fun _ _ hw => hw) (fun w hw => kept_of_keepsCopy h.size hlen hp (.inl hw))
        (fun w hw => kept_of_keepsCopy h.size hlen hp hw) ?_ rs w hrs ⟨h.mounted, hpeer, h.sane⟩
      exact ((meets_umountPartition hprepares).post (fun _ _ hw => hw.1)).pre (fun _ hw => hw.1)
  | fixed d X hX h =>
      have hprepares := prepares_fixed hX
      refine hprepare hprepares.stable (fun w n hw => ⟨hw.mounted, hw.blocked, hw.active, hw.peer⟩)
        (fun w hw => .fixed d X hX hw) (fun w hw => .fixed d X hX hw) ?_ rs w hrs h
      exact ((meets_umountPartition hprepares).post (fun _ _ hw => hw.1)).pre (fun _ hw => hw.1)

inductive Good (L : Layout) (sha : Sha) : Moment → Prop
  | off {w : World} (img : Dev → Bytes) (himg : ∀ e, (img e).length = L.size e) (h : Off img w)
      (hgood : ∃ e, Passes L sha e (img e)) : Good L sha ⟨.off, w⟩
  | busy {w : World} (h : Alive L sha w) : Good L sha ⟨.busy, w⟩
  | normal {w : World} (h : Kept L sha w) : Good L sha ⟨.normal, w⟩

theorem Good.alive {m : Moment} (h : Good L sha m) : Alive L sha m.world := by
  cases h with
  | busy h => exact h
  | normal h => exact h.alive
  | off img himg h hgood =>
      obtain ⟨e, he⟩ := hgood
      refine alive_of_clean (fun e => ?_) (by rw [h.disk]) he
      rw [h.disk]
      exact sane_clean (himg e)

theorem Off.resting {img : Dev → Bytes} {w : World} (h : Off img w) : Resting img w := ⟨h.fresh.recovered, h.disk⟩

theorem Good.step {m m' : Moment} (h : Good L sha m) (hstep : Step L sha released m m') : Good L sha m' := by
  cases hstep with
  | booting rs hrun =>
      cases h with
      | off img himg h hgood =>
          have hmeets := meets_fsctlMount_safe himg hgood
          have hreached := hmeets rs _ (fun _ _ ht => absurd ht (by decide)) h.resting
          rw [hrun] at hreached
          exact .busy hreached.1
  | booted rs rs' hrun =>
      cases h with
      | off img himg h hgood =>
          rcases (meets_fsctlMount_safe himg hgood).done h.resting hrun with ⟨d, hheld⟩ | ⟨hfailed, hcode⟩
          · exact .normal (.held d ⟨hheld.mounted, hheld.size, hheld.sane, hheld.good⟩)
          · refine .normal (.unrecovered ⟨hfailed.recovered, hfailed.sane, hfailed.good⟩ ?_)
            simp [serviceEnds, hcode]
  | writes r =>
      cases h with
      | normal h => exact .normal (h.act r)
  | preparing rs hrun =>
      cases h with
      | normal h =>
          have hreached := meets_prepareAppParam_kept rs _ (fun _ _ ht => absurd ht (by decide)) h
          rw [hrun] at hreached
          exact .busy hreached.1
  | prepared rs rs' hrun =>
      cases h with
      | normal h => exact .normal (meets_prepareAppParam_kept.done h hrun)
  | powerLoss ctl img hctl himg =>
      obtain ⟨hsane, e, he⟩ := h.alive
      exact .off img (fun e => (himg e).1.trans (hsane e).length) ⟨hctl, rfl⟩ ⟨e, he _ (himg e)⟩

/-- In every run of boots, normal operation, power prepares and power losses, if the applications write to the mounted
device only after a recovery that succeeded, one of the devices passes a verify at every moment. -/
theorem a_device_always_passes (w : World) (img : Dev → Bytes) (hoff : Off img w)
    (himg : ∀ e, (img e).length = L.size e)
    (hsome : ∃ e, Passes L sha e (img e)) (m : Moment)
    (hrun : Relation.ReflTransGen (Step L sha released) ⟨.off, w⟩ m) :
    ∃ e, Passes L sha e (m.world.disk e).cur := by
  have hgood : Good L sha m := by
    induction hrun with
    | refl => exact .off img himg hoff hsome
    | tail _ hstep ih => exact ih.step hstep
  obtain ⟨hsane, e, he⟩ := hgood.alive
  exact ⟨e, he _ (survives_cur (hsane e).bounded)⟩

def oneSealed : Dev → Bytes
  | .a => sealImage sha256 (blank 0)
  | .b => blank 0

def beforeBoot : World := ⟨ctl, fun e => ⟨oneSealed e, []⟩, []⟩

theorem off_beforeBoot : Off oneSealed beforeBoot := ⟨⟨rfl, rfl, rfl, rfl, rfl⟩, rfl⟩

theorem oneSealed_length (e : Dev) : (oneSealed e).length = board.size e := by
  cases e with
  | a => exact (sealed_blank 0).1
  | b => exact blank_length 0

theorem oneSealed_passes : ∃ e, Passes board sha256 e (oneSealed e) := ⟨.a, by decide, (sealed_blank 0).2⟩

def stoppedBoot : Result World (Answer (apps released).Choice) ExitCode :=
  fsctlMount board sha256 board.devices (List.replicate 12 ⟨[], true, false, 4608, .active, 0⟩) beforeBoot

theorem a_device_always_passes_board : ∃ m, m.phase = .busy ∧
    Relation.ReflTransGen (Step board sha256 released) ⟨.off, beforeBoot⟩ m ∧
    ∃ e, Passes board sha256 e (m.world.disk e).cur := by
  have hstops : (match stoppedBoot with | .done _ _ _ => false | .stopped _ => true) = true := by decide +kernel
  cases hboot : stoppedBoot with
  | done code rs' w => rw [hboot] at hstops; cases hstops
  | stopped w =>
      have hrun : Relation.ReflTransGen (Step board sha256 released) ⟨.off, beforeBoot⟩ ⟨.busy, w⟩ :=
        .single (.booting _ hboot)
      exact ⟨⟨.busy, w⟩, rfl, hrun,
        a_device_always_passes beforeBoot oneSealed off_beforeBoot oneSealed_length oneSealed_passes
        ⟨.busy, w⟩ hrun⟩

/-- The applications write once the settings have been restored, however recovery has ended. -/
def settled (ctl : Ctl) (d : Dev) : Bool := ctl.mounted = some d ∧ ctl.blocked = false ∧ ctl.restored = true

def answer (ok : Bool) (writes : List (Dev × Nat × Bytes)) : Answer (apps settled).Choice :=
  ⟨writes, ok, false, 4608, .active, 0⟩

def failedBoot : Result World (Answer (apps settled).Choice) ExitCode :=
  fsctlMount board sha256 board.devices
    (List.replicate 28 (answer true []) ++ answer false [] :: List.replicate 3 (answer true [])) beforeBoot

def afterWrite (w : World) : World :=
  (serviceEnds (.failed .ioError) w).act (apps settled) (answer true [(.a, 0, [1])])

def losesBoth : Result World (Answer (apps settled).Choice) ExitCode → Bool
  | .done (.failed .ioError) _ w =>
      (verifyImage sha256 ((afterWrite w).disk .a).cur).isNone &&
        (verifyImage sha256 ((afterWrite w).disk .b).cur).isNone
  | _ => false

theorem exists_of_losesBoth {res : Result World (Answer (apps settled).Choice) ExitCode} (h : losesBoth res = true) :
    ∃ rs' w, res = .done (.failed .ioError) rs' w ∧
      ∀ e, verifyImage sha256 ((afterWrite w).disk e).cur = none := by
  unfold losesBoth at h
  split at h
  case h_2 => exact absurd h (by decide)
  case h_1 rs' w =>
      rw [Bool.and_eq_true, Option.isNone_iff_eq_none, Option.isNone_iff_eq_none] at h
      refine ⟨rs', w, rfl, ?_⟩
      rintro (_ | _)
      · exact h.1
      · exact h.2

theorem losesBoth_failedBoot : losesBoth failedBoot = true := by decide +kernel

/-- When recovery has failed the settings are restored all the same, and a write to the mounted device, the only one
that passed, leaves none. -/
theorem failed_recovery_loses_both : Off oneSealed beforeBoot ∧ (∀ e, (oneSealed e).length = board.size e) ∧
    (∃ e, Passes board sha256 e (oneSealed e)) ∧
    ∃ m, Relation.ReflTransGen (Step board sha256 settled) ⟨.off, beforeBoot⟩ m ∧
      ∀ e, ¬Passes board sha256 e (m.world.disk e).cur := by
  obtain ⟨rs', w, hrun, hnone⟩ := exists_of_losesBoth losesBoth_failedBoot
  refine ⟨off_beforeBoot, oneSealed_length, oneSealed_passes, ⟨.normal, afterWrite w⟩,
    .tail (.single (.booted _ rs' hrun)) (.writes _), fun e hpasses => ?_⟩
  have hverifies := hpasses.2
  rw [hnone e] at hverifies
  exact absurd hverifies (by decide)

end SuperRaid.Lifetime
