import SuperRaid.Convergence
import SuperRaid.PrepareSafety
import SuperRaid.SealVerify
import SuperRaid.WaitSpec

namespace SuperRaid.Rollback

open Image Footer Volatile Sys Machine Storage Recovery PowerPrepare Calls VerifySpec Apps SealSpec PrepareSpec WaitSpec
  PartitionSpec BootImages BootSpec Convergence PrepareSafety SealVerify Board Sha256

variable {L : Layout} {sha : Sha} {d : Dev} {old : List Event}

def Unsealed (old log : List Event) : Prop := ∃ new, log = new ++ old ∧ ∀ path digest, .sealed path digest ∉ new

/-- Nothing has been sealed yet, or the active device has been, once and for good. -/
def SealedOnce (L : Layout) (sha : Sha) (d : Dev) (old : List Event) (w : World) : Prop :=
  Unsealed old w.log ∨
    ∃ img, img.length = L.size d ∧ SealedActive L sha d (Unsealed old) img w ∧ Sane L d.other (w.disk d.other)

theorem Unsealed.cons {log : List Event} (h : Unsealed old log) (e : Dev) : Unsealed old (.wrote e :: log) := by
  obtain ⟨new, rfl, hnew⟩ := h
  refine ⟨.wrote e :: new, rfl, fun path digest hmem => hnew path digest ?_⟩
  exact (List.mem_cons.mp hmem).resolve_left (by simp)

theorem prepares_sealedOnce :
    Prepares writable L sha d
      (fun w => w.ctl.mounted = some d ∧ (∀ e, Sane L e (w.disk e)) ∧ Unsealed old w.log)
      (Sane L d.other) (Unsealed old) (·.length = L.size d) (SealedOnce L sha d old) where
  respects := respects_writable
  stable _ r hw := ⟨hw.1, fun e => act_sane (hw.2.1 e) r, hw.2.2⟩
  safe _ hw := .inl hw.2.2
  mounted _ hw := hw.1
  freeze _ hw := ⟨hw.2.1 _, hw.2.2, (hw.2.1 d).cur_length, (hw.2.1 d).cur_length⟩
  peer _ h := h
  log _ e h := h.cons e
  rewriting _ _ _ hw _ := .inl hw.log
  sealed img _ hlen hw hsane := .inr ⟨img, hlen, hw, hsane⟩

def Prepared (L : Layout) (sha : Sha) (w : World) (rs : List (Answer (apps writable).Choice)) (v : World) : Prop :=
  v = (umountPartition L sha L.devices rs w).state ∨ v = (prepareAppParam L sha L.devices rs w).state

theorem sealedOnce_of_prepared {w v : World} (hmounted : w.ctl.mounted = some d)
    (hsane : ∀ e, Sane L e (w.disk e)) {rs : List (Answer (apps writable).Choice)} (hv : Prepared L sha w rs v) :
    SealedOnce L sha d w.log v := by
  have hprepares : Prepares writable L sha d _ _ _ _ (SealedOnce L sha d w.log) := prepares_sealedOnce
  have hstart : w.ctl.mounted = some d ∧ (∀ e, Sane L e (w.disk e)) ∧ Unsealed w.log w.log :=
    ⟨hmounted, hsane, [], rfl, by simp⟩
  have humount := meets_umountPartition hprepares
  rcases hv with rfl | rfl
  · exact humount.reached hstart (fun _ _ h => h.1)
  · have hprepare : Meets false (1805 + 0) _ (prepareAppParam L sha L.devices : Run (apps writable) Bool)
        (fun _ => SealedOnce L sha d w.log) (SealedOnce L sha d w.log) :=
      meets_prepareAppParam hprepares.stable hprepares.safe (fun _ _ hw => hw) hprepares.safe
        ((humount.post (fun _ _ h => h.1)).pre (fun _ hw => hw.1))
    exact hprepare.reached hstart (fun _ _ h => h)

theorem SealedOnce.content {v : World} (h : SealedOnce L sha d old v) {new : List Event} {digest : Bytes}
    (hlog : v.log = new ++ old) (hmem : .sealed (L.name d) digest ∈ new) :
    ∃ img, v.disk d = ⟨img, []⟩ ∧ (verifyImage sha img).isSome ∧ digest = sha.hash (protectedPart img) ∧
      ∀ e, Sane L e (v.disk e) := by
  rcases h with ⟨new', hlog', hnone⟩ | ⟨img, hlen, hw, hother⟩
  · rw [hlog, List.append_left_inj] at hlog'
    rw [hlog'] at hmem
    exact absurd hmem (hnone _ _)
  · obtain ⟨hS, hverifies⟩ := hw.verifies hlen
    refine ⟨sealImage sha img, hw.active, by rw [hverifies]; rfl, ?_, fun e => ?_⟩
    swap
    · rcases d.eq_or_other e with rfl | rfl
      · rw [hw.active]
        exact sane_clean (sealImage_length_eq hlen hw.supported)
      · exact hother
    obtain ⟨writes, before, hwlog, ⟨new', rfl, hnone⟩, hwrites⟩ := hw.log
    have hsup := hw.supported
    simp only [supported, decide_eq_true_eq] at hsup
    have hprotected : protectedPart (sealImage sha img) = protectedPart img :=
      protectedPart_sealImage (by rw [hlen]; exact hsup.1)
    have hnew : new = writes ++ .sealed (L.name d) (sha.hash (protectedPart img)) :: new' := by
      rw [hlog, ← List.cons_append, ← List.append_assoc, List.append_left_inj] at hwlog
      exact hwlog
    rw [hnew, List.mem_append, List.mem_cons] at hmem
    rcases hmem with hmem | heq | hmem
    · obtain ⟨e, he⟩ := hwrites _ hmem
      exact absurd he (by simp)
    · rw [hprotected]
      exact (Event.sealed.inj heq).2
    · exact absurd hmem (hnone _ _)

section Boot

variable {img : Dev → Bytes} {u : World}

/-- The device that a boot mounts holds the content c, if one of the two verifies with it, exactly when A does not
verify with another content. -/
theorem selected_content_iff (hdisk : u.disk = fun e => ⟨img e, []⟩) {c : Bytes} (hd : protectedPart (img d) = c)
    (hverifies : (verifyImage sha (img d)).isSome) :
    protectedPart (u.disk (selected sha u.disk)).cur = c ↔
      ((verifyImage sha (img .a)).isSome → protectedPart (img .a) = c) := by
  have hcur (e : Dev) : (u.disk e).cur = img e := by rw [hdisk]; rfl
  rw [hcur]
  by_cases ha : (verifyImage sha (img .a)).isSome
  · have hselected : selected sha u.disk = .a := if_pos (by rwa [hcur])
    rw [hselected]
    exact ⟨fun h _ => h, fun h => h ha⟩
  · have hselected : selected sha u.disk = .b := if_neg (by rwa [hcur])
    have hb : d = .b := by
      cases d with
      | a => exact absurd hverifies ha
      | b => rfl
    rw [hselected, ← hb]
    exact ⟨fun _ h => absurd h ha, fun _ => hd⟩

theorem recovered_content (hdisk : u.disk = fun e => ⟨img e, []⟩) {c digest : Bytes}
    (hc : protectedPart (u.disk (selected sha u.disk)).cur = c)
    (hdigest : verifyImage sha (u.disk (selected sha u.disk)).cur = some digest) (e : Dev) :
    protectedPart (recovered sha u.disk e).cur = c ∨
      recovered sha u.disk e = u.disk e ∧ sha.hash (protectedPart (img e)) = sha.hash c := by
  unfold recovered
  split_ifs with hsame
  · refine .inr ⟨rfl, ?_⟩
    rw [hdigest] at hsame
    have he : digest = sha.hash (protectedPart (img e)) := by
      have := verifyImage_digest sha hsame
      rwa [hdisk] at this
    rw [← he, ← hc]
    exact verifyImage_digest sha hdigest
  · exact .inl hc

end Boot

/-- Content that a power prepare has sealed is what the next boot mounts, and then leaves on both devices unless the
other one holds a content with the same digest, exactly if A does not verify with another content after the power
loss. If A was the active device it never does. -/
theorem sealed_content_mounted_iff (hgeom : Geometry L) (w : World) (hmounted : w.ctl.mounted = some d)
    (hsane : ∀ e, Sane L e (w.disk e)) (rs : List (Answer (apps writable).Choice)) (v : World)
    (hv : Prepared L sha w rs v) (new : List Event) (digest : Bytes) (hlog : v.log = new ++ w.log)
    (hsealed : .sealed (L.name d) digest ∈ new) :
    ∃ c, protectedPart (v.disk d).cur = c ∧ digest = sha.hash c ∧
      ∀ img : Dev → Bytes, (∀ e, Survives (v.disk e) (img e)) → (d = .a → protectedPart (img .a) = c) ∧
        ∀ (u : World) (rs₂ : List (Answer quiet.Choice)), u.ctl.mounted = none →
          u.disk = (fun e => ⟨img e, []⟩) →
          Succeed (bootCost L) rs₂ →
          ∃ m rs' u', fsctlMount L sha L.devices rs₂ u = .done .ok rs' u' ∧ u'.ctl.mounted = some m ∧
            u'.disk m = u.disk m ∧
            (protectedPart (u.disk m).cur = c ↔
              ((verifyImage sha (img .a)).isSome → protectedPart (img .a) = c)) ∧
            (protectedPart (u.disk m).cur = c → ∀ e, protectedPart (u'.disk e).cur = c ∨
              u'.disk e = u.disk e ∧ sha.hash (protectedPart (img e)) = sha.hash c) := by
  have honce : SealedOnce L sha d w.log v := sealedOnce_of_prepared hmounted hsane hv
  obtain ⟨X, hdisk, hverifies, hdigest, hvsane⟩ := honce.content hlog hsealed
  refine ⟨protectedPart X, by rw [hdisk]; rfl, hdigest, fun img himg => ?_⟩
  have hd : img d = X := by
    have hs := himg d
    rw [hdisk] at hs
    exact survives_clean rfl hs
  refine ⟨fun ha => by rw [← ha, hd], fun u rs₂ hu hudisk hrs₂ => ?_⟩
  have husane : ∀ e, Sane L e (u.disk e) := fun e => by
    rw [hudisk]
    exact sane_clean ((himg e).1.trans (hvsane e).length)
  have hsome : ∃ e, (verifyImage sha (u.disk e).cur).isSome := by
    refine ⟨d, ?_⟩
    rw [hudisk]
    show (verifyImage sha (img d)).isSome
    rwa [hd]
  obtain ⟨digest₂, rs', u', hdigest₂, hdone, hend⟩ := fsctlMount_boot still_quiet hgeom hu husane hsome
    (exact_quiet hrs₂.1)
    hrs₂.2
  refine ⟨selected sha u.disk, rs', u', hdone, hend.mounted, by rw [hend.same, recovered_selected], ?_,
    fun hc e => ?_⟩
  · exact selected_content_iff hudisk (by rw [hd]) (by rwa [hd])
  · rw [hend.same]
    exact recovered_content hudisk hc hdigest₂ e

/-- Partition B is active and its seal has been reported; then the power is lost. -/
def interrupted : World :=
  (umountPartition board sha256 board.devices
    (List.replicate 16 (⟨[], true, false, 4608, .active, 0⟩ : Answer (apps writable).Choice)) beforePrepare).state

theorem interrupted_prepared : ∃ rs, Prepared board sha256 beforePrepare rs interrupted :=
  ⟨_, .inl rfl⟩

set_option maxRecDepth 100000 in
theorem interrupted_peer : interrupted.disk .a = ⟨sealImage sha256 (blank 0), []⟩ := rfl

def sealedPath : Event → Option Path
  | .sealed path _ => some path
  | _ => none

theorem interrupted_sealed : ∃ digest, .sealed (board.name .b) digest ∈ interrupted.log := by
  have hlog : (interrupted.log.map sealedPath).head? = some (some (board.name .b)) := by decide +kernel
  cases hevents : interrupted.log with
  | nil => simp [hevents] at hlog
  | cons e rest =>
      cases e with
      | sealed path digest =>
          obtain rfl : path = board.name .b := by simpa [hevents, sealedPath] using hlog
          exact ⟨digest, List.mem_cons_self⟩
      | _ => simp [hevents, sealedPath] at hlog

theorem sane_beforePrepare (e : Dev) : Sane board e (beforePrepare.disk e) := by
  cases e with
  | a => exact sane_clean (sealed_blank 0).1
  | b =>
      refine ⟨(sealed_blank 0).1, fun v hv => ?_⟩
      rw [List.mem_singleton.mp hv, Fits, beforePrepare, (sealed_blank 0).1]
      decide

attribute [irreducible] interrupted

theorem sealed_content_mounted_iff_board : ∃ digest, .sealed (board.name .b) digest ∈ interrupted.log ∧
    digest = sha256.hash (protectedPart (interrupted.disk .b).cur) := by
  obtain ⟨rs, hrs⟩ := interrupted_prepared
  obtain ⟨digest, hmem⟩ := interrupted_sealed
  obtain ⟨c, rfl, hdigest, -⟩ := sealed_content_mounted_iff geometry_board beforePrepare rfl sane_beforePrepare rs
    interrupted hrs _ digest (List.append_nil _).symm hmem
  exact ⟨digest, hmem, hdigest⟩

def restarted : World := ⟨ctl, fun e => ⟨(interrupted.disk e).stable, []⟩, []⟩

theorem restarted_cur (e : Dev) : (restarted.disk e).cur = (interrupted.disk e).stable := rfl

/-- The next boot mounts A, whose older content also verifies. -/
theorem sealed_content_rolled_back : ∃ (digest : Bytes) (rs : List (Answer (apps writable).Choice))
      (rs₂ rs' : List (Answer quiet.Choice)) (u' : World),
    Prepared board sha256 beforePrepare rs interrupted ∧ .sealed (board.name .b) digest ∈ interrupted.log ∧
    (∀ e, (restarted.disk e).pending = [] ∧ Survives (interrupted.disk e) (restarted.disk e).stable) ∧
    restarted.ctl.mounted = none ∧ Succeed (bootCost board) rs₂ ∧
    fsctlMount board sha256 board.devices rs₂ restarted = .done .ok rs' u' ∧ u'.ctl.mounted = some .a ∧
    protectedPart (u'.disk .a).cur ≠ protectedPart (interrupted.disk .b).cur := by
  obtain ⟨rs, hrs⟩ := interrupted_prepared
  obtain ⟨digest, hmem⟩ := interrupted_sealed
  have honce : SealedOnce board sha256 .b beforePrepare.log interrupted :=
    sealedOnce_of_prepared rfl sane_beforePrepare hrs
  obtain ⟨-, -, -, -, hsane⟩ := honce.content (List.append_nil _).symm hmem
  have hverifies : (verifyImage sha256 (restarted.disk .a).cur).isSome := by
    rw [restarted_cur, interrupted_peer]
    exact (sealed_blank 0).2
  have hgood : Succeed (bootCost board) (List.replicate (bootCost board) ⟨(), true, false, 1, .active, 0⟩) :=
    ⟨fun r hr => by rw [List.eq_of_mem_replicate hr]; exact ⟨rfl, Nat.one_pos⟩, by rw [List.length_replicate]⟩
  obtain ⟨_, rs', u', -, hdone, hend⟩ := fsctlMount_boot still_quiet geometry_board rfl
    (fun e => sane_clean (hsane e).length) ⟨.a, hverifies⟩ (exact_quiet hgood.1) hgood.2
  have hselected : selected sha256 restarted.disk = .a := if_pos hverifies
  refine ⟨digest, rs, _, rs', u', hrs, hmem, fun e => ⟨rfl, survives_stable _⟩, rfl, hgood, hdone,
    hselected ▸ hend.mounted, fun heq => ?_⟩
  have hsame : (u'.disk .a).cur = (interrupted.disk .a).stable := by
    have h := recovered_selected sha256 restarted.disk
    rw [hselected] at h
    rw [hend.same, h, restarted_cur]
  -- the first bytes differ
  have hfirst (X : Bytes) (hX : X.length = 4608) : (protectedPart X)[0]? = X[0]? := by
    rw [protectedPart, hX]
    exact List.getElem?_take_of_lt (by decide)
  have hbytes : (interrupted.disk .a).stable[0]? ≠ (interrupted.disk .b).cur[0]? := by decide +kernel
  refine hbytes ?_
  rw [← hfirst _ (hsane .a).length, ← hsame, heq, hfirst _ (hsane .b).cur_length]

end SuperRaid.Rollback
