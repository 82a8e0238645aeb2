import SuperRaid.Convergence
import SuperRaid.PrepareSpec

namespace SuperRaid.SafeBoot

open Image Footer Volatile Sys Machine Storage Recovery Calls StorageSpec VerifySpec CopySpec Apps PrepareSpec MountSpec
  RecoverSpec ReleaseSpec BootSpec Convergence

/-- The applications write to the mounted device once recovery has found the peer equal to it and has come to restore
the settings, until the gate is closed. -/
def released (ctl : Ctl) (d : Dev) : Bool :=
  ctl.mounted = some d ∧ ctl.blocked = false ∧ ctl.recovered = true ∧ ctl.restored = true

theorem respects_released : Respects released := fun ctl d h => by
  simp only [released, decide_eq_true_eq] at h
  exact ⟨h.1, h.2.1⟩

theorem closed_of_unrecovered {ctl : Ctl} (h : ctl.recovered = false) (d : Dev) : released ctl d = false := by
  simp [released, h]

def Passes (L : Layout) (sha : Sha) (e : Dev) (img : Bytes) : Prop :=
  supported (L.target (.part e)) = true ∧ (verifyImage sha img).isSome

variable {L : Layout} {sha : Sha} {d : Dev} {img : Dev → Bytes} {digest : Bytes}

/-- One of the devices passes a verify, whatever a power loss leaves of the writes to it. -/
def Alive (L : Layout) (sha : Sha) (w : World) : Prop :=
  (∀ e, Sane L e (w.disk e)) ∧ ∃ e, ∀ X, Survives (w.disk e) X → Passes L sha e X

/-- One of the devices passes a verify and nothing will be written to it, as recovery has not succeeded. -/
structure Unrecovered (L : Layout) (sha : Sha) (w : World) : Prop where
  recovered : w.ctl.recovered = false
  sane : ∀ e, Sane L e (w.disk e)
  good : ∃ e X, w.disk e = ⟨X, []⟩ ∧ Passes L sha e X

structure Held (L : Layout) (sha : Sha) (d : Dev) (w : World) : Prop where
  mounted : w.ctl.mounted = some d
  size : footerAreaSize < L.size d
  sane : Sane L d (w.disk d)
  good : ∃ p, p.length = L.size d.other ∧ w.disk d.other = ⟨p, []⟩ ∧ Passes L sha d.other p

theorem alive_of_clean {w : World} (hsane : ∀ e, Sane L e (w.disk e)) {e : Dev} {X : Bytes}
    (hdisk : w.disk e = ⟨X, []⟩) (h : Passes L sha e X) : Alive L sha w := by
  refine ⟨hsane, e, fun Y hY => ?_⟩
  rw [hdisk] at hY
  rwa [survives_clean rfl hY]

theorem Unrecovered.alive {w : World} (h : Unrecovered L sha w) : Alive L sha w := by
  obtain ⟨e, X, hdisk, hX⟩ := h.good
  exact alive_of_clean h.sane hdisk hX

theorem Held.alive {w : World} (h : Held L sha d w) : Alive L sha w := by
  obtain ⟨p, hlen, hdisk, hp⟩ := h.good
  refine alive_of_clean (fun e => ?_) hdisk hp
  rcases d.eq_or_other e with rfl | rfl
  · exact h.sane
  · rw [hdisk]
    exact sane_clean hlen

theorem Unrecovered.act {w : World} (h : Unrecovered L sha w) (r : Answer (apps released).Choice) :
    Unrecovered L sha (w.act (apps released) r) := by
  have hsame : ∀ e, (w.act (apps released) r).disk e = w.disk e := fun e =>
    act_disk_closed (closed_of_unrecovered h.recovered e) r
  obtain ⟨e, X, hdisk, hX⟩ := h.good
  exact ⟨h.recovered, fun e => by rw [hsame]; exact h.sane e, e, X, by rw [hsame]; exact hdisk, hX⟩

theorem Held.act {w : World} (h : Held L sha d w) (r : Answer (apps released).Choice) :
    Held L sha d (w.act (apps released) r) := by
  obtain ⟨p, hlen, hdisk, hp⟩ := h.good
  refine ⟨h.mounted, h.size, act_sane h.sane r, p, hlen, ?_, hp⟩
  rw [act_disk_closed (respects_released.closed_of_mounted h.mounted)]
  exact hdisk

theorem Unrecovered.note {w : World} (h : Unrecovered L sha w) (v : Event) : Unrecovered L sha (w.note v) :=
  ⟨h.recovered, h.sane, h.good⟩

theorem Held.note {w : World} (h : Held L sha d w) (v : Event) : Held L sha d (w.note v) :=
  ⟨h.mounted, h.size, h.sane, h.good⟩

section Mount

structure Resting (img : Dev → Bytes) (w : World) : Prop where
  recovered : w.ctl.recovered = false
  same : w.disk = fun e => ⟨img e, []⟩

theorem stable_resting : Stable (apps released) (Resting img) := fun w r hw => by
  refine ⟨hw.recovered, ?_⟩
  rw [← hw.same]
  funext e
  exact act_disk_closed (closed_of_unrecovered hw.recovered e) r

def Accepted (L : Layout) (sha : Sha) (img : Dev → Bytes) (k : Nat) (digest : Bytes) : Prop :=
  verifyImage sha (img (nth k)) = some digest ∧ supported (L.target (.part (nth k))) = true

variable (himg : ∀ e, (img e).length = L.size e)

include himg

theorem Resting.unrecovered (hgood : ∃ e, Passes L sha e (img e)) {w : World} (h : Resting img w) :
    Unrecovered L sha w := by
  obtain ⟨e, he⟩ := hgood
  refine ⟨h.recovered, fun e => ?_, e, img e, by rw [h.same], he⟩
  rw [h.same]
  exact sane_clean (himg e)

theorem mountPlan_safe (hgood : ∃ e, Passes L sha e (img e)) :
    MountPlan (apps released) L sha false (fun k => L.name (nth k)) (fun _ => Resting img)
      (fun k digest w => Resting img w ∧ Accepted L sha img k digest)
      (fun k digest w => Resting img w ∧ w.ctl.mounted = some (nth k) ∧ Accepted L sha img k digest)
      (fun k digest w => Resting img w ∧ w.ctl.mounted = some (nth k) ∧ Accepted L sha img k digest)
      (Resting img) (Alive L sha) where
  stable _ := stable_resting
  stable_verified _ _ w r hw := ⟨stable_resting w r hw.1, hw.2⟩
  stable_mounted _ _ w r hw := ⟨stable_resting w r hw.1, hw.2⟩
  stable_failed := stable_resting
  safe _ _ hw := (hw.unrecovered himg hgood).alive
  safe_verified _ _ _ hw := (hw.1.unrecovered himg hgood).alive
  safe_mounted _ _ _ hw := (hw.1.unrecovered himg hgood).alive
  safe_failed _ hw := (hw.unrecovered himg hgood).alive
  save _ _ hw := ⟨hw.recovered, hw.same⟩
  delay _ _ _ hw := ⟨hw.recovered, hw.same⟩
  reject _ _ _ hw _ _ := ⟨hw.recovered, hw.same⟩
  accept k digest _ hw hres := by
    have hv := hres (nth k) rfl (hashes_apps _ _) (img (nth k)) (himg _) (fun v hv => by rw [hv.same]; rfl)
    exact ⟨⟨hw.recovered, hw.same⟩, hv.1 digest rfl⟩
  mount k digest d w hw hnode := by
    obtain rfl : nth k = d := Node.part.inj (Option.some.inj ((L.node_name _).symm.trans hnode))
    exact ⟨⟨hw.1.recovered, hw.1.same⟩, rfl, hw.2⟩
  refuse _ _ _ hw _ := hw.1
  notify _ _ _ hw := ⟨⟨hw.1.recovered, hw.1.same⟩, hw.2⟩
  unmount _ _ _ _ hw := ⟨hw.1.recovered, hw.1.same⟩
  linger _ _ _ _ hw := hw.1
  giveUp _ _ _ hw := hw
  restore _ _ _ hw := ⟨hw.recovered, hw.same⟩

end Mount

section Recover

structure Active (d : Dev) (X : Bytes) (w : World) : Prop where
  recovered : w.ctl.recovered = false
  mounted : w.ctl.mounted = some d
  same : w.disk d = ⟨X, []⟩

theorem Resting.active {w : World} (h : Resting img w) (hmounted : w.ctl.mounted = some d) : Active d (img d) w :=
  ⟨h.recovered, hmounted, by rw [h.same]⟩

theorem beside_active {X : Bytes} : Beside (apps released) d.other (Active d X) where
  stable w r hw := ⟨hw.recovered, hw.mounted, by
    rw [act_disk_closed (closed_of_unrecovered hw.recovered d)]
    exact hw.same⟩
  idle := idle_of_closed (fun w hw => closed_of_unrecovered hw.recovered d.other)
  write w off bs hw := ⟨by simpa using hw.recovered, by simpa using hw.mounted, by
    rw [World.write_disk_of_ne _ _ _ _ _ d.ne_other]
    exact hw.same⟩
  sync w hw := ⟨hw.recovered, hw.mounted, by
    rw [World.sync_disk_of_ne _ _ _ d.ne_other]
    exact hw.same⟩

def Left (L : Layout) (d : Dev) (X p : Bytes) (w : World) : Prop :=
  p.length = L.size d.other ∧ Active d X w ∧ w.disk d.other = ⟨p, []⟩

variable (himg : ∀ e, (img e).length = L.size e) (hdigest : verifyImage sha (img d) = some digest)

include himg hdigest

theorem Active.held {w : World} (h : Active d (img d) w) {p : Bytes} (hlen : p.length = L.size d.other)
    (hpeer : w.disk d.other = ⟨p, []⟩) (hp : Passes L sha d.other p) : Held L sha d w := by
  have hsize := (verifyImage_eq_some.mp hdigest).1
  rw [himg] at hsize
  exact ⟨h.mounted, hsize, by rw [h.same]; exact sane_clean (himg d), p, hlen, hpeer, hp⟩

variable (hsupported : supported (L.target (.part d)) = true)

include hsupported

theorem Active.unrecovered {w : World} (h : Active d (img d) w) (hpeer : Sane L d.other (w.disk d.other)) :
    Unrecovered L sha w := by
  refine ⟨h.recovered, fun e => ?_, d, img d, h.same, hsupported, by rw [hdigest]; rfl⟩
  rcases d.eq_or_other e with rfl | rfl
  · rw [h.same]
    exact sane_clean (himg _)
  · exact hpeer

theorem recoverPlan_safe :
    RecoverPlan (apps released) L sha false ⟨L.name d, L.name d.other, digest⟩
      (fun w => Resting img w ∧ w.ctl.mounted = some d)
      (fun _ w => Active d (img d) w ∧ Sane L d.other (w.disk d.other)) (Left L d (img d))
      (Held L sha d) (Held L sha d) (fun _ => Held L sha d) (Unrecovered L sha)
      (fun code w => Held L sha d w ∨ Unrecovered L sha w ∧ code ≠ .ok) (Alive L sha) where
  stable w r hw := ⟨stable_resting w r hw.1, hw.2⟩
  stable_releasing w r hw := hw.act r
  stable_restoring code w r hw := hw.imp (fun h => h.act r) (fun h => ⟨h.1.act r, h.2⟩)
  safe w hw := (hw.1.unrecovered himg ⟨d, hsupported, by rw [hdigest]; rfl⟩).alive
  safe_releasing w hw := hw.alive
  safe_restoring code w hw := hw.elim (fun h => h.alive) (fun h => h.1.alive)
  frame := {
    stable := fun _ => beside_active.stable_disk (Sane L d.other)
    safe := fun _ w hw => (hw.1.unrecovered himg hdigest hsupported hw.2).alive
    stable_done := fun w r ⟨p, hp⟩ => ⟨p, hp.1, beside_active.stable_disk (· = ⟨p, []⟩) w r hp.2⟩
    safe_done := fun w ⟨p, hp⟩ => (hp.2.1.unrecovered himg hdigest hsupported
      (by rw [hp.2.2]; exact sane_clean hp.1)).alive }
  stable_copied p w r hp := ⟨hp.1, beside_active.stable_disk (· = ⟨p, []⟩) w r hp.2⟩
  equal w hw hres := by
    have hv := (hres d.other rfl (hashes_apps _ _) _ (himg _) (fun v hv => by rw [hv.1.same]; rfl)).1 digest rfl
    have hactive := hw.1.active hw.2
    exact (hactive.held himg hdigest (himg d.other) (by rw [hw.1.same]) ⟨hv.2, by rw [hv.1]; rfl⟩).note _
  differs res w hw _ _ := by
    have hactive := hw.1.active hw.2
    refine ⟨⟨hactive.recovered, hactive.mounted, hactive.same⟩, ?_⟩
    rw [World.note_disk, hw.1.same]
    exact sane_clean (himg _)
  copies d' e hd he hsize := by
    obtain rfl : d = d' := Node.part.inj (Option.some.inj ((L.node_name _).symm.trans hd))
    obtain rfl : d.other = e := Node.part.inj (Option.some.inj ((L.node_name _).symm.trans he))
    refine ⟨fun k buffer hfit _ j i w hw hi hji => ⟨beside_active.write w _ _ hw.1, ?_⟩, fun w hw => ?_⟩
    · have hlen : (slice buffer j i).length = i := slice_length hji
      rw [World.write_disk_self _ _ _ _ (List.length_pos_iff.mp (by omega))]
      exact hw.2.write (by omega)
    · exact ⟨(w.disk d.other).cur, hw.2.cur_length, beside_active.sync w hw.1, World.sync_disk_self w d.other⟩
  ready ht := absurd ht (by decide)
  repaired p w hw hres := by
    have hv := (hres d.other rfl (hashes_apps _ _) p hw.1 (fun v hv => by rw [hv.2.2]; rfl)).1 digest rfl
    exact (hw.2.1.held himg hdigest hw.1 hw.2.2 ⟨hv.2, by rw [hv.1]; rfl⟩).note _
  broken p res w hw _ _ := (hw.2.1.unrecovered himg hdigest hsupported (by rw [hw.2.2]; exact sane_clean hw.1)).note _
  failed _ k w hw := hw.1.unrecovered himg hdigest hsupported hw.2
  recovered w hw := ⟨hw.mounted, hw.size, hw.sane, hw.good⟩
  killed w s hw := hw.note _
  tick w n hw := ⟨hw.mounted, hw.size, hw.sane, hw.good⟩
  released b w hw _ := hw.note _
  finish w hw := .inl ⟨hw.mounted, hw.size, hw.sane, hw.good⟩
  finishUnreleased w hw := .inl ⟨hw.mounted, hw.size, hw.sane, hw.good⟩
  finishFailed f w hw := .inr ⟨⟨hw.recovered, hw.sane, hw.good⟩, by simp⟩
  restore code w j v hw := hw.imp (fun h => ⟨h.mounted, h.size, h.sane, h.good⟩)
    (fun h => ⟨⟨h.1.recovered, h.1.sane, h.1.good⟩, h.2⟩)

end Recover

/-- A boot that finds a device which passes a verify leaves one, wherever it is stopped. It reports success only if
the peer of the mounted device passes. -/
theorem meets_fsctlMount_safe (himg : ∀ e, (img e).length = L.size e) (hgood : ∃ e, Passes L sha e (img e)) :
    Meets false 0 (Resting img) (fsctlMount L sha L.devices : Run (apps released) ExitCode)
      (fun code w => (∃ d, Held L sha d w) ∨ Unrecovered L sha w ∧ code ≠ .ok) (Alive L sha) := by
  have hmount := meets_mountPartition (mountPlan_safe himg hgood) (splitSpec_devices L)
  refine Meets.bind (m := 299) (n := 0) (F := fun _ => True) (hmount.post (fun _ _ hw => ⟨hw, trivial⟩))
    (fun res _ => ?_)
  cases res with
  | error code => exact Meets.ret (fun w hw => .inr ⟨hw.unrecovered himg hgood, by simp⟩)
  | ok st =>
      refine Meets.exists (fun i => Meets.of_pre (fun hi => ?_))
      obtain ⟨mountedDev, otherDev, digest⟩ := st
      obtain ⟨rfl, rfl⟩ := Prod.mk.inj (candidates_nth hi)
      rw [Nat.zero_add]
      refine Meets.pre (K := fun w => Accepted L sha img i digest ∧ Resting img w ∧ w.ctl.mounted = some (nth i)) ?_
        (fun w hw => ⟨hw.2.2, hw.1, hw.2.1⟩)
      refine Meets.of_pre (fun hi => ?_)
      refine ((meets_recoverAppParam (recoverPlan_safe himg hi.1 hi.2)).post (fun res w hw => ?_))
      obtain ⟨code, hheld | hfailed, hcode, -⟩ := hw
      · exact .inl ⟨_, hheld⟩
      · exact .inr ⟨hfailed.1, fun h => hfailed.2 (hcode h)⟩

end SuperRaid.SafeBoot
