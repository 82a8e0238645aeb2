import SuperRaid.MirrorSpec
import SuperRaid.PowerPrepare
import SuperRaid.SealSpec

namespace SuperRaid.PrepareSpec

open Image Footer Volatile Sys Machine Storage Recovery PowerPrepare Calls StorageSpec CopySpec Apps SealSpec MirrorSpec

/-- Applications only write to a mounted file system whose gate has not been closed. -/
def Respects (gate : Ctl → Dev → Bool) : Prop :=
  ∀ ctl d, gate ctl d = true → ctl.mounted = some d ∧ ctl.blocked = false

theorem Respects.closed_of_blocked {gate : Ctl → Dev → Bool} (h : Respects gate) {ctl : Ctl} (d : Dev)
    (hb : ctl.blocked = true) : gate ctl d = false := by
  by_contra hopen
  have := (h ctl d (by simpa using hopen)).2
  simp [hb] at this

theorem Respects.closed_of_mounted {gate : Ctl → Dev → Bool} (h : Respects gate) {ctl : Ctl} {d : Dev}
    (hm : ctl.mounted = some d) : gate ctl d.other = false := by
  by_contra hopen
  have := (h ctl d.other (by simpa using hopen)).1
  simp [hm] at this

variable {gate : Ctl → Dev → Bool} {L : Layout} {sha : Sha} {t : Bool} {d : Dev} {C : World → Prop}

theorem activePeer_mounted (L : Layout) (d : Dev) :
    activePeer L (some d) (L.name .a) (L.name .b) = some (L.name d, L.name d.other) := by
  cases d <;> simp [activePeer, L.node_name, Dev.other]

/-- The states in which umount_partition works on the active device d, its file system frozen, the peer not touched
yet. -/
structure Frozen (d : Dev) (Peer : Disk → Prop) (Log : List Event → Prop) (w : World) : Prop where
  mounted : w.ctl.mounted = some d
  blocked : w.ctl.blocked = true
  peer : Peer (w.disk d.other)
  log : Log w.log

theorem meets_disableVfatWrite {Start K : World → Prop} (hstart : Stable (apps gate) Start)
    (hstartC : ∀ w, Start w → C w) (hK : Stable (apps gate) K) (hKC : ∀ w, K w → C w)
    (hmounted : ∀ w, Start w → w.ctl.mounted = some d)
    (hfreeze : ∀ w, Start w → K { w.sync d with ctl := { w.ctl with blocked := true } }) :
    Meets t 3 Start (disableVfatWrite : Run (apps gate) Bool)
      (fun b w => (if b = true then K w else Start w ∨ K w) ∧ (t = true → b = true)) C := by
  refine Meets.branch (n := 2) hstart hstartC ?_ (fun ht => Meets.ret (fun w hw => ⟨.inl hw, by simp [ht]⟩))
  have hioctl : Meets t 1 Start (ioctlDisableWrite : Run (apps gate) Bool)
      (fun b w => (if b = true then K w else Start w) ∧ (t = true → b = true)) C := by
    refine Meets.call hstart hstartC (fun r w hr hw => ?_)
    rw [hmounted w hw]
    cases hok : r.ok with
    | true => exact ⟨hfreeze w hw, fun _ => rfl⟩
    | false => exact ⟨hw, fun ht => absurd (hr ht).1 (by simp [hok])⟩
  refine Meets.bind (m := 1) (n := 1) hioctl (fun disabled hdisabled => ?_)
  have hafter : Stable (apps gate) (fun w => if disabled = true then K w else Start w) := by
    cases disabled
    · exact hstart
    · exact hK
  have hafterC : ∀ w, (if disabled = true then K w else Start w) → C w := by
    cases disabled
    · exact hstartC
    · exact hKC
  refine Meets.bind (m := 1) (n := 0) (K := fun _ w => if disabled = true then K w else Start w)
    (Meets.succeeds hafter hafterC) (fun closed hclosed => Meets.ret (fun w hw => ⟨?_, fun ht => ?_⟩))
  · cases disabled
    · exact .inl hw
    · cases closed
      · exact .inr hw
      · exact hw
  · rw [hdisabled ht, hclosed ht]
    rfl

structure SealedActive (L : Layout) (sha : Sha) (d : Dev) (Log : List Event → Prop) (img : Bytes) (w : World) :
    Prop where
  mounted : w.ctl.mounted = some d
  blocked : w.ctl.blocked = true
  supported : supported (L.target (.part d)) = true
  active : w.disk d = ⟨sealImage sha img, []⟩
  log : ∃ writes before, w.log = writes ++ .sealed (L.name d) (sha.hash (protectedPart img)) :: before ∧
    Log before ∧
    ∀ v ∈ writes, ∃ e, v = .wrote e

/-- What has to be known to follow umount_partition: it starts in Start, freezes an image in G, and the states it can
be stopped in are all in C. -/
structure Prepares (gate : Ctl → Dev → Bool) (L : Layout) (sha : Sha) (d : Dev) (Start : World → Prop)
    (Peer : Disk → Prop) (Log : List Event → Prop) (G : Bytes → Prop) (C : World → Prop) : Prop where
  respects : Respects gate
  stable : Stable (apps gate) Start
  safe : ∀ w, Start w → C w
  mounted : ∀ w, Start w → w.ctl.mounted = some d
  freeze : ∀ w, Start w → Peer (w.disk d.other) ∧ Log w.log ∧ G (w.disk d).cur ∧
    (w.disk d).cur.length = L.size d
  peer : ∀ disk, Peer disk → Sane L d.other disk
  log : ∀ l e, Log l → Log (.wrote e :: l)
  rewriting : ∀ img w, G img → Frozen d Peer Log w → Rewriting sha img (w.disk d) → C w
  sealed : ∀ img w, G img → SealedActive L sha d Log img w → Sane L d.other (w.disk d.other) → C w

section

variable {Start : World → Prop} {Peer : Disk → Prop} {Log : List Event → Prop} {G : Bytes → Prop}

theorem beside_frozen (hgate : Respects gate) (hlog : ∀ l e, Log l → Log (.wrote e :: l)) :
    Beside (apps gate) d (Frozen d Peer Log) where
  stable w r hw := ⟨hw.mounted, hw.blocked, by
    rw [act_disk_closed (hgate.closed_of_blocked d.other hw.blocked)]
    exact hw.peer, hw.log⟩
  idle := idle_of_closed (fun w hw => hgate.closed_of_blocked d hw.blocked)
  write w off bs hw := by
    refine ⟨by simpa using hw.mounted, by simpa using hw.blocked, ?_, ?_⟩
    · rw [World.write_disk_of_ne _ _ _ _ _ d.other_ne]
      exact hw.peer
    · unfold World.write
      split
      · exact hw.log
      · exact hlog _ _ hw.log
  sync w hw := ⟨hw.mounted, hw.blocked, by rw [World.sync_disk_of_ne _ _ _ d.other_ne]; exact hw.peer, hw.log⟩

theorem beside_sealedActive (hgate : Respects gate) {img : Bytes} :
    Beside (apps gate) d.other (SealedActive L sha d Log img) where
  stable w r hw := ⟨hw.mounted, hw.blocked, hw.supported, by
    rw [act_disk_closed (hgate.closed_of_blocked d hw.blocked)]
    exact hw.active, hw.log⟩
  idle := idle_of_closed (fun w hw => hgate.closed_of_blocked d.other hw.blocked)
  write w off bs hw := by
    refine ⟨by simpa using hw.mounted, by simpa using hw.blocked, hw.supported, ?_, ?_⟩
    · rw [World.write_disk_of_ne _ _ _ _ _ d.ne_other]
      exact hw.active
    · obtain ⟨writes, before, hlog, hbefore, hwrites⟩ := hw.log
      unfold World.write
      split
      · exact ⟨writes, before, hlog, hbefore, hwrites⟩
      · exact ⟨.wrote d.other :: writes, before, congrArg (Event.wrote d.other :: ·) hlog, hbefore,
          List.forall_mem_cons.mpr ⟨⟨d.other, rfl⟩, hwrites⟩⟩
  sync w hw := ⟨hw.mounted, hw.blocked, hw.supported, by
    rw [World.sync_disk_of_ne _ _ _ d.ne_other]
    exact hw.active, hw.log⟩

theorem sealImage_length_eq {img : Bytes} (hlen : img.length = L.size d)
    (hsup : supported (L.target (.part d)) = true) : (sealImage sha img).length = L.size d := by
  simp only [supported, decide_eq_true_eq] at hsup
  have hsize : footerAreaSize < L.size d := hsup.1
  rw [sealImage_length (by omega), hlen]

theorem SealedActive.verifies {img : Bytes} {w : World} (h : SealedActive L sha d Log img w)
    (hlen : img.length = L.size d) :
    Sealed sha (sealImage sha img) ∧
      verifyImage sha (sealImage sha img) = some (sha.hash (protectedPart (sealImage sha img))) := by
  have hsup := h.supported
  have hsealed : (sealImage sha img).length = L.size d := sealImage_length_eq hlen hsup
  simp only [Storage.supported, decide_eq_true_eq] at hsup
  have hsize : footerAreaSize < L.size d := hsup.1
  have hmax : L.size d < 2 ^ 63 := hsup.2.1
  have hS : Sealed sha (sealImage sha img) := sealed_sealImage (by omega)
  exact ⟨hS, hS.verifies (by omega) (by omega)⟩

def Finished (L : Layout) (sha : Sha) (d : Dev) (Log : List Event → Prop) (G : Bytes → Prop) (w : World) : Prop :=
  ∃ img, G img ∧ SealedActive L sha d Log img w ∧ w.disk d.other = ⟨sealImage sha img, []⟩

theorem shows_active {img : Bytes} :
    Shows L (SealedActive L sha d Log img) (.part d) 0 (sealImage sha img) d.other := by
  intro w hw _ o i _
  rw [World.content, hw.active, Nat.zero_add]
  rfl

theorem meets_copyBlockDevice {img : Bytes} (h : Prepares gate L sha d Start Peer Log G C) (hG : G img)
    (hlen : img.length = L.size d) (hsup : supported (L.target (.part d)) = true) :
    Meets false 0 (fun w => SealedActive L sha d Log img w ∧ Sane L d.other (w.disk d.other))
      (copyBlockDevice L (L.name d) (L.name d.other) : Run (apps gate) Bool)
      (fun b w => (C w ∧ (b = true → Finished L sha d Log G w)) ∧ True) C := by
  have hsealed : (sealImage sha img).length = L.size d := sealImage_length_eq hlen hsup
  have hnodes {node : Node} {e : Dev} (hnode : L.node (L.name d) = some node)
      (he : L.node (L.name d.other) = some (.part e)) : node = .part d ∧ e = d.other :=
    ⟨Option.some.inj (hnode.symm.trans (L.node_name d)),
      Node.part.inj (Option.some.inj (he.symm.trans (L.node_name d.other)))⟩
  have hcost : ∀ node, L.node (L.name d) = some node → 2 * (L.target node).size ≤ 2 * L.size d :=
    fun node hnode => by
    obtain rfl : node = .part d := Option.some.inj (hnode.symm.trans (L.node_name d))
    exact le_rfl
  by_cases hsizes : L.size d.other = L.size d
  · have hframe : CopyFrame (apps gate) (Mirroring L (SealedActive L sha d Log img) (sealImage sha img) d.other)
        (Mirrored (SealedActive L sha d Log img) (sealImage sha img) d.other) C :=
      copyFrame_mirror (beside_sealedActive h.respects) (by rw [hsealed, hsizes])
        (fun w hw hsane => h.sealed img w hG hw hsane)
    have hcopy : Meets false (2 * L.size d + 12)
        (Mirroring L (SealedActive L sha d Log img) (sealImage sha img) d.other 0)
        (copyBlockDevice L (L.name d) (L.name d.other) : Run (apps gate) Bool)
        (fun b w => CopyEnds (Mirroring L (SealedActive L sha d Log img) (sealImage sha img) d.other)
          (Mirrored (SealedActive L sha d Log img) (sealImage sha img) d.other) b w ∧ (false = true → b = true))
          C := by
      refine meets_copyFrom hframe (fun node e hnode he _ => ?_) hcost (by simp)
      obtain ⟨rfl, rfl⟩ := hnodes hnode he
      have hcopies : Copies L (.part d) 0 (sealImage sha img).length d.other
          (Mirroring L (SealedActive L sha d Log img) (sealImage sha img) d.other)
          (Mirrored (SealedActive L sha d Log img) (sealImage sha img) d.other) :=
        copies_mirror (beside_sealedActive h.respects) (by rw [hsealed, hsizes]) shows_active
      rwa [hsealed] at hcopies
    refine (hcopy.post (fun b w hw => ⟨⟨hframe.safe_ends b w hw.1, fun hb => ?_⟩, trivial⟩)).pre
      (fun w hw => ⟨hw.1, hw.2, by simp⟩)
    subst hb
    exact ⟨img, hG, hw.1.1, hw.1.2⟩
  · have hframe : CopyFrame (apps gate)
        (fun _ w => SealedActive L sha d Log img w ∧ Sane L d.other (w.disk d.other)) (fun _ => False) C :=
      ⟨fun _ => (beside_sealedActive h.respects).stable_disk (Sane L d.other),
        fun _ w hw => h.sealed img w hG hw.1 hw.2, fun _ _ hw => hw, fun _ hw => hw.elim⟩
    have hcopy : Meets false (2 * L.size d + 12)
        (fun w => SealedActive L sha d Log img w ∧ Sane L d.other (w.disk d.other))
        (copyBlockDevice L (L.name d) (L.name d.other) : Run (apps gate) Bool)
        (fun b w => CopyEnds (fun _ w => SealedActive L sha d Log img w ∧ Sane L d.other (w.disk d.other))
          (fun _ => False) b w ∧ (false = true → b = true)) C := by
      refine meets_copyFrom hframe (fun node e hnode he hsize => ?_) hcost (by simp)
      obtain ⟨rfl, rfl⟩ := hnodes hnode he
      exact absurd hsize.symm hsizes
    refine hcopy.post (fun b w hw => ⟨⟨hframe.safe_ends b w hw.1, fun hb => ?_⟩, trivial⟩)
    subst hb
    exact hw.1.elim

theorem meets_sealAndCopy (h : Prepares gate L sha d Start Peer Log G C) :
    Meets false 0 Start (sealAndCopy L sha (L.name d) (L.name d.other) : Run (apps gate) ExitCode)
      (fun code w => C w ∧ (code = .ok → Finished L sha d Log G w)) C := by
  have hfrozen : Stable (apps gate) (fun w => ∃ img, (G img ∧ img.length = L.size d) ∧
      Frozen d Peer Log w ∧ w.disk d = ⟨img, []⟩) := fun w r ⟨img, hG, hw⟩ =>
    ⟨img, hG, (beside_frozen h.respects h.log).stable_disk (· = ⟨img, []⟩) w r hw⟩
  have hfrozenC :
      ∀ w, (∃ img, (G img ∧ img.length = L.size d) ∧ Frozen d Peer Log w ∧ w.disk d = ⟨img, []⟩) →
      C w :=
    fun w ⟨img, hG, hw, hdisk⟩ => h.rewriting img w hG.1 hw (by rw [hdisk]; exact rewriting_clean sha img)
  refine Meets.bind (m := 3) (n := 0) (meets_disableVfatWrite h.stable h.safe hfrozen hfrozenC h.mounted
    (fun w hw => ?_)) (fun disabled _ => ?_)
  · obtain ⟨hpeer, hlog, hG, hlen⟩ := h.freeze w hw
    refine ⟨(w.disk d).cur, ⟨hG, hlen⟩, ⟨h.mounted w hw, rfl, ?_, hlog⟩, ?_⟩
    · show Peer ((w.sync d).disk d.other)
      rw [World.sync_disk_of_ne _ _ _ d.other_ne]
      exact hpeer
    · exact World.sync_disk_self w d
  cases disabled with
  | false => exact Meets.ret (fun w hw => ⟨hw.elim (h.safe w) (hfrozenC w), by simp⟩)
  | true =>
      refine Meets.exists (fun img => ?_)
      refine Meets.of_pre (fun hG => ?_)
      have hS : Stable (apps gate) (fun w => SealedActive L sha d Log img w ∧ Sane L d.other (w.disk d.other)) :=
        (beside_sealedActive h.respects).stable_disk (Sane L d.other)
      have hseal : Meets false 138 (fun w => Frozen d Peer Log w ∧ w.disk d = ⟨img, []⟩)
          (powerctlSealBlockDevice L sha (L.name d) : Run (apps gate) (Option Bytes))
          (fun res w => (if res.isSome then SealedActive L sha d Log img w ∧ Sane L d.other (w.disk d.other)
            else Frozen d Peer Log w ∧ Rewriting sha img (w.disk d)) ∧
            (∀ digest, res = some digest → digest = sha.hash (protectedPart img)) ∧
            (false = true → supported (L.target (.part d)) = true → res.isSome = true)) C :=
        meets_seal (beside_frozen h.respects h.log) hG.2 (fun w hw hdisk => h.rewriting img w hG.1 hw hdisk)
          (hashes_apps gate false) hS (fun w hw => h.sealed img w hG.1 hw.1 hw.2)
          (fun w hw hdisk hsup =>
            ⟨⟨hw.mounted, hw.blocked, hsup, hdisk, [], w.log, rfl, hw.log, by simp⟩, h.peer _ hw.peer⟩)
      refine Meets.bind (n := 0) hseal (fun res _ => ?_)
      rcases res with _ | digest
      · exact Meets.ret (fun w hw => ⟨h.rewriting img w hG.1 hw.1 hw.2, by simp⟩)
      refine Meets.pre (K := fun w => supported (L.target (.part d)) = true ∧
        SealedActive L sha d Log img w ∧ Sane L d.other (w.disk d.other)) ?_ (fun w hw => ⟨hw.1.supported, hw⟩)
      refine Meets.of_pre (fun hsup => ?_)
      refine Meets.bind (n := 0) (meets_copyBlockDevice h hG.1 hG.2 hsup) (fun copied _ => ?_)
      cases copied with
      | false => exact Meets.ret (fun w hw => ⟨hw.1, by simp⟩)
      | true => exact Meets.ret (fun w hw => ⟨hw.1, fun _ => hw.2 rfl⟩)

theorem meets_resolveActivePeer {P : World → Prop} {first second : Path} (hP : Stable (apps gate) P)
    (hC : ∀ w, P w → C w) (hmounted : ∀ w, P w → w.ctl.mounted = some d) :
    Meets t 3 P (resolveActivePeer L first second : Run (apps gate) (Option (Path × Path)))
      (fun res w => P w ∧ ∀ pair, res = some pair → activePeer L (some d) first second = some pair) C := by
  refine Meets.bind (m := 1) (n := 2) (K := fun _ => P) (F := fun res => ∀ b, res = some b → b = some d)
    (Meets.call hP hC (fun r w _ hw => ⟨hw, fun b hb => ?_⟩)) (fun res hres => ?_)
  · dsimp only at hb
    split_ifs at hb
    rw [← Option.some.inj hb, hmounted w hw]
  rcases res with _ | backing
  · exact Meets.ret (fun w hw => ⟨hw, by simp⟩)
  have hnone {n : Nat} : Meets t n P (pure none : Run (apps gate) (Option (Path × Path)))
      (fun res w => P w ∧ ∀ pair, res = some pair → activePeer L (some d) first second = some pair) C :=
    Meets.ret (fun w hw => ⟨hw, by simp⟩)
  refine Meets.branch (n := 1) hP hC (Meets.branch (n := 0) hP hC ?_ (fun _ => hnone)) (fun _ => hnone)
  exact Meets.ret (fun w hw => ⟨hw, fun pair h => by rw [← hres backing rfl]; exact h⟩)

theorem meets_umountPartition (h : Prepares gate L sha d Start Peer Log G C) :
    Meets false 0 Start (umountPartition L sha L.devices : Run (apps gate) ExitCode)
      (fun code w => C w ∧ (code = .ok → Finished L sha d Log G w)) C := by
  refine Meets.bind (n := 0) (K := fun _ => Start) (meets_splitDevices h.stable h.safe) (fun pair hpair => ?_)
  rcases pair with _ | pair
  · exact Meets.ret (fun w hw => ⟨h.safe w hw, by simp⟩)
  obtain rfl : pair = (L.name .a, L.name .b) :=
    Option.some.inj ((hpair.1 pair rfl).symm.trans (splitSpec_devices L))
  refine Meets.bind (n := 0) (K := fun _ => Start) (meets_resolveActivePeer h.stable h.safe h.mounted)
    (fun active hactive => ?_)
  rcases active with _ | active
  · exact Meets.ret (fun w hw => ⟨h.safe w hw, by simp⟩)
  obtain rfl : active = (L.name d, L.name d.other) :=
    Option.some.inj ((hactive active rfl).symm.trans (activePeer_mounted L d))
  exact meets_sealAndCopy h

end

end SuperRaid.PrepareSpec
