import SuperRaid.BootImages
import SuperRaid.PartitionSpec
import SuperRaid.RecoverSpec

namespace SuperRaid.BootSpec

open Image Footer Volatile Sys Machine Storage Recovery Calls StorageSpec VerifySpec CopySpec Apps MirrorSpec MountSpec
  RecoverSpec BootImages PartitionSpec

/-- Nothing but the program changes the devices, and hashes are exact. -/
def quiet : Env where
  Choice := Unit
  act _ _ disk := disk
  digested _ len := len

def Still (env : Env) : Prop := ∀ ctl c disk, env.act ctl c disk = disk

theorem still_quiet : Still quiet := fun _ _ _ => rfl

theorem exact_quiet {rs : List (Answer quiet.Choice)} (hrs : ∀ r ∈ rs, r.ok = true ∧ 0 < r.count) :
    ∀ r ∈ rs, r.ok = true ∧ 0 < r.count ∧ quiet.Exact r.choice :=
  fun r hr => ⟨(hrs r hr).1, (hrs r hr).2, fun _ => rfl⟩

theorem Still.disk {env : Env} (h : Still env) (w : World) (r : Answer env.Choice) : (w.act env r).disk = w.disk :=
  h w.ctl r.choice w.disk

variable {env : Env}

variable {L : Layout} {sha : Sha} {disk : Dev → Disk} {old : List Event} {digest : Bytes}

def nth : Nat → Dev
  | 0 => .a
  | _ + 1 => .b

theorem selected_eq_nth {k : Nat} (hk : ∀ j < k, verifyImage sha (disk (nth j)).cur = none)
    (h : verifyImage sha (disk (nth k)).cur = some digest) : selected sha disk = nth k := by
  cases k with
  | zero => exact if_pos (Option.isSome_of_eq_some h)
  | succ k =>
      have ha : verifyImage sha (disk .a).cur = none := hk 0 (Nat.succ_pos k)
      exact if_neg (by simp [ha])

def isWrite : Event → Bool
  | .wrote _ => true
  | _ => false

theorem mem_of_mem_cons {e : Event} {log : List Event} {d : Dev} (he : isWrite e = false) (h : .wrote d ∈ e :: log) :
    .wrote d ∈ log := by
  refine (List.mem_cons.mp h).resolve_left (fun heq => ?_)
  rw [← heq] at he
  exact absurd he (by simp [isWrite])

/-- A boot verifies the selected device with the digest, and only writes devices that do not verify with it. -/
def OnlyRepairs (L : Layout) (sha : Sha) (disk : Dev → Disk) (digest : Bytes) (new : List Event) : Prop :=
  .verified (L.name (selected sha disk)) (.ok digest) ∈ new ∧
    ∀ e, .wrote e ∈ new → verifyImage sha (disk e).cur ≠ some digest

theorem OnlyRepairs.cons {new : List Event} (h : OnlyRepairs L sha disk digest new) {e : Event}
    (he : isWrite e = false) : OnlyRepairs L sha disk digest (e :: new) :=
  ⟨List.mem_cons_of_mem e h.1, fun d hd => h.2 d (mem_of_mem_cons he hd)⟩

theorem OnlyRepairs.wrote {new : List Event} (h : OnlyRepairs L sha disk digest new) {e : Dev}
    (he : verifyImage sha (disk e).cur ≠ some digest) : OnlyRepairs L sha disk digest (.wrote e :: new) := by
  refine ⟨List.mem_cons_of_mem _ h.1, fun d hd => ?_⟩
  rcases List.mem_cons.mp hd with heq | hd
  · rw [Event.wrote.inj heq]
    exact he
  · exact h.2 d hd

structure Untouched (disk : Dev → Disk) (m : Option Dev) (old : List Event) (Φ : List Event → Prop) (w : World) :
    Prop where
  mounted : w.ctl.mounted = m
  same : w.disk = disk
  log : LogSince old Φ w

theorem Untouched.act {m : Option Dev} {Φ : List Event → Prop} {w : World} (hstill : Still env)
    (h : Untouched disk m old Φ w) (r : Answer env.Choice) : Untouched disk m old Φ (w.act env r) :=
  ⟨h.mounted, (hstill.disk w r).trans h.same, h.log⟩

def Unwritten (new : List Event) : Prop := ∀ d, .wrote d ∉ new

theorem Unwritten.cons {new : List Event} (h : Unwritten new) {e : Event} (he : isWrite e = false) :
    Unwritten (e :: new) := fun d hd => h d (mem_of_mem_cons he hd)

theorem mountPlan_boot (hstill : Still env) (hgeom : Geometry L) (hsane : ∀ e, Sane L e (disk e))
    (hsome : ∃ e, (verifyImage sha (disk e).cur).isSome) (old : List Event) :
    MountPlan env L sha true (fun k => L.name (nth k))
      (fun k w => Untouched disk none old Unwritten w ∧ ∀ j < k, verifyImage sha (disk (nth j)).cur = none)
      (fun k digest w => Untouched disk none old (OnlyRepairs L sha disk digest) w ∧
        verifyImage sha (disk (nth k)).cur = some digest ∧ selected sha disk = nth k)
      (fun k digest w => Untouched disk (some (nth k)) old (OnlyRepairs L sha disk digest) w ∧
        verifyImage sha (disk (nth k)).cur = some digest ∧ selected sha disk = nth k)
      (fun k digest w => Untouched disk (some (nth k)) old (OnlyRepairs L sha disk digest) w ∧
        verifyImage sha (disk (nth k)).cur = some digest ∧ selected sha disk = nth k)
      (fun _ => False) (fun _ => True) where
  stable k w r hw := ⟨hw.1.act hstill r, hw.2⟩
  stable_verified k digest w r hw := ⟨hw.1.act hstill r, hw.2⟩
  stable_mounted k digest w r hw := ⟨hw.1.act hstill r, hw.2⟩
  stable_failed _ _ hw := hw
  safe _ _ _ := trivial
  safe_verified _ _ _ _ := trivial
  safe_mounted _ _ _ _ := trivial
  safe_failed _ _ := trivial
  save w j hw := ⟨⟨hw.1.mounted, hw.1.same, hw.1.log⟩, hw.2⟩
  delay w j v hw := by
    have hnote : LogSince old Unwritten (w.note (.wroteSysctl j v)) := hw.1.log.note (fun _ h => h.cons rfl)
    exact ⟨⟨hw.1.mounted, hw.1.same, hnote⟩, hw.2⟩
  reject k res w hw hres hne := by
    refine ⟨⟨hw.1.mounted, hw.1.same, hw.1.log.note (fun _ h => h.cons rfl)⟩, fun j hj => ?_⟩
    rcases Nat.lt_succ_iff_lt_or_eq.mp hj with hj | rfl
    · exact hw.2 j hj
    · have hv := hres (nth j) rfl nofun (disk (nth j)).cur (hsane _).cur_length (fun v hv => by rw [hv.1.same])
      by_contra hnone
      obtain ⟨digest, hdigest⟩ := Option.ne_none_iff_exists'.mp hnone
      exact hne digest (hv.2 rfl (hgeom.supported _) digest hdigest)
  accept k digest w hw hres := by
    have hv := hres (nth k) rfl nofun (disk (nth k)).cur (hsane _).cur_length (fun v hv => by rw [hv.1.same])
    have hdigest := (hv.1 digest rfl).1
    have hselected := selected_eq_nth hw.2 hdigest
    refine ⟨⟨hw.1.mounted, hw.1.same, hw.1.log.note (fun new h => ⟨?_, fun e he => ?_⟩)⟩, hdigest,
      hselected⟩
    · rw [hselected]
      exact List.mem_cons_self
    · exact absurd ((List.mem_cons.mp he).resolve_left (by simp)) (h e)
  mount k digest d w hw hnode := by
    obtain rfl : nth k = d := Node.part.inj (Option.some.inj ((L.node_name _).symm.trans hnode))
    have hnote : LogSince old (OnlyRepairs L sha disk digest) (w.note (.mounted (L.name (nth k)))) :=
      hw.1.log.note (fun _ h => h.cons rfl)
    exact ⟨⟨rfl, hw.1.same, hnote⟩, hw.2⟩
  refuse k digest w hw hne := absurd rfl (hne rfl (nth k))
  notify k digest w hw := ⟨⟨hw.1.mounted, hw.1.same, hw.1.log.note (fun _ h => h.cons rfl)⟩, hw.2⟩
  unmount ht := absurd ht (by decide)
  linger ht := absurd ht (by decide)
  giveUp k w hk hw := by
    obtain ⟨e, he⟩ := hsome
    have hnone : ∀ e, verifyImage sha (disk e).cur = none := by
      rintro (_ | _)
      · exact hw.2 0 (by have := hk rfl; omega)
      · exact hw.2 1 (by have := hk rfl; omega)
    simp [hnone e] at he
  restore _ _ _ hw := hw

/-- The selected device is mounted and as it was, and the other one does not verify with its digest. -/
structure Repairing (L : Layout) (sha : Sha) (disk : Dev → Disk) (digest : Bytes) (old : List Event) (w : World) :
    Prop where
  mounted : w.ctl.mounted = some (selected sha disk)
  same : w.disk (selected sha disk) = disk (selected sha disk)
  differs : verifyImage sha (disk (selected sha disk).other).cur ≠ some digest
  log : LogSince old (OnlyRepairs L sha disk digest) w

structure Recovered (L : Layout) (sha : Sha) (disk : Dev → Disk) (digest : Bytes) (old : List Event) (w : World) :
    Prop where
  mounted : w.ctl.mounted = some (selected sha disk)
  same : w.disk = recovered sha disk
  log : LogSince old (OnlyRepairs L sha disk digest) w

theorem Recovered.act {w : World} (hstill : Still env) (h : Recovered L sha disk digest old w)
    (r : Answer env.Choice) : Recovered L sha disk digest old (w.act env r) :=
  ⟨h.mounted, (hstill.disk w r).trans h.same, h.log⟩

theorem beside_repairing (hstill : Still env) :
    Beside env (selected sha disk).other (Repairing L sha disk digest old) where
  stable w r hw := ⟨hw.mounted, by rw [hstill.disk, hw.same], hw.differs, hw.log⟩
  idle w r hw := by rw [hstill.disk]
  write w off bs hw := by
    refine ⟨by simpa using hw.mounted, ?_, hw.differs, hw.log.write (fun _ h => h.wrote hw.differs)⟩
    rw [World.write_disk_of_ne _ _ _ _ _ (Dev.ne_other _)]
    exact hw.same
  sync w hw := ⟨hw.mounted, by rw [World.sync_disk_of_ne _ _ _ (Dev.ne_other _)]; exact hw.same, hw.differs, hw.log⟩

theorem disk_eq_recovered {w : World} (hself : w.disk (selected sha disk) = disk (selected sha disk))
    (hother : w.disk (selected sha disk).other = recovered sha disk (selected sha disk).other) :
    w.disk = recovered sha disk := by
  funext e
  rcases (selected sha disk).eq_or_other e with he | he
  · rw [he, hself, recovered_selected]
  · rw [he, hother]

theorem recoverPlan_boot (hstill : Still env) (hgeom : Geometry L) (hsane : ∀ e, Sane L e (disk e))
    (hdigest : verifyImage sha (disk (selected sha disk)).cur = some digest) (old : List Event) :
    RecoverPlan env L sha true ⟨L.name (selected sha disk), L.name (selected sha disk).other, digest⟩
      (Untouched disk (some (selected sha disk)) old (OnlyRepairs L sha disk digest))
      (Mirroring L (Repairing L sha disk digest old) (disk (selected sha disk)).cur (selected sha disk).other)
      (fun _ => Mirrored (Repairing L sha disk digest old) (disk (selected sha disk)).cur (selected sha disk).other)
      (Recovered L sha disk digest old) (Recovered L sha disk digest old)
      (fun b w => b = true ∧ Recovered L sha disk digest old w) (fun _ => False)
      (fun code w => code = .ok ∧ Recovered L sha disk digest old w) (fun _ => True) where
  stable w r hw := hw.act hstill r
  stable_releasing w r hw := hw.act hstill r
  stable_restoring code w r hw := ⟨hw.1, hw.2.act hstill r⟩
  safe _ _ := trivial
  safe_releasing _ _ := trivial
  safe_restoring _ _ _ := trivial
  frame := (copyFrame_mirror (beside_repairing hstill) ((hsane _).cur_length.trans (hgeom.sizes _ _))
    (fun _ _ _ => trivial)).copied
  stable_copied _ := (beside_repairing hstill).stable_disk (· = ⟨(disk (selected sha disk)).cur, []⟩)
  equal w hw hres := by
    have hv := (hres _ rfl nofun _ (hsane _).cur_length (fun v hv => by rw [hv.same])).1 digest rfl |>.1
    refine ⟨hw.mounted, disk_eq_recovered (by simp [hw.same]) ?_, hw.log.note (fun _ h => h.cons rfl)⟩
    simp [recovered, hw.same, hv, hdigest]
  differs res w hw hres hne := by
    have hv := (hres _ rfl nofun _ (hsane _).cur_length (fun v hv => by rw [hv.same])).2 rfl
      (hgeom.supported _) digest
    refine ⟨⟨hw.mounted, by simp [hw.same], fun h => hne (hv h), hw.log.note (fun _ h => h.cons rfl)⟩,
      ?_, by simp⟩
    rw [World.note_disk, hw.same]
    exact hsane _
  copies d e hd he _ := by
    obtain rfl : selected sha disk = d := Node.part.inj (Option.some.inj ((L.node_name _).symm.trans hd))
    obtain rfl : (selected sha disk).other = e := Node.part.inj (Option.some.inj ((L.node_name _).symm.trans he))
    exact (hgeom.copies (fun w hw => by rw [hw.same]) (hsane _).cur_length (beside_repairing hstill)).copied
  ready _ := ⟨selected sha disk, _, rfl, rfl, hgeom.supported _, hgeom.start _, hgeom.parent,
    hgeom.ready (fun w hw => by rw [hw.same]) (hsane _).cur_length (fun w hw => hw.mounted)⟩
  repaired _ w hw _ := by
    refine ⟨hw.1.mounted, disk_eq_recovered hw.1.same ?_, hw.1.log.note (fun _ h => h.cons rfl)⟩
    have hne := hw.1.differs
    rw [← hdigest] at hne
    rw [World.note_disk, hw.2, recovered, if_neg hne]
  broken _ res w hw hres hne := by
    have hv := (hres _ rfl nofun _ ((hsane _).cur_length.trans (hgeom.sizes _ _)) (fun v hv => by rw [hv.2]; rfl)).2 rfl
      (hgeom.supported _) digest hdigest
    exact hne hv
  failed ht := absurd ht (by decide)
  recovered w hw := ⟨hw.mounted, hw.same, hw.log⟩
  killed w s hw := ⟨hw.mounted, hw.same, hw.log.note (fun _ h => h.cons rfl)⟩
  tick w n hw := ⟨hw.mounted, hw.same, hw.log⟩
  released b w hw hb := ⟨hb rfl, hw.mounted, hw.same, hw.log.note (fun _ h => h.cons rfl)⟩
  finish w hw := ⟨rfl, hw.2.mounted, hw.2.same, hw.2.log⟩
  finishUnreleased w hw := absurd hw.1 (by decide)
  finishFailed _ _ hw := hw.elim
  restore code w j v hw := by
    have hnote : LogSince old (OnlyRepairs L sha disk digest) (w.note (.wroteSysctl j v)) :=
      hw.2.log.note (fun _ h => h.cons rfl)
    exact ⟨hw.1, hw.2.mounted, hw.2.same, hnote⟩

end SuperRaid.BootSpec
