import SuperRaid.FatWriteback

namespace SuperRaid.FatWriteback

open Image Transition

def Phase.settled : Phase → Bool
  | .synced | .flushed | .returned => true
  | _ => false

/-- Writing FSINFO out would leave the block as it is. -/
def FlushIdle (geo : Geometry) (m : Memory) : Prop :=
  let blk := m.block geo.fsinfoSector
  isFsinfo blk = true → fsinfoBlock m.freeClusters m.prevFree blk = blk

/-- What the disk shows is all there is, up to a write of FSINFO that changes nothing. -/
structure Settled (geo : Geometry) (s : State) : Prop where
  clean : ∀ ino ∈ s.mem.inodes, ino.dirty = false
  same : s.mem.block = s.disk
  fsinfo : s.mem.fsinfoDirty = true → FlushIdle geo s.mem
  rdonly : s.mem.rdonly = true → s.mem.fsinfoDirty = false

/-- A statfs after the sync that has to count the free clusters finds in FSINFO the number it counts, and the
prev_free that would go out with it. -/
def recountAgrees (geo : Geometry) (s : State) (a : Action) : Prop :=
  a = .statfs true → s.phase.settled = true → s.mem.countKnown = false → s.mem.rdonly = false →
    FlushIdle geo (s.mem.fatCountFreeClusters geo)

variable {geo : Geometry} {m : Memory} {s s' : State}

theorem writeInode_length (m : Memory) (i : Nat) : (m.writeInode i).inodes.length = m.inodes.length := by
  unfold Memory.writeInode
  split
  · split
    · exact List.length_set
    · rfl
  · rfl

theorem writeInode_getElem? {m : Memory} {i j : Nat} {ino : Inode} (h : (m.writeInode j).inodes[i]? = some ino) :
    if j = i then ino.dirty = false else m.inodes[i]? = some ino := by
  unfold Memory.writeInode at h
  split at h
  next old hold =>
    split_ifs at h with hd
    · rw [List.getElem?_set] at h
      split_ifs with hj
      · subst hj
        simp only [if_true] at h
        split_ifs at h
        cases h
        rfl
      · rwa [if_neg hj] at h
    · split_ifs with hj
      · subst hj
        obtain rfl : old = ino := Option.some.inj (hold.symm.trans h)
        simpa using hd
      · exact h
  next hnone =>
    split_ifs with hj
    · subst hj
      exact absurd (hnone.symm.trans h) (by simp)
    · exact h

theorem writeInode_of_clean (h : ∀ ino ∈ m.inodes, ino.dirty = false) (i : Nat) : m.writeInode i = m := by
  unfold Memory.writeInode
  cases hi : m.inodes[i]? with
  | none => rfl
  | some ino => simp [h ino (List.mem_of_getElem? hi)]

theorem foldl_writeInode_of_clean (h : ∀ ino ∈ m.inodes, ino.dirty = false) (is : List Nat) :
    is.foldl Memory.writeInode m = m := by
  induction is with
  | nil => rfl
  | cons i is ih => rw [List.foldl_cons, writeInode_of_clean h, ih]

theorem foldl_writeInode_clean (is : List Nat) (m : Memory) (i : Nat) (ino : Inode)
    (hi : (is.foldl Memory.writeInode m).inodes[i]? = some ino)
    (h : i ∈ is ∨ ∀ ino, m.inodes[i]? = some ino → ino.dirty = false) : ino.dirty = false := by
  induction is generalizing m with
  | nil =>
      rcases h with h | h
      · simp at h
      · exact h ino hi
  | cons j is ih =>
      refine ih (m.writeInode j) hi ?_
      by_cases hmem : i ∈ is
      · exact .inl hmem
      · refine .inr (fun ino' hino' => ?_)
        have hcase := writeInode_getElem? hino'
        by_cases hj : j = i
        · simpa [hj] using hcase
        · rcases h with h | h
          · rcases List.mem_cons.mp h with rfl | h
            · exact absurd rfl hj
            · exact absurd h hmem
          · exact h ino' (by simpa [hj] using hcase)

theorem foldl_writeInode_length (is : List Nat) (m : Memory) :
    (is.foldl Memory.writeInode m).inodes.length = m.inodes.length := by
  induction is generalizing m with
  | nil => rfl
  | cons i is ih => rw [List.foldl_cons, ih, writeInode_length]

theorem writeFsinfo_inodes (m : Memory) : (m.writeFsinfo geo).inodes = m.inodes := by
  unfold Memory.writeFsinfo Memory.fatClustersFlush
  split
  · dsimp only
    split
    · rfl
    · rfl
  · rfl

theorem writeFsinfo_fsinfoDirty (m : Memory) : (m.writeFsinfo geo).fsinfoDirty = false := by
  unfold Memory.writeFsinfo
  split
  · rfl
  · simp_all

theorem settled_syncFilesystem (geo : Geometry) (s : State) : Settled geo (s.syncFilesystem geo) where
  clean ino hino := by
    simp only [State.syncFilesystem, writeFsinfo_inodes] at hino
    obtain ⟨i, hi⟩ := List.mem_iff_getElem?.mp hino
    have hlt := (List.getElem?_eq_some_iff.mp hi).1
    rw [foldl_writeInode_length] at hlt
    exact foldl_writeInode_clean _ s.mem i ino hi (.inl (List.mem_range.mpr hlt))
  same := rfl
  fsinfo h := by simp [State.syncFilesystem, writeFsinfo_fsinfoDirty] at h
  rdonly _ := by simp [State.syncFilesystem, writeFsinfo_fsinfoDirty]

theorem writeFsinfo_block (hs : Settled geo s) : (s.mem.writeFsinfo geo).block = s.mem.block := by
  unfold Memory.writeFsinfo
  split_ifs with hdirty
  · unfold Memory.fatClustersFlush
    dsimp only
    split_ifs with hvalid
    · simp only [Memory.putBlock]
      rw [hs.fsinfo hdirty hvalid, Function.update_eq_self]
    · rfl
  · rfl

theorem syncFilesystem_disk (hs : Settled geo s) : (s.syncFilesystem geo).disk = s.disk := by
  simp only [State.syncFilesystem]
  rw [foldl_writeInode_of_clean hs.clean, writeFsinfo_block hs, hs.same]

theorem Settled.statfs (hs : Settled geo s) {readOk : Bool} (hphase : s.phase.settled = true)
    (hok : recountAgrees geo s (.statfs readOk)) : Settled geo { s with mem := s.mem.fatStatfs geo readOk } := by
  unfold Memory.fatStatfs
  by_cases hcount : (!s.mem.countKnown && readOk) = true
  · obtain ⟨hknown, rfl⟩ : s.mem.countKnown = false ∧ readOk = true := by simpa using hcount
    simp only [hknown, Bool.not_false, Bool.and_self, if_true]
    refine ⟨hs.clean, hs.same, ?_, ?_⟩
    · intro hdirty
      cases hro : s.mem.rdonly with
      | true =>
          have hclean := hs.rdonly hro
          simp [Memory.fatCountFreeClusters, hro, hclean] at hdirty
      | false => exact hok rfl hphase hknown hro
    · intro hro
      have hro : s.mem.rdonly = true := hro
      simp [Memory.fatCountFreeClusters, hro, hs.rdonly hro]
  · simp only [hcount, Bool.false_eq_true, if_false]
    exact hs

theorem Settled.writeFsinfo (hs : Settled geo s) : Settled geo { s with mem := s.mem.writeFsinfo geo } where
  clean := by rw [writeFsinfo_inodes]; exact hs.clean
  same := (writeFsinfo_block hs).trans hs.same
  fsinfo h := by simp [writeFsinfo_fsinfoDirty] at h
  rdonly _ := writeFsinfo_fsinfoDirty s.mem

theorem Settled.writeBuffer (hs : Settled geo s) (b : Nat) :
    Settled geo (s.writeBuffer b) ∧ (s.writeBuffer b).disk = s.disk := by
  have hdisk : Function.update s.disk b (s.mem.block b) = s.disk := by
    rw [hs.same, Function.update_eq_self]
  unfold State.writeBuffer
  split_ifs
  · exact ⟨⟨hs.clean, hs.same.trans hdisk.symm, hs.fsinfo, hs.rdonly⟩, hdisk⟩
  · exact ⟨hs, rfl⟩

theorem Settled.phase (hs : Settled geo s) (p : Phase) : Settled geo { s with phase := p } :=
  ⟨hs.clean, hs.same, hs.fsinfo, hs.rdonly⟩

/-- A settled state stays settled, and its disk as it is, whatever runs next. -/
theorem Settled.step (hs : Settled geo s) (hphase : s.phase.settled = true) {a : Action}
    (hok : recountAgrees geo s a) (h : step geo s a = some s') : Settled geo s' ∧ s'.disk = s.disk := by
  cases a with
  | gated m =>
      have hclosed : s.phase ≠ .writable := by intro hw; simp [hw, Phase.settled] at hphase
      simp only [FatWriteback.step, if_neg hclosed, Option.some.injEq] at h
      exact h ▸ ⟨hs, rfl⟩
  | statfs readOk => cases h; exact ⟨hs.statfs hphase hok, rfl⟩
  | writeInode i =>
      simp only [FatWriteback.step, writeInode_of_clean hs.clean, Option.some.injEq] at h
      exact h ▸ ⟨hs, rfl⟩
  | writeFsinfo => cases h; exact ⟨hs.writeFsinfo, rfl⟩
  | writeBuffer b => cases h; exact hs.writeBuffer b
  | remount rdonly =>
      cases h
      have hsync := settled_syncFilesystem geo s
      refine ⟨⟨hsync.clean, hsync.same, hsync.fsinfo, fun _ => ?_⟩, syncFilesystem_disk hs⟩
      simp [State.syncFilesystem, writeFsinfo_fsinfoDirty]
  | buildInode ino =>
      cases h
      refine ⟨⟨?_, hs.same, hs.fsinfo, hs.rdonly⟩, rfl⟩
      intro ino' hino'
      rcases List.mem_append.mp hino' with hold | hnew
      · exact hs.clean ino' hold
      · rw [List.mem_singleton.mp hnew]
  | readOnly => cases h; exact ⟨hs, rfl⟩
  | block | sync ok | flush ok | ret =>
      cases hp : s.phase <;> simp [FatWriteback.step, hp, Phase.settled] at h hphase
      all_goals exact h ▸ ⟨hs.phase _, rfl⟩

theorem settles (hs : s.phase.settled = true → Settled geo s) {a : Action} (hok : recountAgrees geo s a)
    (h : step geo s a = some s') (hphase' : s'.phase.settled = true) : Settled geo s' := by
  by_cases hphase : s.phase.settled = true
  · exact ((hs hphase).step hphase hok h).1
  · cases a with
    | sync ok =>
        simp only [step] at h
        split_ifs at h with hblocked hsync
        · cases h
          exact (settled_syncFilesystem geo s).phase _
        · cases h
          simp [Phase.settled] at hphase'
    | gated m =>
        simp only [step, Option.some.injEq] at h
        subst h
        split_ifs at hphase' with hw
        · exact absurd hphase' hphase
        · exact absurd hphase' hphase
    | writeBuffer b =>
        cases h
        unfold State.writeBuffer at hphase'
        split_ifs at hphase'
        · exact absurd hphase' hphase
        · exact absurd hphase' hphase
    | statfs readOk | writeInode i | writeFsinfo | remount rdonly | buildInode ino | readOnly =>
        cases h
        exact absurd hphase' hphase
    | block =>
        simp only [step] at h
        split_ifs at h with hp
        cases h
        simp [Phase.settled] at hphase'
    | flush ok | ret =>
        cases hp : s.phase <;> simp [step, hp, Phase.settled] at h hphase

theorem returned_step {a : Action} (hret : s.phase = .returned) (h : step geo s a = some s') :
    s'.phase = .returned := by
  cases a with
  | gated m => simp only [step, hret] at h; cases h; exact hret
  | writeBuffer b =>
      cases h
      unfold State.writeBuffer
      split_ifs
      · exact hret
      · exact hret
  | statfs readOk | writeInode i | writeFsinfo | remount rdonly | buildInode ino | readOnly => cases h; exact hret
  | block | sync ok | flush ok | ret => simp [step, hret] at h

/-- After fat_disable_write has returned 0 the disk stays as it is, provided that every statfs that still has to
count the free clusters finds the number it counts in FSINFO. -/
theorem disk_fixed_after_disable (geo : Geometry) (s₀ s s' : State) (as bs : List Action)
    (hstart : s₀.phase = .writable) (hok : Every (step geo) (recountAgrees geo) s₀ (as ++ bs))
    (hrun : run (step geo) s₀ as = some s) (hret : s.phase = .returned)
    (hlater : run (step geo) s bs = some s') : s'.disk = s.disk := by
  obtain ⟨hfirst, hrest⟩ := (every_append _ _ _).mp hok
  have hsettled : s.phase.settled = true → Settled geo s :=
    run_every (I := fun v => v.phase.settled = true → Settled geo v) (fun h => by simp [hstart, Phase.settled] at h)
      (fun _ _ _ hu hua hv => settles hu hua hv) hfirst hrun
  have hs := hsettled (by rw [hret]; rfl)
  obtain ⟨-, -, hdisk⟩ := run_every
    (I := fun v => v.phase = .returned ∧ Settled geo v ∧ v.disk = s.disk) ⟨hret, hs, rfl⟩
    (fun v a w ⟨hvret, hv, hvdisk⟩ hva hw =>
      have hstep := hv.step (by rw [hvret]; rfl) hva hw
      ⟨returned_step hvret hw, hstep.1, hstep.2.trans hvdisk⟩)
    (hrest s hrun) hlater
  exact hdisk

theorem every_of_no_statfs {as : List Action} (h : ∀ a ∈ as, a ≠ .statfs true) (s : State) :
    Every (step geo) (recountAgrees geo) s as := by
  induction as generalizing s with
  | nil => trivial
  | cons a as ih =>
      refine ⟨fun ha => absurd ha (h a List.mem_cons_self), fun t _ => ?_⟩
      exact ih (fun b hb => h b (List.mem_cons_of_mem a hb)) t

def smallGeometry : Geometry := ⟨512, 1, 2, 3⟩

def smallDisk (free : Word) : Nat → Bytes
  | 1 => leBytes 4 0x41615252 ++ List.replicate 480 0 ++ leBytes 4 0x61417272 ++ leBytes 4 free.toNat ++
      leBytes 4 2 ++ List.replicate 16 0
  | _ => List.replicate 512 0

def smallMount (free : Word) : State where
  mem := ⟨smallDisk free, fun _ => false, [], false, free, false, 2, false⟩
  disk := smallDisk free
  phase := .writable

def disableCall : List Action := [.block, .sync true, .flush true, .ret]

def statfsAndWriteback : List Action := [.statfs true, .writeFsinfo, .writeBuffer 1]

instance (geo : Geometry) (m : Memory) : Decidable (FlushIdle geo m) :=
  inferInstanceAs (Decidable (_ → _ = _))

theorem disk_fixed_after_disable_counted :
    ∃ s s', run (step smallGeometry) (smallMount 1) disableCall = some s ∧
      run (step smallGeometry) s statfsAndWriteback = some s' ∧ s'.disk = s.disk := by
  refine ⟨_, _, rfl, rfl, disk_fixed_after_disable smallGeometry (smallMount 1) _ _ disableCall
    statfsAndWriteback rfl ?_ rfl rfl rfl⟩
  refine (every_append _ _ _).mpr ⟨every_of_no_statfs (by simp [disableCall]) _, fun s hs => ?_⟩
  refine ⟨fun _ _ _ _ => ?_, fun t _ => every_of_no_statfs (by simp) t⟩
  obtain rfl := Option.some.inj hs
  decide +kernel

theorem statfs_changes_fsinfo :
    ∃ s s', run (step smallGeometry) (smallMount unknown) disableCall = some s ∧ s.phase = .returned ∧
      run (step smallGeometry) s statfsAndWriteback = some s' ∧ s'.disk ≠ s.disk := by
  refine ⟨_, _, rfl, rfl, rfl, fun h => ?_⟩
  have hblock := congrFun h 1
  revert hblock
  decide +kernel

end SuperRaid.FatWriteback
