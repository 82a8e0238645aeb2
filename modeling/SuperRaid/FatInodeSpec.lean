import SuperRaid.FatInode

namespace SuperRaid.FatInode

open FatTime

section Modes

variable (o : Options) (name : List Nat) (isDir : Bool)

def basePerm : BitVec 16 :=
  if isDir then sIrwxugo else if o.showexec ∧ isExec name = false then sIrugo ||| sIwugo else sIrwxugo

def fileType : BitVec 16 := if isDir then sIfdir else sIfreg

def maskOf : BitVec 16 := if isDir then o.fsDmask else o.fsFmask

def holdsRo : Bool := (!isDir || o.rodir) && decide (~~~maskOf o isDir &&& sIwugo ≠ 0#16)

def permOf (ro : Bool) : BitVec 16 :=
  if ro then basePerm o name isDir &&& ~~~sIwugo else basePerm o name isDir

/-- The modes that an entry can hold. -/
def modeOf (ro : Bool) : BitVec 16 := permOf o name isDir ro &&& ~~~maskOf o isDir ||| fileType isDir

variable {o name isDir}

theorem basePerm_cases : basePerm o name isDir = sIrwxugo ∨ basePerm o name isDir = sIrugo ||| sIwugo := by
  unfold basePerm
  split_ifs <;> simp

theorem permOf_le (ro : Bool) : permOf o name isDir ro &&& sIrwxugo = permOf o name isDir ro := by
  unfold permOf
  rcases basePerm_cases with h | h <;> rw [h] <;> cases ro <;> decide

theorem permOf_and_sIwugo (ro : Bool) : permOf o name isDir ro &&& sIwugo = if ro then 0#16 else sIwugo := by
  unfold permOf
  rcases basePerm_cases with h | h <;> rw [h] <;> cases ro <;> decide

theorem permOf_and_rx (ro : Bool) :
    permOf o name isDir ro &&& (sIrugo ||| sIxugo) = basePerm o name isDir &&& (sIrugo ||| sIxugo) := by
  unfold permOf
  rcases basePerm_cases with h | h <;> rw [h] <;> cases ro <;> decide

theorem fileType_and : fileType isDir &&& sIfmt = fileType isDir := by
  cases isDir <;> decide

theorem mode_bits (i : Nat) (hi : i < 16) :
    (sIwugo[i], (sIrugo ||| sIxugo)[i], sIfmt[i], sIrwxugo[i]) ∈
      [(true, false, false, true), (false, true, false, true), (false, false, true, false),
        (false, false, false, false)] := by
  revert i
  decide

theorem and_or_type {perm mask type : BitVec 16} (hperm : perm &&& sIrwxugo = perm) (htype : type &&& sIfmt = type) :
    (perm &&& ~~~mask ||| type) &&& sIfmt = type ∧
      (perm &&& ~~~mask ||| type) &&& sIrwxugo = perm &&& ~~~mask ∧
      (perm &&& ~~~mask ||| type) &&& ~~~(sIfmt ||| mask) = perm &&& ~~~mask := by
  refine ⟨?_, ?_, ?_⟩ <;>
  · apply BitVec.eq_of_getElem_eq
    intro i hi
    have hbits := mode_bits i hi
    have hp := congrArg (·[i]) hperm
    have ht := congrArg (·[i]) htype
    simp only [BitVec.getElem_and, BitVec.getElem_or, BitVec.getElem_not] at *
    grind

theorem eq_of_parts {m mask perm type : BitVec 16} (hperm : perm &&& sIrwxugo = perm) (htype : m &&& sIfmt = type)
    (hvalid : m &&& ~~~(sIfreg ||| sIfdir ||| sIrwxugo) = 0#16)
    (hrx : m &&& ~~~(sIfmt ||| mask) &&& (sIrugo ||| sIxugo) = perm &&& ~~~mask &&& (sIrugo ||| sIxugo))
    (hw : m &&& ~~~(sIfmt ||| mask) &&& sIwugo = perm &&& ~~~mask &&& sIwugo) :
    m &&& (sIfmt ||| (m &&& ~~~(sIfmt ||| mask))) = perm &&& ~~~mask ||| type := by
  apply BitVec.eq_of_getElem_eq
  intro i hi
  have hbits := mode_bits i hi
  have hsub : ∀ i, (hi : i < 16) → (sIfreg ||| sIfdir ||| sIrwxugo)[i] = true →
      sIfmt[i] = true ∨ sIrwxugo[i] = true := by
    decide
  have hs := hsub i hi
  have h₁ := congrArg (·[i]) hperm
  have h₂ := congrArg (·[i]) htype
  have h₃ := congrArg (·[i]) hvalid
  have h₄ := congrArg (·[i]) hrx
  have h₅ := congrArg (·[i]) hw
  simp only [BitVec.getElem_and, BitVec.getElem_or, BitVec.getElem_not] at *
  grind

theorem modeOf_and_sIfmt (ro : Bool) : modeOf o name isDir ro &&& sIfmt = fileType isDir :=
  (and_or_type (permOf_le ro) fileType_and).1

theorem sIsdir_modeOf (ro : Bool) : sIsdir (modeOf o name isDir ro) = isDir := by
  rw [sIsdir, modeOf_and_sIfmt]
  cases isDir <;> decide

theorem sIsreg_modeOf (ro : Bool) : sIsreg (modeOf o name isDir ro) = !isDir := by
  rw [sIsreg, modeOf_and_sIfmt]
  cases isDir <;> decide

theorem fatModeCanHoldRo_eq {inode : Inode} {ro : Bool} (h : inode.mode = modeOf o name isDir ro) :
    fatModeCanHoldRo o inode = holdsRo o isDir := by
  rw [fatModeCanHoldRo, h, sIsdir_modeOf]
  cases isDir <;> simp [holdsRo, maskOf]

theorem modeOf_and {s : BitVec 16} (hs : sIrwxugo &&& s = s) (ro : Bool) :
    modeOf o name isDir ro &&& s = permOf o name isDir ro &&& s &&& ~~~maskOf o isDir := by
  have h : modeOf o name isDir ro &&& sIrwxugo = permOf o name isDir ro &&& ~~~maskOf o isDir :=
    (and_or_type (permOf_le ro) fileType_and).2.1
  calc modeOf o name isDir ro &&& s = modeOf o name isDir ro &&& sIrwxugo &&& s := by rw [BitVec.and_assoc, hs]
    _ = permOf o name isDir ro &&& s &&& ~~~maskOf o isDir := by
      rw [h, BitVec.and_assoc, BitVec.and_comm (~~~_), BitVec.and_assoc]

theorem modeOf_valid (ro : Bool) : modeOf o name isDir ro &&& ~~~(sIfreg ||| sIfdir ||| sIrwxugo) = 0#16 := by
  have htype : fileType isDir &&& ~~~(sIfreg ||| sIfdir ||| sIrwxugo) = 0#16 := by
    cases isDir <;> decide
  have hperm : permOf o name isDir ro &&& ~~~(sIfreg ||| sIfdir ||| sIrwxugo) = 0#16 := by
    rw [← permOf_le, BitVec.and_assoc, show sIrwxugo &&& ~~~(sIfreg ||| sIfdir ||| sIrwxugo) = 0#16 by decide,
      BitVec.and_zero]
  rw [modeOf, BitVec.and_or_distrib_right, htype, BitVec.and_assoc, BitVec.and_comm (~~~_), ← BitVec.and_assoc, hperm]
  simp

theorem modeOf_and_sIwugo (ro : Bool) :
    modeOf o name isDir ro &&& sIwugo = if ro then 0#16 else sIwugo &&& ~~~maskOf o isDir := by
  rw [modeOf_and (by decide), permOf_and_sIwugo]
  cases ro <;> simp

theorem sanitized_eq {m : BitVec 16} {ro new : Bool} (htype : m &&& sIfmt = fileType isDir)
    (hvalid : m &&& ~~~(sIfreg ||| sIfdir ||| sIrwxugo) = 0#16)
    (hrx : m &&& ~~~(sIfmt ||| maskOf o isDir) &&& (sIrugo ||| sIxugo) =
      modeOf o name isDir ro &&& (sIrugo ||| sIxugo))
    (hw : m &&& ~~~(sIfmt ||| maskOf o isDir) &&& sIwugo = if new then 0#16 else sIwugo &&& ~~~maskOf o isDir) :
    m &&& (sIfmt ||| (m &&& ~~~(sIfmt ||| maskOf o isDir))) = modeOf o name isDir new := by
  apply eq_of_parts (permOf_le new) htype hvalid
  · rw [hrx, modeOf_and (by decide), permOf_and_rx, ← permOf_and_rx new]
    ac_rfl
  · rw [hw, ← modeOf_and_sIwugo, modeOf_and (by decide)]
    ac_rfl

theorem modeOf_readOnly_iff {ro : Bool} (hholds : holdsRo o isDir = true) :
    modeOf o name isDir ro &&& sIwugo = 0#16 ↔ ro = true := by
  rw [modeOf_and_sIwugo, BitVec.and_comm]
  rw [holdsRo, Bool.and_eq_true, decide_eq_true_eq] at hholds
  cases ro with
  | false => simpa using hholds.2
  | true => simp

theorem and_not_of_masked {perm mask : BitVec 16} (h : ~~~mask &&& sIwugo = 0#16) :
    perm &&& ~~~sIwugo &&& ~~~mask = perm &&& ~~~mask := by
  apply BitVec.eq_of_getElem_eq
  intro i hi
  have hi' := congrArg (·[i]) h
  simp only [BitVec.getElem_and, BitVec.getElem_not, BitVec.getElem_zero] at *
  grind

theorem fatMakeMode_eq {attrs : BitVec 8} {perm : BitVec 16} (hdir : decide (attrs &&& attrDir ≠ 0#8) = isDir)
    (hperm : perm &&& ~~~maskOf o isDir = basePerm o name isDir &&& ~~~maskOf o isDir) :
    fatMakeMode o attrs perm = modeOf o name isDir (decide (attrs &&& attrRo ≠ 0#8) && holdsRo o isDir) := by
  have hmake : fatMakeMode o attrs perm =
      (if attrs &&& attrRo ≠ 0#8 ∧ (!isDir || o.rodir) = true then perm &&& ~~~sIwugo else perm) &&&
        ~~~maskOf o isDir ||| fileType isDir := by
    subst hdir
    by_cases hd : attrs &&& attrDir = 0#8 <;> simp [fatMakeMode, maskOf, fileType, hd]
  rw [hmake, modeOf]
  congr 1
  by_cases hro : attrs &&& attrRo ≠ 0#8 ∧ (!isDir || o.rodir) = true
  · by_cases hmask : ~~~maskOf o isDir &&& sIwugo = 0#16
    · simp [permOf, holdsRo, hro, hmask, and_not_of_masked hmask, hperm]
    · simp only [permOf, holdsRo, hro, hmask, ne_eq, not_false_eq_true, and_self, if_true, decide_true, Bool.and_true]
      rw [BitVec.and_assoc, BitVec.and_comm (~~~sIwugo), ← BitVec.and_assoc, hperm]
      ac_rfl
  · have hfalse : (decide (attrs &&& attrRo ≠ 0#8) && holdsRo o isDir) = false := by
      rw [Bool.eq_false_iff]
      intro h
      rw [holdsRo, Bool.and_eq_true, Bool.and_eq_true, decide_eq_true_eq] at h
      exact hro ⟨h.1, h.2.1⟩
    rw [if_neg hro, hfalse, permOf, if_neg Bool.false_ne_true, hperm]

end Modes

section Attributes

variable {o : Options} {name : List Nat} {isDir : Bool}

def keptAttrs (holds : Bool) : BitVec 8 := if holds then attrUnused else attrUnused ||| attrRo

def attrsOf (isDir ro : Bool) (attrs : BitVec 8) : BitVec 8 :=
  attrs ||| (if isDir then attrDir else 0#8) ||| if ro then attrRo else 0#8

theorem attrsOf_spec (isDir ro holds : Bool) (hro : ro = true → holds = true) {attrs : BitVec 8}
    (hattrs : attrs &&& keptAttrs holds = attrs) :
    decide (attrsOf isDir ro attrs &&& attrDir ≠ 0#8) = isDir ∧
      (decide (attrsOf isDir ro attrs &&& attrRo ≠ 0#8) && holds) = ro ∧
      attrsOf isDir ro attrs &&& keptAttrs holds = attrs ∧
      attrsOf isDir ro attrs &&& attrSys = attrs &&& attrSys := by
  revert isDir ro holds attrs
  decide +kernel

theorem attrsOf_wanted (isDir holds : Bool) {attr : BitVec 8} (hdir : decide (attr &&& attrDir ≠ 0#8) = isDir) :
    attrsOf isDir (decide (attr &&& attrRo ≠ 0#8) && holds) (attr &&& keptAttrs holds) = attr &&& 0x3f#8 := by
  revert isDir holds attr
  decide +kernel

theorem attrsOf_unchanged (isDir ro holds : Bool) (hro : ro = true → holds = true) {attr : BitVec 8}
    (hdir : decide (attr &&& attrDir ≠ 0#8) = isDir) :
    attrsOf isDir ro (attr &&& keptAttrs holds) =
      if holds then attr &&& 0x3e#8 ||| (if ro then attrRo else 0#8) else attr &&& 0x3f#8 := by
  revert isDir ro holds attr
  decide +kernel

theorem attrsOf_and_attrRo (isDir ro : Bool) {attrs : BitVec 8} (hattrs : attrs &&& keptAttrs true = attrs) :
    attrsOf isDir ro attrs &&& attrRo = if ro then attrRo else 0#8 := by
  revert isDir ro attrs
  decide +kernel

theorem attrsOf_fixed (isDir ro holds : Bool) {attrs : BitVec 8} (hattrs : attrs &&& keptAttrs holds = attrs) :
    attrsOf isDir ro attrs &&& 0x18#8 = attrs &&& attrVolume ||| if isDir then attrDir else 0#8 := by
  revert isDir ro holds attrs
  decide +kernel

theorem fatMakeAttrs_eq {inode : Inode} {ro : Bool} (hmode : inode.mode = modeOf o name isDir ro)
    (hro : ro = true → holdsRo o isDir = true) : fatMakeAttrs o inode = attrsOf isDir ro inode.attrs := by
  have hiff : holdsRo o isDir = true ∧ modeOf o name isDir ro &&& sIwugo = 0#16 ↔ ro = true :=
    ⟨fun h => (modeOf_readOnly_iff h.1).mp h.2, fun h => ⟨hro h, (modeOf_readOnly_iff (hro h)).mpr h⟩⟩
  simp only [fatMakeAttrs, fatModeCanHoldRo_eq hmode, hmode, sIsdir_modeOf, hiff]
  cases isDir <;> cases ro <;> simp [attrsOf]

end Attributes

section Invariant

variable (o : Options) (name : List Nat) (isDir : Bool)

/-- The inode holds nothing that its entry could not hold, but for the size and the range of the times. -/
structure Sound (inode : Inode) : Prop where
  isRoot : inode.isRoot = false
  mode : ∃ ro, (ro = true → holdsRo o isDir = true) ∧ inode.mode = modeOf o name isDir ro
  attrs : inode.attrs &&& keptAttrs (holdsRo o isDir) = inode.attrs
  immutable : inode.immutable = (o.sysImmutable && decide (inode.attrs &&& attrSys ≠ 0#8))
  logstart : inode.logstart = inode.start
  mtime : fatTruncateMtime inode.mtime = inode.mtime
  ctime : inode.ctime = inode.mtime
  atime : fatTruncateAtime o.zone inode.atime = inode.atime
  crtime : inode.crtime.nsec < 1000000000 ∧ inode.crtime.nsec / 10000000 * 10000000 = inode.crtime.nsec
  crtime_msdos : o.isvfat = false → inode.crtime = ⟨0, 0⟩

variable {o name isDir} {inode : Inode}

theorem Sound.canHold (h : Sound o name isDir inode) : fatModeCanHoldRo o inode = holdsRo o isDir :=
  have ⟨_, _, hmode⟩ := h.mode
  fatModeCanHoldRo_eq hmode

theorem Sound.sIsdir (h : Sound o name isDir inode) : sIsdir inode.mode = isDir := by
  obtain ⟨ro, -, hmode⟩ := h.mode
  rw [hmode, sIsdir_modeOf]

theorem fatTruncateMtime_idem (ts : Timespec) : fatTruncateMtime (fatTruncateMtime ts) = fatTruncateMtime ts := by
  simp only [fatTruncateMtime, Timespec.mk.injEq, and_true]
  omega

theorem fatTruncateAtime_idem (zone : Zone) (ts : Timespec) :
    fatTruncateAtime zone (fatTruncateAtime zone ts) = fatTruncateAtime zone ts := by
  have hzero := Int.tmod_eq_zero_of_dvd (Int.dvd_self_sub_tmod (x := ts.sec - fatTzOffset zone) (m := 86400))
  simp only [fatTruncateAtime, Timespec.mk.injEq, and_true]
  rw [show ts.sec - fatTzOffset zone + fatTzOffset zone - (ts.sec - fatTzOffset zone).tmod 86400 - fatTzOffset zone =
    ts.sec - fatTzOffset zone - (ts.sec - fatTzOffset zone).tmod 86400 by ring, hzero]
  ring

theorem Sound.truncateTime (h : Sound o name isDir inode) (now : Timespec) (atime mtime : Bool) :
    Sound o name isDir (fatTruncateTime o inode now atime mtime) := by
  rw [fatTruncateTime, if_neg (by simp [h.isRoot])]
  cases atime <;> cases mtime
  · exact h
  · exact { h with mtime := fatTruncateMtime_idem now, ctime := rfl }
  · exact { h with atime := fatTruncateAtime_idem o.zone now }
  · exact { h with mtime := fatTruncateMtime_idem now, ctime := rfl, atime := fatTruncateAtime_idem o.zone now }

theorem Sound.mask_eq (h : Sound o name isDir inode) :
    (if sIsreg inode.mode = true then o.fsFmask else o.fsDmask) = maskOf o isDir := by
  obtain ⟨ro, -, hmode⟩ := h.mode
  rw [hmode, sIsreg_modeOf]
  cases isDir <;> rfl

theorem Sound.sanitized (h : Sound o name isDir inode) {m m' : BitVec 16} (htype : m &&& sIfmt = fileType isDir)
    (hvalid : m &&& ~~~(sIfreg ||| sIfdir ||| sIrwxugo) = 0#16) (hm : fatSanitizeMode o inode m = some m') :
    ∃ ro, (ro = true → holdsRo o isDir = true) ∧ m' = modeOf o name isDir ro := by
  obtain ⟨ro, -, hmode⟩ := h.mode
  simp only [fatSanitizeMode, h.mask_eq, h.canHold] at hm
  rw [hmode] at hm
  split_ifs at hm with hrx hholds hw hw <;> cases hm <;> rw [not_not] at hrx
  · by_cases hzero : m &&& ~~~(sIfmt ||| maskOf o isDir) &&& sIwugo = 0#16
    · exact ⟨true, fun _ => hholds, sanitized_eq htype hvalid hrx hzero⟩
    · exact ⟨false, nofun, sanitized_eq htype hvalid hrx (not_not.mp fun hne => hw ⟨hzero, hne⟩)⟩
  · exact ⟨false, nofun, sanitized_eq htype hvalid hrx (not_not.mp hw)⟩

theorem Sound.setTimes (h : Sound o name isDir inode) (attr : Iattr) :
    Sound o name isDir (setTimes o inode attr) := by
  unfold FatInode.setTimes
  cases attr.atime with
  | none =>
    cases attr.mtime with
    | none => exact h
    | some now => exact h.truncateTime now false true
  | some now =>
    cases attr.mtime with
    | none => exact h.truncateTime now true false
    | some now' => exact (h.truncateTime now true false).truncateTime now' false true

theorem Sound.withMode (h : Sound o name isDir inode) {m : BitVec 16}
    (hm : ∃ ro, (ro = true → holdsRo o isDir = true) ∧ m = modeOf o name isDir ro) :
    Sound o name isDir { inode with mode := m } :=
  { h with mode := hm }

theorem Sound.core (h : Sound o name isDir inode) (c : Caller) {attr : Iattr}
    (htype : ∀ m ∈ attr.mode, m &&& sIfmt = fileType isDir) :
    Sound o name isDir (setattrCore o c inode attr).2 := by
  unfold setattrCore
  cases c.prepare with
  | some e => exact h
  | none =>
    by_cases hrefused : attr.chown ∨ attr.mode.any (fun m => m &&& ~~~(sIfreg ||| sIfdir ||| sIrwxugo) ≠ 0#16)
    · simp only [if_pos hrefused]
      exact h
    · simp only [if_neg hrefused]
      refine (h.setTimes attr).withMode ?_
      cases hmode : attr.mode.bind (fatSanitizeMode o inode) with
      | none => exact (h.setTimes attr).mode
      | some m' =>
        obtain ⟨m, hm, hm'⟩ := Option.bind_eq_some_iff.mp hmode
        refine h.sanitized (htype m hm) ?_ hm'
        exact not_not.mp fun hne => hrefused (.inr (hm ▸ decide_eq_true hne))

theorem Sound.chmodCommon (h : Sound o name isDir inode) (attr : Iattr) :
    ∀ m ∈ (chmodCommon inode attr).mode, m &&& sIfmt = fileType isDir := by
  obtain ⟨ro, -, hmode⟩ := h.mode
  intro m hm
  obtain ⟨m₀, -, rfl⟩ := Option.map_eq_some_iff.mp hm
  rw [BitVec.and_or_distrib_right, BitVec.and_assoc, BitVec.and_assoc, show sIallugo &&& sIfmt = 0#16 by decide,
    show ~~~sIallugo &&& sIfmt = sIfmt by decide, hmode, modeOf_and_sIfmt]
  simp

theorem Sound.fatSanitizeMode_modeOf (h : Sound o name isDir inode) {new : Bool}
    (hnew : new = true → holdsRo o isDir = true) :
    fatSanitizeMode o inode (modeOf o name isDir new) = some (modeOf o name isDir new) := by
  obtain ⟨ro, -, hmode⟩ := h.mode
  have hperm : modeOf o name isDir new &&& ~~~(sIfmt ||| maskOf o isDir) =
      permOf o name isDir new &&& ~~~maskOf o isDir := (and_or_type (permOf_le new) fileType_and).2.2
  have hrx : modeOf o name isDir new &&& ~~~(sIfmt ||| maskOf o isDir) &&& (sIrugo ||| sIxugo) =
      modeOf o name isDir ro &&& (sIrugo ||| sIxugo) := by
    rw [hperm, modeOf_and (by decide), permOf_and_rx ro, ← permOf_and_rx new]
    ac_rfl
  have hw : modeOf o name isDir new &&& ~~~(sIfmt ||| maskOf o isDir) &&& sIwugo =
      if new then 0#16 else sIwugo &&& ~~~maskOf o isDir := by
    rw [hperm, ← modeOf_and_sIwugo, modeOf_and (by decide)]
    ac_rfl
  have heq := sanitized_eq (modeOf_and_sIfmt new) (modeOf_valid new) hrx hw
  rw [← hmode] at hrx
  simp only [fatSanitizeMode, h.mask_eq, h.canHold]
  rw [if_neg (not_not.mpr hrx), heq, hw]
  cases new with
  | false => simp
  | true => simp [hnew rfl]

theorem fatSaveAttrs_attrs {ro : Bool} (hmode : inode.mode = modeOf o name isDir ro) (attr : BitVec 8) :
    (fatSaveAttrs o inode attr).attrs = attr &&& keptAttrs (holdsRo o isDir) := by
  rw [fatSaveAttrs, fatModeCanHoldRo_eq hmode, keptAttrs]
  split_ifs <;> rfl

theorem Sound.saveAttrs (h : Sound o name isDir inode) {immutable : Bool} {attr : BitVec 8}
    (himmutable : immutable = (o.sysImmutable && decide (attr &&& attrSys ≠ 0#8))) :
    Sound o name isDir (fatSaveAttrs o { inode with immutable := immutable } attr) := by
  obtain ⟨ro, hro, hmode⟩ := h.mode
  have hkept : (fatSaveAttrs o { inode with immutable := immutable } attr).attrs =
      attr &&& keptAttrs (holdsRo o isDir) := fatSaveAttrs_attrs hmode attr
  have hsys : keptAttrs (holdsRo o isDir) &&& attrSys = attrSys := by
    cases holdsRo o isDir <;> decide
  refine { h with attrs := ?_, immutable := ?_ }
  · rw [hkept, BitVec.and_assoc, BitVec.and_self]
  · rw [hkept, BitVec.and_assoc, hsys]
    exact himmutable

theorem Sound.wantedAttrs_dir (h : Sound o name isDir inode) (user : BitVec 32) :
    decide (wantedAttrs inode user &&& attrDir ≠ 0#8) = isDir := by
  rw [wantedAttrs, h.sIsdir]
  simp only [BitVec.and_or_distrib_right, BitVec.and_assoc,
    show ~~~(attrVolume ||| attrDir) &&& attrDir = 0#8 by decide, show attrVolume &&& attrDir = 0#8 by decide]
  cases isDir <;> simp [attrDir]

theorem Sound.wantedAttrs_and (h : Sound o name isDir inode) (user : BitVec 32) {k : BitVec 8}
    (hvolume : attrVolume &&& k = attrVolume) (hdir : attrDir &&& k = attrDir) :
    wantedAttrs inode user &&& k =
      user.setWidth 8 &&& (~~~(attrVolume ||| attrDir) &&& k) ||| (fatMakeAttrs o inode &&& 0x18#8) := by
  obtain ⟨ro, hro, hmode⟩ := h.mode
  rw [fatMakeAttrs_eq hmode hro, attrsOf_fixed isDir ro _ h.attrs, wantedAttrs, h.sIsdir]
  simp only [BitVec.and_or_distrib_right, BitVec.and_assoc, hvolume]
  cases isDir <;> simp [hdir]

theorem Sound.wantedMode (h : Sound o name isDir inode) (user : BitVec 32) :
    wantedMode o inode (wantedAttrs inode user) =
      modeOf o name isDir (decide (wantedAttrs inode user &&& attrRo ≠ 0#8) && holdsRo o isDir) := by
  obtain ⟨ro, -, hmode⟩ := h.mode
  refine fatMakeMode_eq (h.wantedAttrs_dir user) ?_
  rw [h.sIsdir]
  cases isDir with
  | true => rfl
  | false =>
    have hbase : sIrugo ||| sIwugo ||| (basePerm o name false &&& sIxugo) = basePerm o name false := by
      rcases basePerm_cases with hb | hb <;> rw [hb] <;> decide
    have hx : permOf o name false ro &&& sIxugo = basePerm o name false &&& sIxugo := by
      rw [show sIxugo = (sIrugo ||| sIxugo) &&& sIxugo by decide, ← BitVec.and_assoc, permOf_and_rx, BitVec.and_assoc]
    rw [if_neg Bool.false_ne_true, hmode, modeOf_and (by decide), hx]
    nth_rewrite 2 [← hbase]
    rw [BitVec.and_or_distrib_right, BitVec.and_assoc (_ &&& _), BitVec.and_self, ← BitVec.and_or_distrib_right]

theorem Sound.setattrCore_modeOf (h : Sound o name isDir inode) {c : Caller} {new : Bool}
    (hnew : new = true → holdsRo o isDir = true) (hprepare : c.prepare = none) :
    setattrCore o c inode ⟨some (modeOf o name isDir new), false, none, none⟩ =
      (none, { inode with mode := modeOf o name isDir new }) := by
  have hvalid : ¬ (false = true ∨ (some (modeOf o name isDir new)).any
      (fun m => m &&& ~~~(sIfreg ||| sIfdir ||| sIrwxugo) ≠ 0#16) = true) := by
    simp [modeOf_valid]
  simp only [setattrCore, hprepare, if_neg hvalid, Option.bind_some, h.fatSanitizeMode_modeOf hnew]
  rfl

theorem wantedAttrs_and_attrSys (inode : Inode) (user : BitVec 32) :
    wantedAttrs inode user &&& attrSys = user.setWidth 8 &&& attrSys := by
  simp only [wantedAttrs, BitVec.and_or_distrib_right, BitVec.and_assoc,
    show ~~~(attrVolume ||| attrDir) &&& attrSys = attrSys by decide, show attrVolume &&& attrSys = 0#8 by decide]
  cases FatInode.sIsdir inode.mode <;> simp [attrDir, attrSys]

/-- Why FAT_IOCTL_SET_ATTRIBUTES fails: the first check that says no. -/
def refusal (o : Options) (c : Caller) (inode : Inode) (asked : BitVec 32) : Option Errno :=
  if c.blocked then some .erofs
  else c.want.or <|
    if o.sysImmutable ∧ (asked.setWidth 8 ||| fatMakeAttrs o inode) &&& attrSys ≠ 0#8 ∧ c.capable = false then
      some .eperm
    else c.security.or (if o.quiet then none else c.prepare)

/-- The ioctl fails and changes nothing, or saves the attributes. The mode stays as it was if the request was refused
and the mount is a quiet one. -/
theorem Sound.ioctl_cases (h : Sound o name isDir inode) (c : Caller) (user : BitVec 32) :
    (∃ e, refusal o c inode user = some e ∧ fatIoctlSetAttributes o c inode user = (some e, inode)) ∨
      refusal o c inode user = none ∧ ∃ ro immutable, (ro = true → holdsRo o isDir = true) ∧
        immutable = (o.sysImmutable && decide (wantedAttrs inode user &&& attrSys ≠ 0#8)) ∧
        (c.prepare = none → ro = (decide (wantedAttrs inode user &&& attrRo ≠ 0#8) && holdsRo o isDir)) ∧
        (c.prepare ≠ none → o.quiet = true ∧ inode.mode = modeOf o name isDir ro) ∧
        fatIoctlSetAttributes o c inode user = (none, fatSaveAttrs o
          { inode with mode := modeOf o name isDir ro, immutable := immutable } (wantedAttrs inode user)) := by
  obtain ⟨ro, hro, hmode⟩ := h.mode
  have himmutable : (if o.sysImmutable = true then decide (wantedAttrs inode user &&& attrSys ≠ 0#8)
      else inode.immutable) = (o.sysImmutable && decide (wantedAttrs inode user &&& attrSys ≠ 0#8)) := by
    rw [h.immutable]
    cases o.sysImmutable <;> simp
  have hsys : (wantedAttrs inode user ||| fatMakeAttrs o inode) &&& attrSys =
      (user.setWidth 8 ||| fatMakeAttrs o inode) &&& attrSys := by
    rw [BitVec.and_or_distrib_right, BitVec.and_or_distrib_right, wantedAttrs_and_attrSys]
  rw [fatIoctlSetAttributes, refusal]
  by_cases hblocked : c.blocked = true
  · exact .inl ⟨_, if_pos hblocked, if_pos hblocked⟩
  rw [if_neg hblocked, if_neg hblocked]
  cases c.want with
  | some e => exact .inl ⟨e, rfl, rfl⟩
  | none =>
    dsimp only [Option.none_or]
    have hroot : ¬ (inode.isRoot = true ∧ wantedAttrs inode user ≠ attrDir) := by simp [h.isRoot]
    rw [hsys, if_neg hroot]
    by_cases hcap : o.sysImmutable = true ∧
      (user.setWidth 8 ||| fatMakeAttrs o inode) &&& attrSys ≠ 0#8 ∧ c.capable = false
    · exact .inl ⟨_, if_pos hcap, if_pos hcap⟩
    rw [if_neg hcap, if_neg hcap]
    cases c.security with
    | some e => exact .inl ⟨e, rfl, rfl⟩
    | none =>
      dsimp only [Option.none_or]
      cases hprepare : c.prepare with
      | none =>
        refine .inr ⟨ite_self _, ?_⟩
        have hnew : (decide (wantedAttrs inode user &&& attrRo ≠ 0#8) && holdsRo o isDir) = true →
            holdsRo o isDir = true := fun heq => (Bool.and_eq_true_iff.mp heq).2
        refine ⟨_, _, hnew, himmutable, fun _ => rfl, fun hne => absurd rfl hne, ?_⟩
        rw [h.wantedMode, h.setattrCore_modeOf hnew hprepare]
        rfl
      | some e =>
        cases hquiet : o.quiet with
        | false =>
          refine .inl ⟨e, rfl, ?_⟩
          rw [setattrCore, hprepare]
          simp [finishAttributes, hquiet]
        | true =>
          refine .inr ⟨rfl, ro, _, hro, himmutable, nofun, fun _ => ⟨rfl, hmode⟩, ?_⟩
          rw [setattrCore, hprepare, ← hmode]
          simp [finishAttributes, hquiet]

theorem Sound.archived (h : Sound o name isDir inode) :
    Sound o name isDir { inode with attrs := inode.attrs ||| attrArch } := by
  refine { h with attrs := ?_, immutable := ?_ }
  · have harch : attrArch &&& keptAttrs (holdsRo o isDir) = attrArch := by
      cases holdsRo o isDir <;> decide
    rw [BitVec.and_or_distrib_right, h.attrs, harch]
  · rw [BitVec.and_or_distrib_right, show attrArch &&& attrSys = 0#8 by decide, BitVec.or_zero]
    exact h.immutable

theorem Sound.withStart (h : Sound o name isDir inode) (start : Nat) :
    Sound o name isDir { inode with start := start, logstart := start } :=
  { h with logstart := rfl }

theorem Sound.step (h : Sound o name isDir inode) (change : Change) : Sound o name isDir (step o inode change) := by
  cases change with
  | setattr c attr =>
    rw [FatInode.step, fatSetattr]
    split_ifs
    · exact h
    · exact h.core c (h.chmodCommon attr)
  | setAttributes c attr =>
    obtain ⟨e, -, heq⟩ | ⟨-, ro, immutable, hro, himmutable, -, -, heq⟩ := h.ioctl_cases c attr
    · rw [FatInode.step, heq]
      exact h
    · rw [FatInode.step, heq]
      exact (h.withMode ⟨ro, hro, rfl⟩).saveAttrs himmutable
  | updateTime now atime mtime => exact h.truncateTime now atime mtime
  | writeEnd now =>
    rw [FatInode.step, fatWriteEnd]
    split_ifs
    · exact h
    · exact (h.truncateTime now false true).archived
  | chainAdd start =>
    rw [FatInode.step]
    split_ifs
    · exact h.withStart start
    · exact h
  | free skip now sync =>
    have hfreed := h.archived.truncateTime now false true
    rw [FatInode.step, fatFree]
    dsimp only
    split_ifs
    · exact h
    · exact hfreed.withStart 0
    · exact hfreed
  | resize size => exact { h with }

theorem Sound.run (h : Sound o name isDir inode) (changes : List Change) :
    Sound o name isDir (run o inode changes) := by
  induction changes generalizing inode with
  | nil => exact h
  | cons change changes ih => exact ih (h.step change)

end Invariant

section Entries

variable {o : Options} {dir : Directory} {de : DirEntry} {inode : Inode}

theorem fatTimeFat2unix_truncated (zone : Zone) (time date : Nat) :
    fatTruncateMtime (fatTimeFat2unix zone ⟨time, date, 0⟩) = fatTimeFat2unix zone ⟨time, date, 0⟩ := by
  have heven := fatTzOffset_even zone
  simp only [fatTruncateMtime, fatTimeFat2unix, timeSeconds, Nat.shiftLeft_eq, ne_eq, not_true, if_false,
    Timespec.mk.injEq, and_true]
  omega

theorem fatTimeFat2unix_day (zone : Zone) (date : Nat) :
    fatTruncateAtime zone (fatTimeFat2unix zone ⟨0, date, 0⟩) = fatTimeFat2unix zone ⟨0, date, 0⟩ := by
  simp [fatTruncateAtime, fatTimeFat2unix, timeSeconds]

theorem fatTimeFat2unix_nsec (zone : Zone) (st : Stamp) :
    (fatTimeFat2unix zone st).nsec < 1000000000 ∧
      (fatTimeFat2unix zone st).nsec / 10000000 * 10000000 = (fatTimeFat2unix zone st).nsec := by
  unfold fatTimeFat2unix
  split_ifs <;> dsimp only <;> omega

theorem sound_filledInode {isDir : Bool} (hdir : decide (de.attr &&& attrDir ≠ 0#8) = isDir) (size : Nat) :
    Sound o de.name isDir (filledInode o de isDir size) := by
  have hmode : fatMakeMode o de.attr (basePerm o de.name isDir) = _ := fatMakeMode_eq hdir rfl
  have hbare : Sound o de.name isDir { filledInode o de isDir size with attrs := 0#8, immutable := false } := by
    refine ⟨rfl, ⟨_, fun heq => (Bool.and_eq_true_iff.mp heq).2, hmode⟩, ?_, ?_, rfl,
      fatTimeFat2unix_truncated _ _ _, rfl, ?_, ?_, ?_⟩
    · simp
    · simp
    · cases hvfat : o.isvfat <;> simp only [filledInode, fatSaveAttrs, hvfat]
      · exact fatTruncateAtime_idem _ _
      · exact fatTimeFat2unix_day _ _
    · cases hvfat : o.isvfat <;> simp only [filledInode, fatSaveAttrs, hvfat, Bool.false_eq_true, if_false, if_true]
      · exact ⟨Nat.zero_lt_succ _, trivial⟩
      · exact fatTimeFat2unix_nsec _ _
    · intro hvfat
      simp [filledInode, fatSaveAttrs, hvfat]
  exact hbare.saveAttrs rfl

structure Storable (o : Options) (dir : Directory) (isDir : Bool) (inode : Inode) : Prop where
  mtime : Representable o.zone inode.mtime
  atime : o.isvfat = true → Representable o.zone inode.atime
  crtime : o.isvfat = true → Representable o.zone inode.crtime
  start : inode.start < if o.isFat32 then 2 ^ 32 else 2 ^ 16
  size : isDir = false → inode.size < 2 ^ 32
  dirSize : isDir = true → fatCalcDirSize o dir inode.start = .ok inode.size
  dirValid : isDir = true → fatValidateDir o dir inode.start = .ok ()

/-- What comes back: without vfat the entry has no place for the time of the last access. -/
def reread (o : Options) (inode : Inode) : Inode :=
  if o.isvfat then inode else { inode with atime := fatTruncateAtime o.zone inode.mtime }

variable {isDir : Bool}

theorem fatGetStart_fatSetStart {cluster : Nat} (h : cluster < if o.isFat32 then 2 ^ 32 else 2 ^ 16) :
    fatGetStart o (fatSetStart de cluster) = cluster := by
  rw [fatGetStart]
  split_ifs at h ⊢ with hfat32
  · rw [fatSetStart, Nat.or_comm, ← Nat.shiftLeft_add_eq_or_of_lt (Nat.mod_lt _ (by decide)), Nat.shiftLeft_eq,
      Nat.shiftRight_eq_div_pow]
    dsimp only
    omega
  · exact Nat.mod_eq_of_lt h

theorem fatWriteInode_attr : (fatWriteInode o inode de).attr = fatMakeAttrs o inode := by
  rw [fatWriteInode]
  cases o.isvfat <;> rfl

theorem fatWriteInode_name : (fatWriteInode o inode de).name = de.name := by
  rw [fatWriteInode]
  cases o.isvfat <;> rfl

theorem fatGetStart_fatWriteInode (h : inode.logstart < if o.isFat32 then 2 ^ 32 else 2 ^ 16) :
    fatGetStart o (fatWriteInode o inode de) = inode.logstart := by
  have hset : fatGetStart o (fatSetStart de inode.logstart) = inode.logstart := fatGetStart_fatSetStart h
  rw [← hset, fatWriteInode]
  cases o.isvfat <;> rfl

theorem filledInode_fatWriteInode (h : Sound o de.name isDir inode) (hs : Storable o dir isDir inode) :
    filledInode o (fatWriteInode o inode de) isDir inode.size = reread o inode := by
  obtain ⟨ro, hro, hmode⟩ := h.mode
  obtain ⟨hdir, hro', hkept, hsys⟩ := attrsOf_spec isDir ro (holdsRo o isDir) hro h.attrs
  have hattr : (fatWriteInode o inode de).attr = attrsOf isDir ro inode.attrs :=
    fatWriteInode_attr.trans (fatMakeAttrs_eq hmode hro)
  have hmake : fatMakeMode o (fatWriteInode o inode de).attr (basePerm o (fatWriteInode o inode de).name isDir) =
      inode.mode := by
    rw [hattr, fatMakeMode_eq hdir rfl, hro', fatWriteInode_name, hmode]
  have hstart : fatGetStart o (fatWriteInode o inode de) = inode.start := by
    rw [fatGetStart_fatWriteInode (h.logstart ▸ hs.start), h.logstart]
  have hattrs : (filledInode o (fatWriteInode o inode de) isDir inode.size).attrs = inode.attrs :=
    (fatSaveAttrs_attrs (hmake.trans hmode) _).trans (hattr ▸ hkept)
  have himmutable : (filledInode o (fatWriteInode o inode de) isDir inode.size).immutable = inode.immutable := by
    rw [h.immutable, ← hsys, ← hattr]
    rfl
  have hmtime : (filledInode o (fatWriteInode o inode de) isDir inode.size).mtime = inode.mtime := by
    rw [← h.mtime, ← fatTimeFat2unix_mtime hs.mtime]
    cases hvfat : o.isvfat <;> simp [filledInode, fatSaveAttrs, fatWriteInode, fatSetStart, hvfat]
  rw [reread]
  cases hvfat : o.isvfat with
  | false =>
    refine Inode.ext h.isRoot.symm hmake hattrs himmutable hstart (hstart.trans h.logstart.symm) rfl hmtime
      (hmtime.trans h.ctime.symm) ?_ ?_
    · rw [← hmtime]
      simp [filledInode, fatSaveAttrs, hvfat]
    · simp [filledInode, fatSaveAttrs, hvfat, h.crtime_msdos hvfat]
  | true =>
    refine Inode.ext h.isRoot.symm hmake hattrs himmutable hstart (hstart.trans h.logstart.symm) rfl hmtime
      (hmtime.trans h.ctime.symm) ?_ ?_
    · rw [if_pos rfl, ← h.atime, ← fatTimeFat2unix_atime (hs.atime hvfat)]
      simp [filledInode, fatSaveAttrs, fatWriteInode, hvfat]
    · have hnsec : (⟨inode.crtime.sec, inode.crtime.nsec / 10000000 * 10000000⟩ : Timespec) = inode.crtime := by
        rw [h.crtime.2]
      rw [if_pos rfl, ← hnsec, ← fatTimeFat2unix_fatTimeUnix2fat (hs.crtime hvfat) h.crtime.1]
      simp [filledInode, fatSaveAttrs, fatWriteInode, hvfat]

theorem fatFillInode_ok (hname : isFree de.name = false) (hfill : fatFillInode o dir de = .ok inode) :
    ∃ size, inode = filledInode o de (decide (de.attr &&& attrDir ≠ 0#8)) size := by
  rw [fatFillInode] at hfill
  by_cases hdir : de.attr &&& attrDir = 0#8
  · rw [if_neg (fun h => h.1 hdir)] at hfill
    cases hfill
    exact ⟨de.size, by simp [hdir]⟩
  · rw [if_pos ⟨hdir, hname⟩] at hfill
    cases hsize : fatCalcDirSize o dir (fatGetStart o de) with
    | error e => simp [hsize, bind, Except.bind] at hfill
    | ok size =>
      cases hvalid : fatValidateDir o dir (fatGetStart o de) with
      | error e => simp [hsize, hvalid, bind, Except.bind] at hfill
      | ok _ =>
        simp only [hsize, hvalid, bind, Except.bind, pure, Except.pure, Except.ok.injEq] at hfill
        exact ⟨size, by simp [hdir, hfill]⟩

theorem fatFillInode_sound (hname : isFree de.name = false) (hfill : fatFillInode o dir de = .ok inode) :
    Sound o de.name (decide (de.attr &&& attrDir ≠ 0#8)) inode := by
  obtain ⟨size, rfl⟩ := fatFillInode_ok hname hfill
  exact sound_filledInode rfl size

theorem fatFillInode_fatWriteInode (hname : isFree de.name = false) (h : Sound o de.name isDir inode)
    (hs : Storable o dir isDir inode) :
    fatFillInode o dir (fatWriteInode o inode de) = .ok (reread o inode) := by
  have hfilled := filledInode_fatWriteInode h hs
  obtain ⟨ro, hro, hmode⟩ := h.mode
  have hdir := (attrsOf_spec isDir ro (holdsRo o isDir) hro h.attrs).1
  rw [← fatMakeAttrs_eq hmode hro, ← @fatWriteInode_attr o de inode] at hdir
  have hstart : fatGetStart o (fatWriteInode o inode de) = inode.start := by
    rw [fatGetStart_fatWriteInode (h.logstart ▸ hs.start), h.logstart]
  rw [fatFillInode, fatWriteInode_name]
  cases isDir with
  | true =>
    rw [if_pos ⟨of_decide_eq_true hdir, hname⟩, hstart, hs.dirSize rfl, hs.dirValid rfl, ← hfilled]
    rfl
  | false =>
    have hsize : (fatWriteInode o inode de).size = inode.size := by
      rw [← Nat.mod_eq_of_lt (hs.size rfl), fatWriteInode, h.sIsdir]
      cases o.isvfat <;> rfl
    rw [if_neg (fun hd => of_decide_eq_false hdir hd.1), hsize, hfilled]

end Entries

section Results

/-- Whatever is done to an inode after it was read, its entry takes it in, and reading the entry again gives it back. -/
theorem inode_survives (o : Options) (before dir : Directory) (de new : DirEntry) (inode : Inode)
    (changes : List Change) (hname : isFree de.name = false) (hfill : fatFillInode o before de = .ok inode)
    (hnew : new.name = de.name)
    (hs : Storable o dir (decide (de.attr &&& attrDir ≠ 0#8)) (run o inode changes)) :
    fatFillInode o dir (fatWriteInode o (run o inode changes) new) = .ok (reread o (run o inode changes)) := by
  have hsound := (fatFillInode_sound hname hfill).run changes
  rw [← hnew] at hsound hname
  exact fatFillInode_fatWriteInode hname hsound hs

def vfat : Options :=
  ⟨0o022, 0o022, false, true, true, false, true, true, 2, 12, ⟨some 60, 0⟩⟩

def initBat : DirEntry :=
  ⟨[0x49, 0x4e, 0x49, 0x54, 0x20, 0x20, 0x20, 0x20, 0x42, 0x41, 0x54], 0x21, 155, 0x6000, 0x5821, 0x5821, 1, 0x6000,
    0x5821, 7, 300⟩

def noDirectory : Directory := ⟨fun _ => .error .eio, fun _ => 0⟩

def user : Caller := ⟨false, none, none, none, true, ⟨1709210001, 5⟩⟩

def edits : List Change :=
  [.setattr user ⟨some 0o755, false, none, none⟩, .setAttributes user 0x22, .free 0 ⟨1709210001, 5⟩ none,
    .resize 0,
    .chainAdd 65540, .resize 70000, .writeEnd ⟨1709210002, 7⟩, .updateTime ⟨1709210009, 0⟩ true true]

def edited : Inode :=
  ⟨false, 0o100755, 0x22, false, 65540, 65540, 70000, ⟨1709210008, 0⟩, ⟨1709210008, 0⟩, ⟨1709161200, 0⟩,
    ⟨1704106801, 550000000⟩⟩

theorem inode_survives_initBat :
    fatFillInode vfat noDirectory (fatWriteInode vfat edited initBat) = .ok edited := by
  have hfill : (fatFillInode vfat noDirectory initBat).map (run vfat · edits) = .ok edited := by decide +kernel
  cases hok : fatFillInode vfat noDirectory initBat with
  | error e => simp [hok, Except.map] at hfill
  | ok inode =>
    have hrun : run vfat inode edits = edited := by simpa [hok, Except.map] using hfill
    have h := inode_survives vfat noDirectory noDirectory initBat initBat inode edits (by decide) hok rfl
    rw [hrun] at h
    exact h ⟨by decide, fun _ => by decide, fun _ => by decide, by decide, fun _ => by decide, by decide, by decide⟩

/-- FAT_IOCTL_SET_ATTRIBUTES gives FAT_IOCTL_GET_ATTRIBUTES what was asked for, but for the label and directory bits,
or fails and changes nothing. On a quiet mount it succeeds even if the change of the mode was refused; then a mode that
can hold the read-only bit keeps it. -/
theorem attributes_as_asked (o : Options) (dir : Directory) (de : DirEntry) (inode : Inode) (changes : List Change)
    (hname : isFree de.name = false) (hfill : fatFillInode o dir de = .ok inode) (c : Caller) (asked : BitVec 32) :
    let old := run o inode changes
    let answer := fatIoctlSetAttributes o c old asked
    answer.1 = refusal o c old asked ∧ (answer.1 ≠ none → answer.2 = old) ∧
      (answer.1 = none → c.prepare = none →
        fatMakeAttrs o answer.2 = asked.setWidth 8 &&& 0x27#8 ||| (fatMakeAttrs o old &&& 0x18#8)) ∧
      (answer.1 = none → c.prepare ≠ none → o.quiet = true ∧ answer.2.mode = old.mode ∧
        fatMakeAttrs o answer.2 =
          if fatModeCanHoldRo o old then asked.setWidth 8 &&& 0x26#8 ||| (fatMakeAttrs o old &&& 0x19#8)
          else asked.setWidth 8 &&& 0x27#8 ||| (fatMakeAttrs o old &&& 0x18#8)) := by
  dsimp only
  have h := (fatFillInode_sound hname hfill).run changes
  generalize decide (de.attr &&& attrDir ≠ 0#8) = isDir at h
  generalize run o inode changes = old at h
  have hdir := h.wantedAttrs_dir asked
  obtain ⟨e, hrefusal, heq⟩ | ⟨hrefusal, ro, immutable, hro, -, hasked, hquiet, heq⟩ := h.ioctl_cases c asked
  · rw [heq, hrefusal]
    exact ⟨rfl, fun _ => rfl, nofun, nofun⟩
  rw [heq, hrefusal]
  have hmode : (fatSaveAttrs o { old with mode := modeOf o de.name isDir ro, immutable := immutable }
      (wantedAttrs old asked)).mode = modeOf o de.name isDir ro := rfl
  have hattrs := fatMakeAttrs_eq hmode hro
  rw [fatSaveAttrs_attrs rfl] at hattrs
  refine ⟨rfl, fun hne => absurd rfl hne, fun _ hprepare => ?_, fun _ hprepare => ?_⟩
  · rw [hattrs, hasked hprepare, attrsOf_wanted isDir _ hdir, h.wantedAttrs_and asked (by decide) (by decide)]
    rfl
  · refine ⟨(hquiet hprepare).1, (hquiet hprepare).2.symm, ?_⟩
    have hold := fatMakeAttrs_eq (hquiet hprepare).2 hro
    rw [hattrs, attrsOf_unchanged isDir ro _ hro hdir, h.canHold]
    cases hholds : holdsRo o isDir with
    | true =>
        have hro' : fatMakeAttrs o old &&& attrRo = if ro then attrRo else 0#8 := by
          rw [hold]
          exact attrsOf_and_attrRo isDir ro (hholds ▸ h.attrs)
        rw [if_pos rfl, if_pos rfl, h.wantedAttrs_and asked (by decide) (by decide), ← hro', BitVec.or_assoc,
          ← BitVec.and_or_distrib_left]
        rfl
    | false =>
        rw [if_neg Bool.false_ne_true, if_neg Bool.false_ne_true, h.wantedAttrs_and asked (by decide) (by decide)]
        rfl

def quietVfat : Options := { vfat with quiet := true }

def stranger : Caller := { user with prepare := some .eperm }

theorem attributes_as_asked_initBat :
    (∃ inode, fatFillInode vfat noDirectory initBat = .ok inode ∧
      fatMakeAttrs vfat (fatIoctlSetAttributes vfat user inode 0x36).2 = 0x26) ∧
    ∃ inode, fatFillInode quietVfat noDirectory initBat = .ok inode ∧
      (fatIoctlSetAttributes quietVfat stranger inode 0x36).1 = none ∧
      fatMakeAttrs quietVfat (fatIoctlSetAttributes quietVfat stranger inode 0x36).2 = 0x27 := by
  constructor
  · have h := attributes_as_asked vfat noDirectory initBat (filledInode vfat initBat false 300) [] (by decide) rfl user
      0x36
    exact ⟨_, rfl, (h.2.2.1 (by decide +kernel) rfl).trans (by decide +kernel)⟩
  · have h := attributes_as_asked quietVfat noDirectory initBat (filledInode quietVfat initBat false 300) []
      (by decide) rfl
      stranger 0x36
    have hnone : (fatIoctlSetAttributes quietVfat stranger (run quietVfat _ []) 0x36).1 = none := h.1.trans rfl
    exact ⟨_, rfl, hnone, (h.2.2.2 hnone (by decide)).2.2.trans (by decide +kernel)⟩

end Results

end SuperRaid.FatInode
