import SuperRaid.FatTime

namespace SuperRaid.FatInode

open FatTime

def sIfmt : BitVec 16 := 0o170000
def sIfdir : BitVec 16 := 0o040000
def sIfreg : BitVec 16 := 0o100000
def sIallugo : BitVec 16 := 0o7777
def sIrwxugo : BitVec 16 := 0o777
def sIrugo : BitVec 16 := 0o444
def sIwugo : BitVec 16 := 0o222
def sIxugo : BitVec 16 := 0o111

def attrRo : BitVec 8 := 1
def attrSys : BitVec 8 := 4
def attrVolume : BitVec 8 := 8
def attrDir : BitVec 8 := 16
def attrArch : BitVec 8 := 32

/-- ATTR_UNUSED: the attributes that the mode does not show. -/
def attrUnused : BitVec 8 := 0x2e

inductive Errno
  | eio
  | eperm
  | einval
  | erofs
  | other (code : Nat)
  deriving DecidableEq

/-- The options of the mount, and what an inode needs of the rest of msdos_sb_info. -/
structure Options where
  fsFmask : BitVec 16
  fsDmask : BitVec 16
  rodir : Bool
  showexec : Bool
  sysImmutable : Bool
  quiet : Bool
  isvfat : Bool
  isFat32 : Bool
  rootCluster : Nat
  clusterBits : Nat
  zone : Zone

@[ext]
structure Inode where
  isRoot : Bool
  mode : BitVec 16
  attrs : BitVec 8
  immutable : Bool
  start : Nat
  logstart : Nat
  size : Nat
  mtime : Timespec
  ctime : Timespec
  atime : Timespec
  crtime : Timespec
  deriving DecidableEq

structure DirEntry where
  name : List Nat
  attr : BitVec 8
  ctimeCs : Nat
  ctime : Nat
  cdate : Nat
  adate : Nat
  starthi : Nat
  time : Nat
  date : Nat
  start : Nat
  size : Nat

/-- What reading the directory itself tells: the number of its last cluster, and of the directories in it. -/
structure Directory where
  lastCluster : Nat → Except Errno Nat
  subdirs : Nat → Nat

section Model

variable (o : Options)

def sIsdir (mode : BitVec 16) : Bool := mode &&& sIfmt = sIfdir

def sIsreg (mode : BitVec 16) : Bool := mode &&& sIfmt = sIfreg

def fatModeCanHoldRo (inode : Inode) : Bool :=
  if sIsdir inode.mode then o.rodir && ~~~o.fsDmask &&& sIwugo ≠ 0#16 else ~~~o.fsFmask &&& sIwugo ≠ 0#16

def fatMakeMode (attrs : BitVec 8) (mode : BitVec 16) : BitVec 16 :=
  let mode :=
    if attrs &&& attrRo ≠ 0#8 ∧ ¬ (attrs &&& attrDir ≠ 0#8 ∧ o.rodir = false) then mode &&& ~~~sIwugo else mode
  if attrs &&& attrDir ≠ 0#8 then mode &&& ~~~o.fsDmask ||| sIfdir else mode &&& ~~~o.fsFmask ||| sIfreg

def fatMakeAttrs (inode : Inode) : BitVec 8 :=
  let attrs := if sIsdir inode.mode then inode.attrs ||| attrDir else inode.attrs
  if fatModeCanHoldRo o inode ∧ inode.mode &&& sIwugo = 0#16 then attrs ||| attrRo else attrs

def fatSaveAttrs (inode : Inode) (attrs : BitVec 8) : Inode :=
  { inode with
    attrs := if fatModeCanHoldRo o inode then attrs &&& attrUnused else attrs &&& (attrUnused ||| attrRo) }

def fatGetStart (de : DirEntry) : Nat := if o.isFat32 then de.start ||| de.starthi <<< 16 else de.start

def fatSetStart (de : DirEntry) (cluster : Nat) : DirEntry :=
  { de with start := cluster % 2 ^ 16, starthi := (cluster >>> 16) % 2 ^ 16 }

def isFree (name : List Nat) : Bool := name.headD 0 = 0 ∨ name.headD 0 = 0xe5

/-- is_exec, on the extension. The names are EXE, COM and BAT. -/
def isExec (name : List Nat) : Bool :=
  let extension := (name.drop 8).take 3
  extension = [0x45, 0x58, 0x45] ∨ extension = [0x43, 0x4f, 0x4d] ∨ extension = [0x42, 0x41, 0x54]

def fatCalcDirSize (dir : Directory) (start : Nat) : Except Errno Nat :=
  if start = 0 then .ok 0 else (dir.lastCluster start).map fun fclus => (fclus + 1) <<< o.clusterBits

def fatValidateDir (dir : Directory) (start : Nat) : Except Errno Unit :=
  if dir.subdirs start < 2 then .error .eio
  else if start = 0 ∨ start = o.rootCluster then .error .eio
  else .ok ()

def filledInode (de : DirEntry) (isDir : Bool) (size : Nat) : Inode :=
  let perm := if isDir then sIrwxugo else
    if o.showexec ∧ isExec de.name = false then sIrugo ||| sIwugo else sIrwxugo
  let mtime := fatTimeFat2unix o.zone ⟨de.time, de.date, 0⟩
  fatSaveAttrs o
    { isRoot := false
      mode := fatMakeMode o de.attr perm
      attrs := 0#8
      immutable := o.sysImmutable && de.attr &&& attrSys ≠ 0#8
      start := fatGetStart o de
      logstart := fatGetStart o de
      size := size
      mtime := mtime
      ctime := mtime
      atime := if o.isvfat then fatTimeFat2unix o.zone ⟨0, de.adate, 0⟩ else fatTruncateAtime o.zone mtime
      crtime := if o.isvfat then fatTimeFat2unix o.zone ⟨de.ctime, de.cdate, de.ctimeCs⟩ else ⟨0, 0⟩ } de.attr

def fatFillInode (dir : Directory) (de : DirEntry) : Except Errno Inode :=
  if de.attr &&& attrDir ≠ 0#8 ∧ isFree de.name = false then do
    let size ← fatCalcDirSize o dir (fatGetStart o de)
    fatValidateDir o dir (fatGetStart o de)
    return filledInode o de true size
  else .ok (filledInode o de false de.size)

/-- The entry as __fat_write_inode leaves it. -/
def fatWriteInode (inode : Inode) (de : DirEntry) : DirEntry :=
  let mtime := fatTimeUnix2fat o.zone inode.mtime
  let de := fatSetStart { de with
    size := if sIsdir inode.mode then 0 else inode.size % 2 ^ 32
    attr := fatMakeAttrs o inode } inode.logstart
  let de := { de with time := mtime.time, date := mtime.date }
  if o.isvfat then
    let crtime := fatTimeUnix2fat o.zone inode.crtime
    { de with
      adate := (fatTimeUnix2fat o.zone inode.atime).date
      ctime := crtime.time
      cdate := crtime.date
      ctimeCs := crtime.cs }
  else de

def fatTruncateTime (inode : Inode) (now : Timespec) (atime mtime : Bool) : Inode :=
  if inode.isRoot then inode else
    let inode := if atime then { inode with atime := fatTruncateAtime o.zone now } else inode
    if mtime then { inode with mtime := fatTruncateMtime now, ctime := fatTruncateMtime now } else inode

structure Iattr where
  mode : Option (BitVec 16)
  chown : Bool
  atime : Option Timespec
  mtime : Option Timespec

/-- How the kernel answers on the way: whether the gate for writers is shut, the first error of get_user and
mnt_want_write_file, those of the security hook and setattr_prepare, whether the caller may change what is immutable,
and the time. -/
structure Caller where
  blocked : Bool
  want : Option Errno
  security : Option Errno
  prepare : Option Errno
  capable : Bool
  now : Timespec

variable (c : Caller)

/-- fat_sanitize_mode: the mode to set, if it is one that an entry can hold. -/
def fatSanitizeMode (inode : Inode) (mode : BitVec 16) : Option (BitVec 16) :=
  let mask := if sIsreg inode.mode then o.fsFmask else o.fsDmask
  let perm := mode &&& ~~~(sIfmt ||| mask)
  if perm &&& (sIrugo ||| sIxugo) ≠ inode.mode &&& (sIrugo ||| sIxugo) then none
  else if fatModeCanHoldRo o inode then
    if perm &&& sIwugo ≠ 0#16 ∧ perm &&& sIwugo ≠ sIwugo &&& ~~~mask then none
    else some (mode &&& (sIfmt ||| perm))
  else if perm &&& sIwugo ≠ sIwugo &&& ~~~mask then none else some (mode &&& (sIfmt ||| perm))

def setTimes (inode : Inode) (attr : Iattr) : Inode :=
  let inode := match attr.atime with
    | some now => fatTruncateTime o inode now true false
    | none => inode
  match attr.mtime with
  | some now => fatTruncateTime o inode now false true
  | none => inode

/-- __fat_setattr, for a request that leaves the size alone. -/
def setattrCore (inode : Inode) (attr : Iattr) : Option Errno × Inode :=
  match c.prepare with
  | some e => (if o.quiet then none else some e, inode)
  | none =>
    if attr.chown ∨ attr.mode.any (fun mode => mode &&& ~~~(sIfreg ||| sIfdir ||| sIrwxugo) ≠ 0#16) then
      (if o.quiet then none else some .eperm, inode)
    else
      let mode := attr.mode.bind (fatSanitizeMode o inode)
      let inode := setTimes o inode attr
      (none, { inode with mode := mode.getD inode.mode })

def fatSetattr (inode : Inode) (attr : Iattr) : Option Errno × Inode :=
  if c.blocked then (some .erofs, inode) else setattrCore o c inode attr

/-- The attributes an ioctl asks for: those of the volume label and of directories cannot be changed. -/
def wantedAttrs (inode : Inode) (attr : BitVec 32) : BitVec 8 :=
  attr.setWidth 8 &&& ~~~(attrVolume ||| attrDir) |||
    (inode.attrs &&& attrVolume ||| if sIsdir inode.mode then attrDir else 0#8)

def wantedMode (inode : Inode) (attr : BitVec 8) : BitVec 16 :=
  fatMakeMode o attr (if sIsdir inode.mode then sIrwxugo else sIrugo ||| sIwugo ||| (inode.mode &&& sIxugo))

def finishAttributes (attr : BitVec 8) : Option Errno × Inode → Option Errno × Inode
  | (some e, inode) => (some e, inode)
  | (none, inode) =>
    (none, fatSaveAttrs o
      { inode with immutable := if o.sysImmutable then attr &&& attrSys ≠ 0#8 else inode.immutable } attr)

def fatIoctlSetAttributes (inode : Inode) (user : BitVec 32) : Option Errno × Inode :=
  if c.blocked then (some .erofs, inode) else
  match c.want with
  | some e => (some e, inode)
  | none =>
    let attr := wantedAttrs inode user
    if inode.isRoot ∧ attr ≠ attrDir then (some .einval, inode)
    else if o.sysImmutable ∧ (attr ||| fatMakeAttrs o inode) &&& attrSys ≠ 0#8 ∧ c.capable = false then
      (some .eperm, inode)
    else match c.security with
      | some e => (some e, inode)
      | none =>
        finishAttributes o attr (setattrCore o c inode ⟨some (wantedMode o inode attr), false, none, none⟩)

/-- What happens to an inode in memory: chmod, chown and utimes, the ioctl, an access, a write, its first cluster, the
start of fat_free, and a new size. -/
inductive Change
  | setattr (c : Caller) (attr : Iattr)
  | setAttributes (c : Caller) (attr : BitVec 32)
  | updateTime (now : Timespec) (atime mtime : Bool)
  | writeEnd (now : Timespec)
  | chainAdd (start : Nat)
  | free (skip : Nat) (now : Timespec) (sync : Option Errno)
  | resize (size : Nat)

/-- The file type in the mode is the inode's, as chmod_common has it. -/
def chmodCommon (inode : Inode) (attr : Iattr) : Iattr :=
  { attr with mode := attr.mode.map fun mode => mode &&& sIallugo ||| (inode.mode &&& ~~~sIallugo) }

def fatWriteEnd (inode : Inode) (now : Timespec) : Inode :=
  if inode.attrs &&& attrArch ≠ 0#8 then inode
  else
    let inode := fatTruncateTime o inode now false true
    { inode with attrs := inode.attrs ||| attrArch }

/-- fat_free, as far as it changes the inode. A failing fat_sync_inode puts the start back. -/
def fatFree (inode : Inode) (skip : Nat) (now : Timespec) (sync : Option Errno) : Inode :=
  if inode.start = 0 then inode else
    let freed := fatTruncateTime o { inode with attrs := inode.attrs ||| attrArch } now false true
    if skip = 0 ∧ sync = none then { freed with start := 0, logstart := 0 } else freed

def step (inode : Inode) : Change → Inode
  | .setattr c attr => (fatSetattr o c inode (chmodCommon inode attr)).2
  | .setAttributes c attr => (fatIoctlSetAttributes o c inode attr).2
  | .updateTime now atime mtime => fatTruncateTime o inode now atime mtime
  | .writeEnd now => fatWriteEnd o inode now
  | .chainAdd start => if inode.start = 0 then { inode with start := start, logstart := start } else inode
  | .free skip now sync => fatFree o inode skip now sync
  | .resize size => { inode with size := size }

def run (inode : Inode) (changes : List Change) : Inode := changes.foldl (step o) inode

end Model

end SuperRaid.FatInode
