import SuperRaid.FatTableSpec
import SuperRaid.FatWriteback

namespace SuperRaid.FatMount

open Image FatEntry FatTable
open FatWriteback (isFsinfo fsinfoBlock)

inductive Refusal
  | bootSector
  | reserved
  | fats
  | media (value : Nat)
  | sectorSize (size : Nat)
  | secPerClus (sectors : Nat)
  | fatSectors
  | bootstrap
  | nonzeroBpb
  | floppySize (sectors : Nat)
  | tooSmall (size : Nat)
  | blocksize (size : Nat)
  | fsinfo (sector : Nat)
  | dirEntries (entries : Nat)
  | clusters (clusters : Nat)
  deriving DecidableEq

def Refusal.errno : Refusal → Errno
  | .bootSector | .tooSmall _ | .blocksize _ | .fsinfo _ => .eio
  | _ => .einval

/-- The block device. Which blocks cannot be read, and which block sizes it does not take, is up to it. -/
structure Device where
  img : Bytes
  sectors : Nat
  minBlocksize : Nat
  readable : Nat → Nat → Bool
  takes : Nat → Bool

def Device.bread (dev : Device) (blocksize b : Nat) : Option Bytes :=
  if dev.readable blocksize b ∧ (b + 1) * blocksize ≤ dev.img.length then
    some (slice dev.img (b * blocksize) blocksize)
  else none

structure MountOptions where
  usefree : Bool
  dos1xfloppy : Bool

/-- struct fat_bios_param_block, without what does not bear on the layout. -/
structure Bpb where
  sectorSize : Nat
  secPerClus : Nat
  reserved : Nat
  fats : Nat
  dirEntries : Nat
  sectors : Nat
  fatLength : Nat
  totalSect : Nat
  fat32Length : Nat
  fat32RootCluster : Nat
  fat32InfoSector : Nat
  deriving DecidableEq

def field (b : Bytes) (off n : Nat) : Nat := leNat (slice b off n)

def fatValidMedia (media : Nat) : Bool := 0xf8 ≤ media ∨ media = 0xf0

def isPowerOf2 (n : Nat) : Bool := n ≠ 0 ∧ n &&& (n - 1) = 0

def bpbOf (b : Bytes) : Bpb where
  sectorSize := field b 11 2
  secPerClus := field b 13 1
  reserved := field b 14 2
  fats := field b 16 1
  dirEntries := field b 17 2
  sectors := field b 19 2
  fatLength := field b 22 2
  totalSect := field b 32 4
  fat32Length := field b 36 4
  fat32RootCluster := field b 44 4
  fat32InfoSector := field b 48 2

def fatReadBpb (b : Bytes) : Except Refusal Bpb :=
  let bpb := bpbOf b
  if bpb.reserved = 0 then .error .reserved
  else if bpb.fats = 0 then .error .fats
  else if fatValidMedia (field b 21 1) = false then .error (.media (field b 21 1))
  else if isPowerOf2 bpb.sectorSize = false ∨ bpb.sectorSize < 512 ∨ 4096 < bpb.sectorSize then
    .error (.sectorSize bpb.sectorSize)
  else if isPowerOf2 bpb.secPerClus = false then .error (.secPerClus bpb.secPerClus)
  else if bpb.fatLength = 0 ∧ bpb.fat32Length = 0 then .error .fatSectors
  else .ok bpb

def fatBpbIsZero (b : Bytes) : Bool :=
  field b 11 2 = 0 ∧ field b 13 1 = 0 ∧ field b 14 2 = 0 ∧ field b 16 1 = 0 ∧ field b 17 2 = 0 ∧
    field b 19 2 = 0 ∧
    field b 21 1 = 0 ∧ field b 22 2 = 0 ∧ field b 24 2 = 0 ∧ field b 26 2 = 0

def floppyDefaults : List (Nat × Nat × Nat × Nat) :=
  [(320, 1, 64, 1), (360, 1, 64, 2), (640, 2, 112, 1), (720, 2, 112, 2)]

def fatReadStaticBpb (sectors : Nat) (b : Bytes) : Except Refusal Bpb :=
  if field b 0 1 ≠ 0xeb ∨ field b 2 1 ≠ 0x90 then .error .bootstrap
  else if fatBpbIsZero b = false then .error .nonzeroBpb
  else
    match floppyDefaults.find? (fun d => d.1 = sectors) with
    | none => .error (.floppySize sectors)
    | some (nrSectors, secPerClus, dirEntries, fatLength) =>
        .ok ⟨512, secPerClus, 1, 2, dirEntries, nrSectors, fatLength, 0, 0, 0, 0⟩

/-- What fat_read_bpb refuses may still be a floppy disk without a BPB. -/
def readBpb (opt : MountOptions) (dev : Device) (b : Bytes) : Except Refusal Bpb :=
  match fatReadBpb b with
  | .ok bpb => .ok bpb
  | .error e => if opt.dos1xfloppy then fatReadStaticBpb dev.sectors b else .error e

namespace Bpb

variable (bpb : Bpb)

def isFat32 : Bool := bpb.fatLength = 0 ∧ bpb.fat32Length ≠ 0

def length : Nat := if bpb.isFat32 then bpb.fat32Length else bpb.fatLength

def infoSector : Nat := if bpb.fat32InfoSector = 0 then 1 else bpb.fat32InfoSector

def dirPerBlock : Nat := bpb.sectorSize / 32

def dirStart : Nat := bpb.reserved + bpb.fats * bpb.length

def dataStart : Nat := bpb.dirStart + bpb.dirEntries * 32 / bpb.sectorSize

def total : Nat := if bpb.sectors = 0 then bpb.totalSect else bpb.sectors

/-- The subtraction is one of unsigned longs, and nobody has compared the two. -/
def totalClusters : Nat :=
  (BitVec.ofNat 64 bpb.total - BitVec.ofNat 64 bpb.dataStart).toNat / bpb.secPerClus % 2 ^ 32

def variant : Variant :=
  if bpb.isFat32 then .fat32 else if 0xff4 < bpb.totalClusters then .fat16 else .fat12

def calcFatClusters : Nat :=
  if bpb.variant ≠ .fat12 then bpb.sectorSize * 8 / bpb.variant.bits * bpb.length
  else bpb.length * bpb.sectorSize * 8 / bpb.variant.bits

def clusters : Nat := min bpb.totalClusters (BitVec.ofNat 32 bpb.calcFatClusters - 2).toNat

end Bpb

def maxFat : Variant → Nat
  | .fat12 => 0xff4
  | .fat16 => 0xfff4
  | .fat32 => 0x0ffffff6

/-- The counters as FSINFO has them: free_clusters, free_clus_valid and prev_free. -/
structure Counters where
  freeClusters : BitVec 32
  freeClusValid : Bool
  prevFree : Nat
  deriving DecidableEq

def readFsinfo (opt : MountOptions) (dev : Device) (bpb : Bpb) : Except Refusal Counters :=
  if bpb.isFat32 then
    match dev.bread bpb.sectorSize bpb.infoSector with
    | none => .error (.fsinfo bpb.infoSector)
    | some blk =>
        if isFsinfo blk then .ok ⟨BitVec.ofNat 32 (field blk 488 4), opt.usefree, field blk 492 4⟩
        else .ok ⟨unknown, false, startEnt⟩
  else .ok ⟨unknown, false, startEnt⟩

structure Super where
  blockSize : Nat
  secPerClus : Nat
  variant : Variant
  fats : Nat
  fatStart : Nat
  fatLength : Nat
  rootCluster : Nat
  fsinfoSector : Nat
  dirStart : Nat
  dirEntries : Nat
  dataStart : Nat
  maxCluster : Nat
  counters : Counters
  deriving DecidableEq

def checkCounters (clusters : Nat) (c : Counters) : Counters where
  freeClusters := if c.freeClusters ≠ unknown ∧ clusters < c.freeClusters.toNat then unknown else c.freeClusters
  freeClusValid := c.freeClusValid
  prevFree := max (c.prevFree % (clusters + startEnt)) startEnt

def superOf (bpb : Bpb) (c : Counters) : Super where
  blockSize := bpb.sectorSize
  secPerClus := bpb.secPerClus
  variant := bpb.variant
  fats := bpb.fats
  fatStart := bpb.reserved
  fatLength := bpb.length
  rootCluster := if bpb.isFat32 then bpb.fat32RootCluster else 0
  fsinfoSector := if bpb.isFat32 then bpb.infoSector else 0
  dirStart := bpb.dirStart
  dirEntries := bpb.dirEntries
  dataStart := bpb.dataStart
  maxCluster := bpb.clusters + startEnt
  counters := checkCounters bpb.clusters c

def layout (bpb : Bpb) (c : Counters) : Except Refusal Super :=
  if bpb.dirEntries &&& (bpb.dirPerBlock - 1) ≠ 0 then .error (.dirEntries bpb.dirEntries)
  else if maxFat bpb.variant < bpb.clusters then .error (.clusters bpb.clusters)
  else .ok (superOf bpb c)

/-- The device is switched to the sector size of the file system. -/
def setBlocksize (dev : Device) (size : Nat) : Except Refusal Unit :=
  if size < dev.minBlocksize then .error (.tooSmall size)
  else if dev.minBlocksize < size ∧ dev.takes size = false then .error (.blocksize size)
  else if dev.minBlocksize < size ∧ dev.bread size 0 = none then .error .bootSector
  else .ok ()

/-- fat_fill_super, up to where the super block is complete. -/
def fatFillSuper (opt : MountOptions) (dev : Device) : Except Refusal Super :=
  match dev.bread dev.minBlocksize 0 with
  | none => .error .bootSector
  | some boot => do
      let bpb ← readBpb opt dev boot
      setBlocksize dev bpb.sectorSize
      let c ← readFsinfo opt dev bpb
      layout bpb c

def fatClusToBlknr (sb : Super) (clus : Nat) : Nat := (clus - startEnt) * sb.secPerClus + sb.dataStart

/-- fat_clusters_flush, on the device. -/
def fatClustersFlush (sb : Super) (free next : BitVec 32) (img : Bytes) : Bytes :=
  let blk := slice img (sb.fsinfoSector * sb.blockSize) sb.blockSize
  if sb.variant = .fat32 ∧ isFsinfo blk then
    overwrite img (sb.fsinfoSector * sb.blockSize) (fsinfoBlock free next blk)
  else img

variable {opt : MountOptions} {dev : Device} {boot : Bytes} {bpb : Bpb} {c : Counters} {sb : Super} {vol : Volume}

section Accepted

theorem passed {α : Type} {p : Prop} [Decidable p] {e : Refusal} {rest : Except Refusal α} {a : α}
    (h : (if p then .error e else rest) = .ok a) : ¬ p ∧ rest = .ok a := by
  by_cases hp : p
  · rw [if_pos hp] at h
    cases h
  · rw [if_neg hp] at h
    exact ⟨hp, h⟩

theorem bind_ok {α β : Type} {x : Except Refusal α} {f : α → Except Refusal β} {b : β} (h : x >>= f = .ok b) :
    ∃ a, x = .ok a ∧ f a = .ok b := by
  cases x with
  | error e => cases h
  | ok a => exact ⟨a, rfl, h⟩

theorem leNat_lt (bs : Bytes) : leNat bs < 256 ^ bs.length := by
  induction bs with
  | nil => simp [leNat]
  | cons b bs ih =>
      have hb := b.isLt
      rw [leNat, List.length_cons, Nat.pow_succ']
      omega

theorem field_lt (b : Bytes) (off n : Nat) : field b off n < 256 ^ n := by
  have hlen : (slice b off n).length ≤ n := List.length_take_le _ _
  exact (leNat_lt _).trans_le (Nat.pow_le_pow_right (by decide) hlen)

theorem eq_pow_of_isPowerOf2 {n k : Nat} (h : isPowerOf2 n = true) (hle : 2 ^ k ≤ n) : ∃ m, n = 2 ^ (k + m) := by
  obtain ⟨hne, hand⟩ := of_decide_eq_true h
  obtain ⟨m, rfl⟩ := (Nat.and_sub_one_eq_zero_iff_isPowerOfTwo hne).mp hand
  have hkm : k ≤ m := (Nat.pow_le_pow_iff_right (by decide)).mp hle
  exact ⟨m - k, by rw [Nat.add_sub_cancel' hkm]⟩

structure Bpb.Ok (bpb : Bpb) : Prop where
  fats : 0 < bpb.fats
  sectorSize : ∃ k, bpb.sectorSize = 2 ^ (9 + k)
  secPerClus : 0 < bpb.secPerClus
  length : 0 < bpb.length
  total : bpb.total < 2 ^ 32

theorem Bpb.Ok.dvd_sectorSize (h : bpb.Ok) : 512 ∣ bpb.sectorSize := by
  obtain ⟨k, hk⟩ := h.sectorSize
  exact ⟨2 ^ k, by rw [hk, Nat.pow_add]⟩

theorem Bpb.Ok.le_sectorSize (h : bpb.Ok) : 512 ≤ bpb.sectorSize := by
  obtain ⟨k, hk⟩ := h.sectorSize
  exact Nat.le_of_dvd (hk ▸ Nat.two_pow_pos _) h.dvd_sectorSize

theorem length_pos (h : ¬ (bpb.fatLength = 0 ∧ bpb.fat32Length = 0)) : 0 < bpb.length := by
  unfold Bpb.length Bpb.isFat32
  split_ifs with hfat32
  · exact Nat.pos_of_ne_zero (of_decide_eq_true hfat32).2
  · refine Nat.pos_of_ne_zero (fun hzero => hfat32 (decide_eq_true ⟨hzero, fun h32 => h ⟨hzero, h32⟩⟩))

theorem ok_of_fatReadBpb (h : fatReadBpb boot = .ok bpb) : bpb.Ok := by
  unfold fatReadBpb at h
  obtain ⟨-, h⟩ := passed h
  obtain ⟨hfats, h⟩ := passed h
  obtain ⟨-, h⟩ := passed h
  obtain ⟨hsize, h⟩ := passed h
  obtain ⟨hclus, h⟩ := passed h
  obtain ⟨hlength, h⟩ := passed h
  cases h
  simp only [not_or, Nat.not_lt, Bool.not_eq_false] at hsize hclus
  refine ⟨Nat.pos_of_ne_zero hfats, eq_pow_of_isPowerOf2 hsize.1 hsize.2.1,
    Nat.pos_of_ne_zero (of_decide_eq_true hclus).1, length_pos hlength, ?_⟩
  have hsectors := field_lt boot 19 2
  have htotal := field_lt boot 32 4
  show (if field boot 19 2 = 0 then field boot 32 4 else field boot 19 2) < 2 ^ 32
  by_cases hzero : field boot 19 2 = 0
  · rw [if_pos hzero]
    exact htotal
  · rw [if_neg hzero]
    exact hsectors.trans (by decide)

theorem ok_of_fatReadStaticBpb {sectors : Nat} (h : fatReadStaticBpb sectors boot = .ok bpb) : bpb.Ok := by
  unfold fatReadStaticBpb at h
  obtain ⟨-, h⟩ := passed h
  obtain ⟨-, h⟩ := passed h
  cases hfind : floppyDefaults.find? (fun d => d.1 = sectors) with
  | none => simp [hfind] at h
  | some d =>
      have hmem := List.mem_of_find?_eq_some hfind
      obtain ⟨nrSectors, secPerClus, dirEntries, fatLength⟩ := d
      simp only [hfind, Except.ok.injEq] at h
      subst h
      simp only [floppyDefaults, List.mem_cons, List.not_mem_nil, or_false, Prod.mk.injEq] at hmem
      obtain ⟨rfl, rfl, rfl, rfl⟩ | ⟨rfl, rfl, rfl, rfl⟩ | ⟨rfl, rfl, rfl, rfl⟩
          | ⟨rfl, rfl, rfl, rfl⟩ := hmem <;>
        exact ⟨by decide, ⟨0, rfl⟩, by decide, by decide, by decide⟩

theorem ok_of_readBpb (h : readBpb opt dev boot = .ok bpb) : bpb.Ok := by
  unfold readBpb at h
  cases hread : fatReadBpb boot with
  | ok bpb' =>
      rw [hread] at h
      cases h
      exact ok_of_fatReadBpb hread
  | error e =>
      rw [hread] at h
      cases hopt : opt.dos1xfloppy with
      | false => simp [hopt] at h
      | true =>
          simp only [hopt, if_true] at h
          exact ok_of_fatReadStaticBpb h

/-- Everything that has gone well when fat_fill_super has a super block. -/
structure Accepted (opt : MountOptions) (dev : Device) (boot : Bytes) (bpb : Bpb) (c : Counters) (sb : Super) :
    Prop where
  bread : dev.bread dev.minBlocksize 0 = some boot
  readBpb : readBpb opt dev boot = .ok bpb
  setBlocksize : setBlocksize dev bpb.sectorSize = .ok ()
  readFsinfo : readFsinfo opt dev bpb = .ok c
  layout : layout bpb c = .ok sb

theorem fatFillSuper_eq_ok (h : fatFillSuper opt dev = .ok sb) : ∃ boot bpb c, Accepted opt dev boot bpb c sb := by
  unfold fatFillSuper at h
  cases hboot : dev.bread dev.minBlocksize 0 with
  | none => simp [hboot] at h
  | some boot =>
      rw [hboot] at h
      obtain ⟨bpb, hbpb, h⟩ := bind_ok h
      obtain ⟨⟨⟩, hsize, h⟩ := bind_ok h
      obtain ⟨c, hc, h⟩ := bind_ok h
      exact ⟨boot, bpb, c, hboot, hbpb, hsize, hc, h⟩

theorem Accepted.fatFillSuper_eq (h : Accepted opt dev boot bpb c sb) : fatFillSuper opt dev = .ok sb := by
  unfold fatFillSuper
  rw [h.bread]
  show (FatMount.readBpb opt dev boot >>= _) = _
  rw [h.readBpb]
  show (FatMount.setBlocksize dev bpb.sectorSize >>= _) = _
  rw [h.setBlocksize]
  show (FatMount.readFsinfo opt dev bpb >>= _) = _
  rw [h.readFsinfo]
  exact h.layout

theorem Accepted.ok (h : Accepted opt dev boot bpb c sb) : bpb.Ok := ok_of_readBpb h.readBpb

theorem layout_eq_ok (h : layout bpb c = .ok sb) :
    bpb.dirEntries &&& (bpb.dirPerBlock - 1) = 0 ∧ bpb.clusters ≤ maxFat bpb.variant ∧ sb = superOf bpb c := by
  obtain ⟨hdir, h⟩ := passed h
  obtain ⟨hmax, h⟩ := passed h
  cases h
  exact ⟨not_not.mp hdir, Nat.le_of_not_lt hmax, rfl⟩

end Accepted

section Volume

theorem Bpb.Ok.clusters_le (h : bpb.Ok) (hmax : bpb.clusters ≤ maxFat bpb.variant) :
    bpb.clusters + 2 ≤ bpb.calcFatClusters := by
  have hlarge : 2 ≤ bpb.calcFatClusters := by
    have hlen := h.length
    have hsize := h.le_sectorSize
    have hprod : 512 ≤ bpb.length * bpb.sectorSize := hsize.trans (Nat.le_mul_of_pos_left _ hlen)
    unfold Bpb.calcFatClusters
    split_ifs with hv
    · have hper : 2 ≤ bpb.sectorSize * 8 / bpb.variant.bits := by
        cases bpb.variant <;> simp only [Variant.bits] <;> omega
      exact hper.trans (Nat.le_mul_of_pos_right _ hlen)
    · have hbits : bpb.variant.bits = 12 := by rw [not_not.mp hv]; rfl
      rw [hbits]
      omega
  have hsmall : maxFat bpb.variant < 2 ^ 28 := by cases bpb.variant <;> simp [maxFat]
  have hmin : bpb.clusters ≤ (BitVec.ofNat 32 bpb.calcFatClusters - 2).toNat := min_le_right _ _
  rw [BitVec.toNat_sub, BitVec.toNat_ofNat] at hmin
  have htwo : (2 : BitVec 32).toNat = 2 := rfl
  rw [htwo] at hmin
  omega

theorem Bpb.Ok.fits (h : bpb.Ok) (hmax : bpb.clusters ≤ maxFat bpb.variant) :
    bpb.variant.bits * (bpb.clusters + startEnt) ≤ 8 * (bpb.length * bpb.sectorSize) := by
  have hle := h.clusters_le hmax
  have hentries : bpb.variant.bits * bpb.calcFatClusters ≤ 8 * (bpb.length * bpb.sectorSize) := by
    unfold Bpb.calcFatClusters
    split_ifs with hv
    · calc bpb.variant.bits * (bpb.sectorSize * 8 / bpb.variant.bits * bpb.length)
          = bpb.variant.bits * (bpb.sectorSize * 8 / bpb.variant.bits) * bpb.length := by ring
        _ ≤ bpb.sectorSize * 8 * bpb.length := Nat.mul_le_mul_right _ (Nat.mul_div_le _ _)
        _ = 8 * (bpb.length * bpb.sectorSize) := by ring
    · calc bpb.variant.bits * (bpb.length * bpb.sectorSize * 8 / bpb.variant.bits)
          ≤ bpb.length * bpb.sectorSize * 8 := Nat.mul_div_le _ _
        _ = 8 * (bpb.length * bpb.sectorSize) := by ring
  exact (Nat.mul_le_mul_left _ hle).trans hentries

structure Super.Describes (sb : Super) (vol : Volume) : Prop where
  variant : sb.variant = vol.variant
  blockSize : sb.blockSize = vol.blockSize
  fats : sb.fats = vol.fats
  fatStart : sb.fatStart = vol.fatStart
  fatLength : sb.fatLength = vol.fatLength
  maxCluster : sb.maxCluster = vol.maxCluster

theorem checkCounters_spec (clusters : Nat) (c : Counters) :
    startEnt ≤ (checkCounters clusters c).prevFree ∧
    (0 < clusters → (checkCounters clusters c).prevFree < clusters + startEnt) ∧
    ((checkCounters clusters c).freeClusters ≠ unknown →
      (checkCounters clusters c).freeClusters.toNat ≤ clusters) := by
  refine ⟨le_max_right _ _, fun hpos => max_lt (Nat.mod_lt _ (by simp [startEnt])) (by omega), fun hknown => ?_⟩
  by_cases hlarge : c.freeClusters ≠ unknown ∧ clusters < c.freeClusters.toNat
  · exact absurd (if_pos hlarge) hknown
  · have heq : (checkCounters clusters c).freeClusters = c.freeClusters := if_neg hlarge
    rw [heq] at hknown ⊢
    exact Nat.le_of_not_lt (fun hlt => hlarge ⟨hknown, hlt⟩)

/-- What mount accepts is a volume as the functions on the FAT expect it, with counters that make sense. Only where
there are as many clusters as the limit of FAT32 allows, the last one has the number of the mark of a bad cluster. -/
theorem fatFillSuper_volume (h : fatFillSuper opt dev = .ok sb) (hlast : sb.maxCluster ≠ 0x0ffffff8) :
    ∃ vol : Volume, sb.Describes vol ∧ startEnt ≤ sb.counters.prevFree ∧
      (startEnt < vol.maxCluster → sb.counters.prevFree < vol.maxCluster) ∧
      (sb.counters.freeClusters ≠ unknown → sb.counters.freeClusters.toNat ≤ vol.maxCluster - startEnt) := by
  obtain ⟨boot, bpb, c, hacc⟩ := fatFillSuper_eq_ok h
  obtain ⟨-, hmax, rfl⟩ := layout_eq_ok hacc.layout
  have hok := hacc.ok
  have hbad : bpb.clusters + startEnt ≤ bpb.variant.bad := by
    change bpb.clusters + startEnt ≠ 0x0ffffff8 at hlast
    generalize bpb.variant = v at hmax ⊢
    cases v <;> simp only [maxFat, Variant.bad, startEnt] at hmax hlast ⊢ <;> omega
  obtain ⟨hfirst, hprev, hfree⟩ := checkCounters_spec bpb.clusters c
  refine ⟨⟨bpb.variant, bpb.sectorSize, bpb.fats, bpb.reserved, bpb.length, bpb.clusters + startEnt,
    (by decide : 4 ∣ 512).trans hok.dvd_sectorSize, hok.le_sectorSize, hok.fats, Nat.le_add_left _ _, hok.fits hmax,
    hbad⟩,
    ⟨rfl, rfl, rfl, rfl, rfl, rfl⟩, hfirst, fun hlt => hprev ?_, fun hknown => ?_⟩
  · exact Nat.pos_of_lt_add_left hlt
  · rw [Nat.add_sub_cancel]
    exact hfree hknown

def floppyBoot : Bytes :=
  putFields 0 [(11, leBytes 2 512), (13, leBytes 1 1), (14, leBytes 2 1), (16, leBytes 1 2), (17, leBytes 2 224),
    (19, leBytes 2 2880), (21, leBytes 1 0xf0), (22, leBytes 2 9)] (List.replicate 512 0)

def floppyDrive : Device := ⟨floppyBoot, 2880, 512, fun _ _ => true, fun _ => true⟩

def floppySuper : Super := ⟨512, 1, .fat12, 2, 1, 9, 0, 0, 19, 224, 33, 2849, ⟨unknown, false, 2⟩⟩

theorem fatFillSuper_floppy : fatFillSuper ⟨false, false⟩ floppyDrive = .ok floppySuper := by
  decide +kernel

theorem fatFillSuper_volume_floppy :
    ∃ vol : Volume, floppySuper.Describes vol ∧ startEnt ≤ floppySuper.counters.prevFree ∧
    (startEnt < vol.maxCluster → floppySuper.counters.prevFree < vol.maxCluster) ∧
    (floppySuper.counters.freeClusters ≠ unknown →
      floppySuper.counters.freeClusters.toNat ≤ vol.maxCluster - startEnt) :=
  fatFillSuper_volume fatFillSuper_floppy (by decide)

end Volume

section Separate

theorem Bpb.Ok.clusters_mul_le (h : bpb.Ok) (hdata : bpb.dataStart ≤ bpb.total) :
    bpb.clusters * bpb.secPerClus ≤ bpb.total - bpb.dataStart := by
  have htotal := h.total
  have hsub : (BitVec.ofNat 64 bpb.total - BitVec.ofNat 64 bpb.dataStart).toNat = bpb.total - bpb.dataStart := by
    rw [BitVec.toNat_sub, BitVec.toNat_ofNat, BitVec.toNat_ofNat]
    omega
  have hle : bpb.clusters ≤ (bpb.total - bpb.dataStart) / bpb.secPerClus :=
    calc bpb.clusters ≤ bpb.totalClusters := min_le_left _ _
      _ ≤ (bpb.total - bpb.dataStart) / bpb.secPerClus := by
        rw [Bpb.totalClusters, hsub]
        exact Nat.mod_le _ _
  exact (Nat.mul_le_mul_right _ hle).trans (Nat.div_mul_le_self _ _)

theorem Bpb.Ok.dvd_dirEntries (h : bpb.Ok) (hdir : bpb.dirEntries &&& (bpb.dirPerBlock - 1) = 0) :
    bpb.sectorSize ∣ bpb.dirEntries * 32 := by
  obtain ⟨k, hk⟩ := h.sectorSize
  have hper : bpb.dirPerBlock = 2 ^ (4 + k) := by
    rw [Bpb.dirPerBlock, hk, show 9 + k = 4 + k + 5 by omega, Nat.pow_add _ (4 + k)]
    exact Nat.mul_div_cancel _ (by decide)
  rw [hper, Nat.and_two_pow_sub_one_eq_mod] at hdir
  rw [hk, show 9 + k = 4 + k + 5 by omega, Nat.pow_add _ (4 + k)]
  exact Nat.mul_dvd_mul_right (Nat.dvd_of_mod_eq_zero hdir) 32

/-- On a volume that mount accepts, and whose boot sector does not put the data behind its end, the copies of the FAT,
the root directory and the clusters are apart from each other, and the clusters are inside the volume. The entries of
each copy are inside of it. -/
theorem fatFillSuper_apart (h : fatFillSuper opt dev = .ok sb) (hboot : dev.bread dev.minBlocksize 0 = some boot)
    (hbpb : readBpb opt dev boot = .ok bpb) (hdata : bpb.dataStart ≤ bpb.total) (hvol : sb.Describes vol) :
    (∀ e < vol.maxCluster, ∀ b ∈ held vol e, ∀ copy < vol.fats,
      sb.fatStart + vol.fatLength * copy ≤ vol.fatLength * copy + b ∧
        vol.fatLength * copy + b < sb.fatStart + vol.fatLength * (copy + 1) ∧
        sb.fatStart + vol.fatLength * (copy + 1) ≤ sb.dirStart) ∧
    sb.dirEntries * 32 = (sb.dataStart - sb.dirStart) * sb.blockSize ∧ sb.dirStart ≤ sb.dataStart ∧
    (∀ e, fatValidEntry vol e = true →
      sb.dataStart ≤ fatClusToBlknr sb e ∧ fatClusToBlknr sb e + sb.secPerClus ≤ bpb.total) ∧
    ∀ e e', startEnt ≤ e → e < e' → fatClusToBlknr sb e + sb.secPerClus ≤ fatClusToBlknr sb e' := by
  obtain ⟨boot', bpb', c, hacc⟩ := fatFillSuper_eq_ok h
  obtain rfl : boot = boot' := Option.some.inj (hboot.symm.trans hacc.bread)
  obtain rfl : bpb = bpb' := Except.ok.inj (hbpb.symm.trans hacc.readBpb)
  obtain ⟨hdir, -, rfl⟩ := layout_eq_ok hacc.layout
  have hok := hacc.ok
  refine ⟨fun e he b hb copy hcopy => ?_, ?_, Nat.le_add_right _ _, fun e he => ?_, fun e e' he hlt => ?_⟩
  · obtain ⟨hlo, hhi⟩ := mem_fat_of_held he hb
    rw [← hvol.fatStart] at hlo hhi
    rw [← hvol.fatLength] at hhi ⊢
    rw [← hvol.fats] at hcopy
    have hcopies : bpb.length * (copy + 1) ≤ bpb.length * bpb.fats := Nat.mul_le_mul_left _ hcopy
    have hstart : (superOf bpb c).dirStart = bpb.reserved + bpb.length * bpb.fats := by
      rw [Nat.mul_comm]
      rfl
    rw [Nat.mul_succ] at hcopies ⊢
    rw [hstart]
    simp only [superOf] at hlo hhi ⊢
    omega
  · show bpb.dirEntries * 32 = (bpb.dirStart + bpb.dirEntries * 32 / bpb.sectorSize - bpb.dirStart) * bpb.sectorSize
    rw [Nat.add_sub_cancel_left, Nat.div_mul_cancel (hok.dvd_dirEntries hdir)]
  · obtain ⟨hstart, hlt⟩ := of_decide_eq_true he
    rw [← hvol.maxCluster] at hlt
    have hroom := hok.clusters_mul_le hdata
    have hin : (e - startEnt + 1) * bpb.secPerClus ≤ bpb.clusters * bpb.secPerClus := by
      refine Nat.mul_le_mul_right _ ?_
      change e < bpb.clusters + startEnt at hlt
      omega
    rw [Nat.succ_mul] at hin
    simp only [fatClusToBlknr, superOf]
    omega
  · have hstep : (e - startEnt + 1) * bpb.secPerClus ≤ (e' - startEnt) * bpb.secPerClus :=
      Nat.mul_le_mul_right _ (by omega)
    rw [Nat.succ_mul] at hstep
    simp only [fatClusToBlknr, superOf]
    omega

theorem fatFillSuper_apart_floppy :
    fatValidEntry floppy 2848 = true ∧ fatClusToBlknr floppySuper 2848 + 1 ≤ 2880 := by
  have hboot : floppyDrive.bread 512 0 = some floppyBoot := by decide +kernel
  have hbpb : readBpb ⟨false, false⟩ floppyDrive floppyBoot = .ok (bpbOf floppyBoot) := by decide +kernel
  have hdata : (bpbOf floppyBoot).dataStart ≤ (bpbOf floppyBoot).total := by decide +kernel
  have hvol : floppySuper.Describes floppy := ⟨rfl, rfl, rfl, rfl, rfl, rfl⟩
  have htotal : (bpbOf floppyBoot).total = 2880 := by decide +kernel
  have hvalid : fatValidEntry floppy 2848 = true := by decide
  have hclusters := (fatFillSuper_apart fatFillSuper_floppy hboot hbpb hdata hvol).2.2.2.1
  exact ⟨hvalid, (hclusters 2848 hvalid).2.trans_eq htotal⟩

/-- A boot sector that puts the data behind the end of the volume is accepted as well. -/
example : (layout ⟨512, 1, 1, 2, 224, 20, 9, 0, 0, 0, 0⟩ ⟨unknown, false, 2⟩).isOk = true ∧
    ¬ Bpb.dataStart ⟨512, 1, 1, 2, 224, 20, 9, 0, 0, 0, 0⟩ ≤
      Bpb.total ⟨512, 1, 1, 2, 224, 20, 9, 0, 0, 0, 0⟩ := by
  decide

end Separate

section Remount

theorem Device.bread_eq_some {n b : Nat} {blk : Bytes} (h : dev.bread n b = some blk) :
    dev.readable n b = true ∧ (b + 1) * n ≤ dev.img.length ∧ blk = slice dev.img (b * n) n := by
  unfold Device.bread at h
  split_ifs at h with hin
  cases h
  exact ⟨hin.1, hin.2, rfl⟩

theorem Device.bread_of_le {img : Bytes} {n b off : Nat} {bs : Bytes} (himg : img = overwrite dev.img off bs)
    (hin : off + bs.length ≤ dev.img.length) (hle : (b + 1) * n ≤ off) :
    Device.bread { dev with img := img } n b = dev.bread n b := by
  unfold Device.bread
  rw [himg, overwrite_length hin, slice_overwrite_of_le (by omega) (by rwa [Nat.succ_mul] at hle)]

variable {v free next : BitVec 32} {off prev : Nat} {valid : Bool} {blk : Bytes}

def putCounter (v : BitVec 32) (off : Nat) (blk : Bytes) : Bytes :=
  if v ≠ unknown then overwrite blk off (leBytes 4 v.toNat) else blk

theorem fsinfoBlock_eq : fsinfoBlock free next blk = putCounter next 492 (putCounter free 488 blk) := rfl

theorem length_putCounter (h : off + 4 ≤ blk.length) : (putCounter v off blk).length = blk.length := by
  unfold putCounter
  split_ifs
  · exact overwrite_length (by rwa [leBytes_length])
  · rfl

theorem field_putCounter (h : off + 4 ≤ blk.length) :
    field (putCounter v off blk) off 4 = if v = unknown then field blk off 4 else v.toNat := by
  by_cases hv : v = unknown
  · rw [putCounter, if_neg (not_not.mpr hv), if_pos hv]
  · have hin : off + (leBytes 4 v.toNat).length ≤ blk.length := by rwa [leBytes_length]
    have hself := slice_overwrite_self hin
    rw [leBytes_length] at hself
    rw [putCounter, if_pos hv, if_neg hv, field, hself, leNat_leBytes]
    exact Nat.mod_eq_of_lt v.isLt

theorem field_putCounter_of_apart {a n : Nat} (h : off + 4 ≤ blk.length) (ha : a + n ≤ off ∨ off + 4 ≤ a) :
    field (putCounter v off blk) a n = field blk a n := by
  unfold putCounter
  split_ifs
  · rcases ha with ha | ha
    · rw [field, slice_overwrite_of_le (by omega) ha, field]
    · rw [field, slice_overwrite_of_ge (by omega) (by rwa [leBytes_length]), field]
  · rfl

theorem length_fsinfoBlock (h : 512 ≤ blk.length) : (fsinfoBlock free next blk).length = blk.length := by
  have hfree : (putCounter free 488 blk).length = blk.length := length_putCounter (by omega)
  rw [fsinfoBlock_eq, length_putCounter (by omega), hfree]

theorem field_fsinfoBlock {a n : Nat} (h : 512 ≤ blk.length) (ha : a + n ≤ 488) :
    field (fsinfoBlock free next blk) a n = field blk a n := by
  have hfree : (putCounter free 488 blk).length = blk.length := length_putCounter (by omega)
  rw [fsinfoBlock_eq, field_putCounter_of_apart (by omega) (.inl (by omega)),
    field_putCounter_of_apart (by omega) (.inl ha)]

theorem isFsinfo_fsinfoBlock (h : 512 ≤ blk.length) : isFsinfo (fsinfoBlock free next blk) = isFsinfo blk := by
  show (field (fsinfoBlock free next blk) 0 4 == 0x41615252 &&
    field (fsinfoBlock free next blk) 484 4 == 0x61417272) = _
  rw [field_fsinfoBlock h (by decide), field_fsinfoBlock h (by decide)]
  rfl

theorem free_fsinfoBlock (h : 512 ≤ blk.length) :
    field (fsinfoBlock free next blk) 488 4 = if free = unknown then field blk 488 4 else free.toNat := by
  have hfree : (putCounter free 488 blk).length = blk.length := length_putCounter (by omega)
  rw [fsinfoBlock_eq, field_putCounter_of_apart (by omega) (.inl (by decide)), field_putCounter (by omega)]

theorem next_fsinfoBlock (h : 512 ≤ blk.length) (hnext : next ≠ unknown) :
    field (fsinfoBlock free next blk) 492 4 = next.toNat := by
  have hfree : (putCounter free 488 blk).length = blk.length := length_putCounter (by omega)
  rw [fsinfoBlock_eq, field_putCounter (by omega), if_neg hnext]

theorem variant_eq_fat32 : bpb.variant = .fat32 ↔ bpb.isFat32 = true := by
  unfold Bpb.variant
  split_ifs with h₁ h₂ <;> simp [h₁]

theorem infoSector_pos : 0 < bpb.infoSector := by
  unfold Bpb.infoSector
  split_ifs with h
  · exact Nat.one_pos
  · exact Nat.pos_of_ne_zero h

theorem le_of_setBlocksize {size : Nat} (h : setBlocksize dev size = .ok ()) : dev.minBlocksize ≤ size :=
  Nat.le_of_not_lt (passed h).1

theorem checkCounters_eq {clusters stored : Nat}
    (hnext : startEnt ≤ next.toNat ∧ next.toNat < clusters + startEnt) :
    checkCounters clusters ⟨BitVec.ofNat 32 (if free = unknown then stored else free.toNat), valid, next.toNat⟩ =
      ⟨if free = unknown then (checkCounters clusters ⟨BitVec.ofNat 32 stored, valid, prev⟩).freeClusters
        else if clusters < free.toNat then unknown else free, valid, next.toNat⟩ := by
  have hprev : max (next.toNat % (clusters + startEnt)) startEnt = next.toNat := by
    rw [Nat.mod_eq_of_lt hnext.2, max_eq_left hnext.1]
  by_cases hunknown : free = unknown
  · simp only [checkCounters, if_pos hunknown, hprev]
  · have hlarge : (free ≠ unknown ∧ clusters < free.toNat) = (clusters < free.toNat) :=
      propext (and_iff_right hunknown)
    simp only [checkCounters, if_neg hunknown, hprev, BitVec.ofNat_toNat, BitVec.setWidth_eq, hlarge]

theorem readFsinfo_of_isFsinfo (hfat32 : bpb.isFat32 = true)
    (hread : dev.bread bpb.sectorSize bpb.infoSector = some blk) (hblk : isFsinfo blk = true) :
    readFsinfo opt dev bpb = .ok ⟨BitVec.ofNat 32 (field blk 488 4), opt.usefree, field blk 492 4⟩ := by
  unfold readFsinfo
  rw [if_pos hfat32, hread]
  exact if_pos hblk

theorem Accepted.bread_fsinfo (h : Accepted opt dev boot bpb c sb) (hfat32 : bpb.isFat32 = true) :
    ∃ blk, dev.bread bpb.sectorSize bpb.infoSector = some blk := by
  have hread := h.readFsinfo
  unfold FatMount.readFsinfo at hread
  rw [if_pos hfat32] at hread
  cases hb : dev.bread bpb.sectorSize bpb.infoSector with
  | none => simp [hb] at hread
  | some blk => exact ⟨blk, rfl⟩

theorem Accepted.written {img bs : Bytes} {c' : Counters} (h : Accepted opt dev boot bpb c sb)
    (himg : img = overwrite dev.img (bpb.infoSector * bpb.sectorSize) bs)
    (hin : bpb.infoSector * bpb.sectorSize + bs.length ≤ dev.img.length)
    (hc' : FatMount.readFsinfo opt { dev with img := img } bpb = .ok c') :
    Accepted opt { dev with img := img } boot bpb c' (superOf bpb c') := by
  have hfirst : bpb.sectorSize ≤ bpb.infoSector * bpb.sectorSize := Nat.le_mul_of_pos_left _ infoSector_pos
  have hmin := le_of_setBlocksize h.setBlocksize
  obtain ⟨hdir, hmax, -⟩ := layout_eq_ok h.layout
  refine ⟨?_, h.readBpb, ?_, hc', ?_⟩
  · rw [Device.bread_of_le himg hin (by dsimp only; omega)]
    exact h.bread
  · unfold FatMount.setBlocksize
    rw [Device.bread_of_le himg hin (by omega)]
    exact h.setBlocksize
  · unfold FatMount.layout
    rw [if_neg (not_not.mpr hdir), if_neg hmax.not_gt]

theorem fatClustersFlush_of_isFsinfo {img : Bytes} (hfat32 : sb.variant = .fat32)
    (hblk : blk = slice img (sb.fsinfoSector * sb.blockSize) sb.blockSize) (hsig : isFsinfo blk = true) :
    fatClustersFlush sb free next img = overwrite img (sb.fsinfoSector * sb.blockSize) (fsinfoBlock free next blk) := by
  subst hblk
  exact if_pos ⟨hfat32, hsig⟩

theorem ne_unknown_of_lt_maxCluster (hmax : bpb.clusters ≤ maxFat bpb.variant)
    (h : next.toNat < bpb.clusters + startEnt) :
    next ≠ unknown := by
  rintro rfl
  have hlimit : maxFat bpb.variant < 2 ^ 28 := by cases bpb.variant <;> simp [maxFat]
  have hunknown : unknown.toNat = 2 ^ 32 - 1 := rfl
  rw [hunknown, startEnt] at h
  omega

/-- The counters that fat_clusters_flush has written are what the next mount starts with, unless there are fewer
clusters than are said to be free; all else is as before. -/
theorem fatFillSuper_fatClustersFlush (h : fatFillSuper opt dev = .ok sb)
    (hnext : startEnt ≤ next.toNat ∧ next.toNat < sb.maxCluster) :
    fatFillSuper opt { dev with img := fatClustersFlush sb free next dev.img } = .ok { sb with
      counters := if sb.variant = .fat32 ∧ isFsinfo (slice dev.img (sb.fsinfoSector * sb.blockSize) sb.blockSize) then
          ⟨if free = unknown then sb.counters.freeClusters
            else if sb.maxCluster - startEnt < free.toNat then unknown else free, opt.usefree, next.toNat⟩
        else sb.counters } := by
  by_cases hwritten : sb.variant = .fat32 ∧ isFsinfo (slice dev.img (sb.fsinfoSector * sb.blockSize) sb.blockSize)
  · obtain ⟨boot, bpb, c, hacc⟩ := fatFillSuper_eq_ok h
    obtain ⟨-, hmax, rfl⟩ := layout_eq_ok hacc.layout
    have hfat32 : bpb.isFat32 = true := variant_eq_fat32.mp hwritten.1
    have hsector : (superOf bpb c).fsinfoSector = bpb.infoSector := if_pos hfat32
    have hsize := hacc.ok.le_sectorSize
    obtain ⟨blk, hread⟩ := hacc.bread_fsinfo hfat32
    obtain ⟨hreadable, hin, hblk⟩ := Device.bread_eq_some hread
    have hsig : isFsinfo blk = true := by
      rw [hblk, ← hsector]
      exact hwritten.2
    have hc := hacc.readFsinfo
    rw [readFsinfo_of_isFsinfo hfat32 hread hsig] at hc
    cases hc
    rw [if_pos hwritten]
    rw [Nat.succ_mul] at hin
    have hlen : blk.length = bpb.sectorSize := by rw [hblk, slice_length hin]
    have hnew : (fsinfoBlock free next blk).length = bpb.sectorSize := by rw [length_fsinfoBlock (by omega), hlen]
    have hfits : bpb.infoSector * bpb.sectorSize + (fsinfoBlock free next blk).length ≤ dev.img.length := by
      rwa [hnew]
    rw [fatClustersFlush_of_isFsinfo hwritten.1 (by rw [hsector]; exact hblk) hsig, hsector]
    generalize himg : overwrite dev.img (bpb.infoSector * (superOf bpb _).blockSize) (fsinfoBlock free next blk) = img
    have hagain :
        Device.bread { dev with img := img } bpb.sectorSize bpb.infoSector = some (fsinfoBlock free next blk) := by
      have hself := slice_overwrite_self hfits
      rw [hnew] at hself
      unfold Device.bread
      subst himg
      have hlong : (bpb.infoSector + 1) * bpb.sectorSize ≤ (overwrite dev.img (bpb.infoSector * bpb.sectorSize)
          (fsinfoBlock free next blk)).length := by rwa [overwrite_length hfits, Nat.succ_mul]
      rw [if_pos ⟨hreadable, hlong⟩]
      exact congrArg some hself
    have hc' : readFsinfo opt { dev with img := img } bpb = _ :=
      readFsinfo_of_isFsinfo hfat32 hagain (by rw [isFsinfo_fsinfoBlock (by omega)]; exact hsig)
    rw [free_fsinfoBlock (by omega), next_fsinfoBlock (by omega) (ne_unknown_of_lt_maxCluster hmax hnext.2)] at hc'
    rw [(hacc.written himg.symm hfits hc').fatFillSuper_eq]
    have hclusters : bpb.clusters + startEnt - startEnt = bpb.clusters := Nat.add_sub_cancel _ _
    simp only [superOf, Except.ok.injEq, Super.mk.injEq, true_and, hclusters]
    exact ⟨if_pos hfat32, checkCounters_eq hnext⟩
  · have hsame : fatClustersFlush sb free next dev.img = dev.img := if_neg hwritten
    rw [hsame, if_neg hwritten]
    exact h

def cardImage : Bytes :=
  putFields 0 [(11, leBytes 2 512), (13, leBytes 1 1), (14, leBytes 2 32), (16, leBytes 1 2), (21, leBytes 1 0xf8),
    (32, leBytes 4 70000), (36, leBytes 4 600), (44, leBytes 4 2), (48, leBytes 2 1), (512, leBytes 4 0x41615252),
    (996, leBytes 4 0x61417272), (1000, leBytes 4 1000), (1004, leBytes 4 7)] (List.replicate 1024 0)

def cardReader : Device := ⟨cardImage, 70000, 512, fun _ _ => true, fun _ => true⟩

def cardSuper : Super := ⟨512, 1, .fat32, 2, 32, 600, 2, 1, 1232, 0, 1232, 68770, ⟨1000, true, 7⟩⟩

theorem fatFillSuper_card : fatFillSuper ⟨true, false⟩ cardReader = .ok cardSuper := by
  decide +kernel

theorem fatFillSuper_fatClustersFlush_card :
    isFsinfo (slice cardReader.img 512 512) = true ∧
    fatFillSuper ⟨true, false⟩ { cardReader with img := fatClustersFlush cardSuper 999 8 cardReader.img } =
      .ok { cardSuper with counters := ⟨999, true, 8⟩ } ∧
    fatFillSuper ⟨true, false⟩ { cardReader with img := fatClustersFlush cardSuper 68769 8 cardReader.img } =
      .ok { cardSuper with counters := ⟨unknown, true, 8⟩ } := by
  have hsig : isFsinfo (slice cardReader.img 512 512) = true := by decide +kernel
  have hflush : ∀ free : BitVec 32,
      fatFillSuper ⟨true, false⟩ { cardReader with img := fatClustersFlush cardSuper free 8 cardReader.img } =
        .ok { cardSuper with counters :=
          ⟨if free = unknown then 1000 else if 68768 < free.toNat then unknown else free, true,
            8⟩ } := fun free => by
    rw [fatFillSuper_fatClustersFlush fatFillSuper_card (by decide), if_pos ⟨rfl, hsig⟩]
    rfl
  exact ⟨hsig, hflush 999, hflush 68769⟩

end Remount

end SuperRaid.FatMount
