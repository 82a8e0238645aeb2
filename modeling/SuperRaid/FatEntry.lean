import SuperRaid.Image
import Mathlib.Tactic

namespace SuperRaid.FatEntry

open Image

inductive Variant
  | fat12
  | fat16
  | fat32
  deriving DecidableEq

def entFree : Nat := 0

def entEof : Nat := 0x0fffffff

def Variant.bad : Variant → Nat
  | .fat12 => 0xff7
  | .fat16 => 0xfff7
  | .fat32 => 0x0ffffff7

def Variant.eof : Variant → Nat
  | .fat12 => 0xfff
  | .fat16 => 0xffff
  | .fat32 => entEof

def Variant.bits : Variant → Nat
  | .fat12 => 12
  | .fat16 => 16
  | .fat32 => 32

def Variant.entBytes (v : Variant) (entry : Nat) : Nat :=
  match v with
  | .fat12 => entry + entry / 2
  | .fat16 => 2 * entry
  | .fat32 => 4 * entry

/-- What mount has computed from the boot sector, as far as the FAT is concerned. Every cluster has its entry in the
FAT, and no cluster has the number of an end mark. -/
structure Volume where
  variant : Variant
  blockSize : Nat
  fats : Nat
  fatStart : Nat
  fatLength : Nat
  maxCluster : Nat
  dvd_blockSize : 4 ∣ blockSize
  le_blockSize : 512 ≤ blockSize
  fats_pos : 0 < fats
  start_le : 2 ≤ maxCluster
  fits : variant.bits * maxCluster ≤ 8 * (fatLength * blockSize)
  lt_bad : maxCluster ≤ variant.bad

abbrev Ptr := Nat × Nat

abbrev Buffers := Ptr → Byte

/-- The pointer of a struct fat_entry, into the one or two buffers that it holds. -/
inductive EntPtr
  | null
  | ent12 (p₀ p₁ : Ptr)
  | ent16 (p : Ptr)
  | ent32 (p : Ptr)
  deriving DecidableEq

structure Fatent where
  entry : Nat
  ptr : EntPtr
  bhs : List Nat
  deriving DecidableEq

def fatentInit : Fatent := ⟨0, .null, []⟩

def Fatent.setEntry (f : Fatent) (entry : Nat) : Fatent := { f with entry := entry, ptr := .null }

def Fatent.brelse (f : Fatent) : Fatent := { f with ptr := .null, bhs := [] }

/-- ent_blocknr: the offset in its block, and the block. -/
def entBlocknr (vol : Volume) (entry : Nat) : Nat × Nat :=
  let bytes := vol.variant.entBytes entry
  (bytes % vol.blockSize, vol.fatStart + bytes / vol.blockSize)

def entSetPtr (vol : Volume) (f : Fatent) (offset : Nat) : Fatent :=
  match vol.variant, f.bhs with
  | .fat12, [b] => { f with ptr := .ent12 (b, offset) (b, offset + 1) }
  | .fat12, b :: b' :: _ => { f with ptr := .ent12 (b, offset) (b', 0) }
  | .fat16, b :: _ => { f with ptr := .ent16 (b, offset) }
  | .fat32, b :: _ => { f with ptr := .ent32 (b, offset) }
  | _, [] => f

def load (bufs : Buffers) (p : Ptr) (n : Nat) : Nat := leNat ((List.range n).map (fun i => bufs (p.1, p.2 + i)))

def store (bufs : Buffers) (p : Ptr) : Bytes → Buffers
  | [] => bufs
  | b :: bs => store (Function.update bufs p b) (p.1, p.2 + 1) bs

def ending (v : Variant) (next : Nat) : Nat := if v.bad ≤ next then entEof else next

def fat12EntGet (bufs : Buffers) (entry : Nat) (p₀ p₁ : Ptr) : Nat :=
  let next :=
    if entry % 2 = 1 then ((bufs p₀).toNat >>> 4) ||| ((bufs p₁).toNat <<< 4)
    else ((bufs p₁).toNat <<< 8) ||| (bufs p₀).toNat
  ending .fat12 (next &&& 0x0fff)

def fat16EntGet (bufs : Buffers) (p : Ptr) : Nat := ending .fat16 (load bufs p 2)

def fat32EntGet (bufs : Buffers) (p : Ptr) : Nat := ending .fat32 (load bufs p 4 &&& 0x0fffffff)

def entGet (bufs : Buffers) (f : Fatent) : Nat :=
  match f.ptr with
  | .null => 0
  | .ent12 p₀ p₁ => fat12EntGet bufs f.entry p₀ p₁
  | .ent16 p => fat16EntGet bufs p
  | .ent32 p => fat32EntGet bufs p

def fat12EntPut (bufs : Buffers) (entry : Nat) (p₀ p₁ : Ptr) (new : Nat) : Buffers :=
  let new := if new = entEof then Variant.eof .fat12 else new
  if entry % 2 = 1 then
    let bufs := Function.update bufs p₀ (BitVec.ofNat 8 (new <<< 4) ||| (bufs p₀ &&& (0x0f : Byte)))
    Function.update bufs p₁ (BitVec.ofNat 8 (new >>> 4))
  else
    let bufs := Function.update bufs p₀ (BitVec.ofNat 8 (new &&& 0xff))
    Function.update bufs p₁ ((bufs p₁ &&& (0xf0 : Byte)) ||| BitVec.ofNat 8 (new >>> 8))

def fat16EntPut (bufs : Buffers) (p : Ptr) (new : Nat) : Buffers :=
  let new := if new = entEof then Variant.eof .fat16 else new
  store bufs p (leBytes 2 new)

/-- The four high bits of an entry are not ours to change. -/
def fat32EntPut (bufs : Buffers) (p : Ptr) (new : Nat) : Buffers :=
  store bufs p (leBytes 4 (new ||| (load bufs p 4 &&& 0xf0000000)))

def entPut (bufs : Buffers) (f : Fatent) (new : Nat) : Buffers :=
  match f.ptr with
  | .null => bufs
  | .ent12 p₀ p₁ => fat12EntPut bufs f.entry p₀ p₁ new
  | .ent16 p => fat16EntPut bufs p new
  | .ent32 p => fat32EntPut bufs p new

/-- fat12_ent_next. The second pointer of an entry that spans two blocks is at the start of the second one. -/
def fat12EntNext (vol : Volume) (f : Fatent) (p₁ : Ptr) : Fatent × Bool :=
  let nextp : Ptr := (p₁.1, p₁.2 + 1 + f.entry % 2)
  match f.bhs with
  | [b] =>
      if nextp.2 < vol.blockSize - 1 then
        (⟨f.entry + 1, .ent12 (nextp.1, nextp.2 - 1) nextp, [b]⟩, true)
      else (⟨f.entry + 1, .null, [b]⟩, false)
  | _ :: b :: _ => (⟨f.entry + 1, .ent12 (nextp.1, nextp.2 - 1) nextp, [b]⟩, true)
  | [] => (⟨f.entry + 1, .null, []⟩, false)

/-- fat16_ent_next and fat32_ent_next, for entries of the given width. -/
def wideEntNext (vol : Volume) (width : Nat) (ctor : Ptr → EntPtr) (f : Fatent) (p : Ptr) : Fatent × Bool :=
  if p.2 < vol.blockSize - width then ({ f with entry := f.entry + 1, ptr := ctor (p.1, p.2 + width) }, true)
  else ({ f with entry := f.entry + 1, ptr := .null }, false)

def entNext (vol : Volume) (f : Fatent) : Fatent × Bool :=
  match f.ptr with
  | .null => ({ f with entry := f.entry + 1 }, false)
  | .ent12 _ p₁ => fat12EntNext vol f p₁
  | .ent16 p => wideEntNext vol 2 .ent16 f p
  | .ent32 p => wideEntNext vol 4 .ent32 f p

end SuperRaid.FatEntry
