import SuperRaid.Footer
import SuperRaid.CrcRegister

namespace SuperRaid.Crc32c

open Polynomial Image Footer BinaryPoly CrcRegister

variable {n : ℕ}

/-- The CRC32C instructions as the architecture defines them, for a value of n bits. -/
def crc32c (acc : BitVec 32) (value : BitVec n) : BitVec 32 :=
  let tempacc := acc.reverse ++ 0#n
  let tempval := value.reverse ++ 0#32
  (reduce 0x1edc6f41#32 n (tempacc ^^^ tempval.cast (Nat.add_comm n 32))).reverse

def crc32cb (acc : BitVec 32) (value : BitVec 8) : BitVec 32 := crc32c acc value
def crc32ch (acc : BitVec 32) (value : BitVec 16) : BitVec 32 := crc32c acc value
def crc32cw (acc : BitVec 32) (value : BitVec 32) : BitVec 32 := crc32c acc value
def crc32cd (acc : BitVec 32) (value : BitVec 64) : BitVec 32 := crc32c acc value

def load (k : ℕ) (p : Bytes) : BitVec (8 * k) := BitVec.ofNat (8 * k) (leNat (p.take k))

def wordLoop (crc : BitVec 32) (p : Bytes) : BitVec 32 × Bytes :=
  if 8 ≤ p.length then wordLoop (crc32cd crc (load 8 p)) (p.drop 8) else (crc, p)
termination_by p.length

def ifLeft (k : ℕ) (instruction : BitVec 32 → BitVec (8 * k) → BitVec 32) (s : BitVec 32 × Bytes) :
    BitVec 32 × Bytes :=
  if k ≤ s.2.length then (instruction s.1 (load k s.2), s.2.drop k) else s

/-- crc32c_update as it is compiled for aarch64 with the CRC32 extension. -/
def crc32cUpdateAarch64 (crc : BitVec 32) (data : Bytes) : BitVec 32 :=
  let (crc, p) := ifLeft 2 crc32ch (ifLeft 4 crc32cw (wordLoop crc data))
  match p with
  | [] => crc
  | b :: _ => crc32cb crc b

def dataBits (data : Bytes) : List Bool := data.flatMap lsbFirst

noncomputable def castagnoli : (ZMod 2)[X] :=
  X ^ 32 + X ^ 28 + X ^ 27 + X ^ 26 + X ^ 25 + X ^ 23 + X ^ 22 + X ^ 20 + X ^ 19 + X ^ 18 + X ^ 14 + X ^ 13 + X ^ 11 +
    X ^ 10 + X ^ 9 + X ^ 8 + X ^ 6 + 1

/-- What is left of the bits, with the starting value added to the first 32 of them and 32 zeros after the last. -/
noncomputable def remainder (crc : BitVec 32) (bs : List Bool) : (ZMod 2)[X] :=
  (stream (lsbFirst crc) * X ^ bs.length + stream bs * X ^ 32) %ₘ castagnoli

def generator : List Bool := lsbFirst crcPolynomial

theorem generator_length : generator.length = 32 := lsbFirst_length crcPolynomial

theorem modulus_generator : modulus generator = castagnoli := by
  have hbits : generator = [false, false, false, true, true, true, true, false, true, true, false, true,
      true, true, false, false, false, true, true, false, true, true, true, true, false, true, false, false, false,
      false, false, true] := by decide
  rw [modulus, hbits, castagnoli]
  simp [stream, coefficient]
  ring

theorem generator_eq_msbFirst : generator = msbFirst 0x1edc6f41#32 := by
  decide

theorem dataBits_cons (b : Byte) (data : Bytes) : dataBits (b :: data) = lsbFirst b ++ dataBits data :=
  List.flatMap_cons

theorem dataBits_append (data more : Bytes) : dataBits (data ++ more) = dataBits data ++ dataBits more :=
  List.flatMap_append

theorem dataBits_length (data : Bytes) : (dataBits data).length = 8 * data.length := by
  induction data with
  | nil => rfl
  | cons b data ih => rw [dataBits_cons, List.length_append, ih, lsbFirst_length, List.length_cons]; omega

theorem lsbFirst_ofNat_leNat (data : Bytes) :
    lsbFirst (BitVec.ofNat (8 * data.length) (leNat data)) = dataBits data := by
  induction data with
  | nil => rfl
  | cons b data ih =>
      have hsplit : BitVec.ofNat (8 * (b :: data).length) (leNat (b :: data)) =
          BitVec.ofNat (8 * data.length) (leNat data) ++ b := by
        have hb : b.toNat < 256 := b.isLt
        have hpow : 2 ^ (8 * (b :: data).length) = 256 * 2 ^ (8 * data.length) := by
          rw [List.length_cons, Nat.mul_add, pow_add, Nat.mul_comm]
          rfl
        have hhigh : (b.toNat + 256 * leNat data) / 256 = leNat data := by omega
        apply BitVec.eq_of_toNat_eq
        rw [BitVec.toNat_ofNat, BitVec.toNat_append, BitVec.toNat_ofNat, leNat, hpow, Nat.mod_mul, hhigh,
          ← Nat.shiftLeft_add_eq_or_of_lt hb, Nat.shiftLeft_eq]
        omega
      rw [hsplit, lsbFirst_append, ih]
      rfl

theorem residue_crcByte (crc : BitVec 32) (b : Byte) :
    residue generator (lsbFirst (crcByte crc b)) =
      residue generator (lsbFirst crc) * root generator ^ 8 + residue generator (lsbFirst b) * root generator ^ 32 := by
  have hwide : lsbFirst (b.setWidth 32) = lsbFirst b ++ List.replicate 24 false := lsbFirst_setWidth b 24
  have hbits : crcByte crc b = (shift crcPolynomial)^[8] (crc ^^^ b.setWidth 32) := rfl
  rw [hbits, generator, residue_shift_iterate, lsbFirst_xor, residue_xor (by simp), hwide, residue_append_zeros]
  ring

theorem residue_crc32cUpdate (crc : BitVec 32) (data : Bytes) :
    residue generator (lsbFirst (crc32cUpdate crc data)) =
      residue generator (lsbFirst crc) * root generator ^ (8 * data.length) +
        residue generator (dataBits data) * root generator ^ 32 := by
  induction data generalizing crc with
  | nil => simp [crc32cUpdate, dataBits, residue, stream]
  | cons b data ih =>
      have hstep : crc32cUpdate crc (b :: data) = crc32cUpdate (crcByte crc b) data := rfl
      rw [hstep, ih, residue_crcByte, dataBits_cons, residue_append, dataBits_length, List.length_cons]
      ring

theorem residue_crc32c (acc : BitVec 32) (value : BitVec n) :
    residue generator (lsbFirst (crc32c acc value)) =
      residue generator (lsbFirst acc) * root generator ^ n +
        residue generator (lsbFirst value) * root generator ^ 32 := by
  rw [crc32c, lsbFirst_reverse, generator_eq_msbFirst, residue_reduce, msbFirst_xor, residue_xor (by simp),
    msbFirst_cast, msbFirst_append, msbFirst_append, msbFirst_reverse, msbFirst_reverse, msbFirst_zero, msbFirst_zero,
    residue_append_zeros, residue_append_zeros]

theorem eq_of_residue {a b : BitVec 32} (h : residue generator (lsbFirst a) = residue generator (lsbFirst b)) : a = b :=
  lsbFirst_injective (eq_of_residue_eq (by simp) (by simp [generator_length]) h)

theorem crc32c_leNat (crc : BitVec 32) (data : Bytes) :
    crc32c crc (BitVec.ofNat (8 * data.length) (leNat data)) = crc32cUpdate crc data := by
  apply eq_of_residue
  rw [residue_crc32c, residue_crc32cUpdate, lsbFirst_ofNat_leNat]

theorem crc32cUpdate_load (crc : BitVec 32) {p : Bytes} {k : ℕ} (hk : k ≤ p.length) :
    crc32cUpdate (crc32c crc (load k p)) (p.drop k) = crc32cUpdate crc p := by
  have htake : crc32c crc (load k p) = crc32cUpdate crc (p.take k) := by
    have hlen : (p.take k).length = k := List.length_take_of_le hk
    have h := crc32c_leNat crc (p.take k)
    rw [hlen] at h
    exact h
  rw [htake, crc32cUpdate, crc32cUpdate, ← List.foldl_append, List.take_append_drop, crc32cUpdate]

/-- What is left to do after a part of the data gives the same result, and fewer than k bytes are left. -/
structure Continues (crc : BitVec 32) (data : Bytes) (k : ℕ) (s : BitVec 32 × Bytes) : Prop where
  update : crc32cUpdate s.1 s.2 = crc32cUpdate crc data
  left : s.2.length < k

theorem continues_wordLoop (crc : BitVec 32) (p : Bytes) : Continues crc p 8 (wordLoop crc p) := by
  fun_induction wordLoop crc p with
  | case1 crc p h ih => exact ⟨ih.update.trans (crc32cUpdate_load crc h), ih.left⟩
  | case2 crc p h => exact ⟨rfl, Nat.lt_of_not_le h⟩

theorem Continues.ifLeft {crc : BitVec 32} {data : Bytes} {k : ℕ} {s : BitVec 32 × Bytes}
    (h : Continues crc data (2 * k) s) : Continues crc data k (ifLeft k crc32c s) := by
  unfold Crc32c.ifLeft
  split
  · rename_i hk
    refine ⟨(crc32cUpdate_load s.1 hk).trans h.update, ?_⟩
    have := h.left
    rw [List.length_drop]
    omega
  · rename_i hk
    exact ⟨h.update, Nat.lt_of_not_le hk⟩

theorem crc32cb_eq (crc : BitVec 32) (b : Byte) : crc32cb crc b = crcByte crc b := by
  apply eq_of_residue
  rw [crc32cb, residue_crc32c, residue_crcByte]

theorem crc32cUpdateAarch64_eq (crc : BitVec 32) (data : Bytes) :
    crc32cUpdateAarch64 crc data = crc32cUpdate crc data := by
  have hleft : Continues crc data 2 (ifLeft 2 crc32ch (ifLeft 4 crc32cw (wordLoop crc data))) :=
    (continues_wordLoop crc data).ifLeft.ifLeft
  unfold crc32cUpdateAarch64
  rcases hs : ifLeft 2 crc32ch (ifLeft 4 crc32cw (wordLoop crc data)) with ⟨c, _ | ⟨b, _ | ⟨b', rest⟩⟩⟩
  all_goals rw [hs] at hleft
  · exact hleft.update
  · exact (crc32cb_eq c b).trans hleft.update
  · exact absurd hleft.left (by simp)

theorem dataBits_injective {a b : Bytes} (hlen : a.length = b.length) (h : dataBits a = dataBits b) : a = b := by
  induction a generalizing b with
  | nil => exact (List.length_eq_zero_iff.mp hlen.symm).symm
  | cons x a ih =>
      obtain ⟨y, b, rfl⟩ := List.exists_cons_of_length_eq_add_one hlen.symm
      rw [dataBits_cons, dataBits_cons] at h
      obtain ⟨hx, ha⟩ := List.append_inj h (by simp)
      rw [lsbFirst_injective hx, ih (Nat.succ.inj hlen) ha]

theorem eq_of_crc32cUpdate_burst {crc : BitVec 32} {u a b v : Bytes} (hlen : a.length = b.length) (hle : a.length ≤ 4)
    (h : crc32cUpdate crc (u ++ a ++ v) = crc32cUpdate crc (u ++ b ++ v)) : a = b := by
  have hconstant : generator = generator.dropLast ++ [true] := by decide
  have htotal : (u ++ a ++ v).length = (u ++ b ++ v).length := by simp [hlen]
  have hresidue : residue generator (dataBits (u ++ a ++ v)) = residue generator (dataBits (u ++ b ++ v)) := by
    have hcrc := congrArg (fun c => residue generator (lsbFirst c)) h
    simp only [residue_crc32cUpdate, htotal, add_right_inj] at hcrc
    exact ((isUnit_root hconstant).pow 32).mul_right_cancel hcrc
  simp only [dataBits_append] at hresidue
  refine dataBits_injective hlen (eq_of_residue_burst hconstant ?_ ?_ hresidue)
  · rw [dataBits_length, dataBits_length, hlen]
  · rw [dataBits_length, generator_length]
    omega

theorem stream_crc32cUpdate (crc : BitVec 32) (data : Bytes) :
    stream (lsbFirst (crc32cUpdate crc data)) = remainder crc (dataBits data) := by
  have hle : (lsbFirst (crc32cUpdate crc data)).length ≤ generator.length := by simp [generator_length]
  have h := residue_crc32cUpdate crc data
  rw [remainder, ← modulus_generator, dataBits_length]
  apply modByMonic_of_residue hle
  rw [h]
  simp only [residue, map_add, map_mul, map_pow, AdjoinRoot.mk_X]

/-- Both ways to compile crc32c_update compute the remainder of the same division, whatever the length of the data, and
a longer string can be given in parts. -/
theorem crc_paths_agree (crc : BitVec 32) (data : Bytes) :
    crc32cUpdateAarch64 crc data = crc32cUpdate crc data ∧
    stream (lsbFirst (crc32cUpdate crc data)) = remainder crc (dataBits data) ∧
    stream (lsbFirst (crc32cUpdateAarch64 crc data)) = remainder crc (dataBits data) ∧
    ∀ more, crc32cUpdate crc (data ++ more) = crc32cUpdate (crc32cUpdate crc data) more ∧
      crc32cUpdateAarch64 crc (data ++ more) = crc32cUpdateAarch64 (crc32cUpdateAarch64 crc data) more := by
  have happend (more : Bytes) : crc32cUpdate crc (data ++ more) = crc32cUpdate (crc32cUpdate crc data) more :=
    List.foldl_append
  refine ⟨crc32cUpdateAarch64_eq crc data, stream_crc32cUpdate crc data, ?_, fun more => ⟨happend more, ?_⟩⟩
  · rw [crc32cUpdateAarch64_eq, stream_crc32cUpdate]
  · simp only [crc32cUpdateAarch64_eq, happend]

end SuperRaid.Crc32c
