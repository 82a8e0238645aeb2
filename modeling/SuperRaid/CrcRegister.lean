import SuperRaid.BinaryPoly

namespace SuperRaid.CrcRegister

open BinaryPoly

variable {w n : ℕ}

def lsbFirst (v : BitVec w) : List Bool := List.ofFn (fun i : Fin w => v.getLsbD i)

def msbFirst (v : BitVec w) : List Bool := (lsbFirst v).reverse

@[simp] theorem lsbFirst_length (v : BitVec w) : (lsbFirst v).length = w := List.length_ofFn

@[simp] theorem msbFirst_length (v : BitVec w) : (msbFirst v).length = w := by
  rw [msbFirst, List.length_reverse, lsbFirst_length]

@[simp] theorem lsbFirst_getElem (v : BitVec w) (i : ℕ) (h : i < (lsbFirst v).length) :
    (lsbFirst v)[i] = v.getLsbD i := List.getElem_ofFn h

theorem lsbFirst_injective : Function.Injective (lsbFirst (w := w)) := by
  intro a b h
  apply BitVec.eq_of_getLsbD_eq
  intro i hi
  rw [← lsbFirst_getElem a i (by rwa [lsbFirst_length]), ← lsbFirst_getElem b i (by rwa [lsbFirst_length])]
  simp only [h]

theorem lsbFirst_xor (a b : BitVec w) : lsbFirst (a ^^^ b) = List.zipWith xor (lsbFirst a) (lsbFirst b) := by
  apply List.ext_getElem
  · simp
  · intro i h h'
    simp

theorem lsbFirst_append (a : BitVec w) (b : BitVec n) : lsbFirst (a ++ b) = lsbFirst b ++ lsbFirst a := by
  apply List.ext_getElem
  · simp [Nat.add_comm]
  · intro i h h'
    by_cases hi : i < n <;> simp [List.getElem_append, BitVec.getLsbD_append, hi]

theorem msbFirst_append (a : BitVec w) (b : BitVec n) : msbFirst (a ++ b) = msbFirst a ++ msbFirst b := by
  rw [msbFirst, lsbFirst_append, List.reverse_append, msbFirst, msbFirst]

theorem msbFirst_xor (a b : BitVec w) : msbFirst (a ^^^ b) = List.zipWith xor (msbFirst a) (msbFirst b) := by
  rw [msbFirst, lsbFirst_xor, List.reverse_zipWith (by simp), msbFirst, msbFirst]

theorem msbFirst_reverse (v : BitVec w) : msbFirst v.reverse = lsbFirst v := by
  apply List.ext_getElem
  · simp
  · intro i h h'
    have hi : i < w := by simpa using h
    have hback : w - 1 - (w - 1 - i) = i := by omega
    simp [msbFirst, BitVec.getLsbD_reverse, BitVec.getMsbD, hback]
    omega

theorem lsbFirst_reverse (v : BitVec w) : lsbFirst v.reverse = msbFirst v := by
  rw [← msbFirst_reverse, BitVec.reverse_reverse_eq]

theorem msbFirst_cast {m : ℕ} (h : n = m) (v : BitVec n) : msbFirst (v.cast h) = msbFirst v := by
  subst h
  rfl

theorem lsbFirst_zero (n : ℕ) : lsbFirst (0#n) = List.replicate n false := by
  apply List.ext_getElem <;> simp

theorem msbFirst_zero (n : ℕ) : msbFirst (0#n) = List.replicate n false := by
  rw [msbFirst, lsbFirst_zero, List.reverse_replicate]

theorem lsbFirst_setWidth (v : BitVec n) (m : ℕ) :
    lsbFirst (v.setWidth (n + m)) = lsbFirst v ++ List.replicate m false := by
  apply List.ext_getElem
  · simp
  · intro i h h'
    have hi : i < n + m := by simpa using h
    by_cases hn : i < n
    · simp [hn, hi]
    · simp [List.getElem_append, hn, hi, BitVec.getLsbD_of_ge v i (by omega)]

/-- A step of a register whose lowest bit is the highest coefficient. -/
def shift (p c : BitVec w) : BitVec w := (c >>> 1) ^^^ (if c.getLsbD 0 then p else 0)

theorem lsbFirst_ushiftRight (c : BitVec w) : lsbFirst c ++ [false] = c.getLsbD 0 :: lsbFirst (c >>> 1) := by
  apply List.ext_getElem
  · simp
  · intro i h h'
    cases i with
    | zero => cases w <;> simp
    | succ i =>
        by_cases hi : i + 1 < w
        · simp [hi, Nat.add_comm]
        · simp [List.getElem_append, hi, Nat.add_comm, BitVec.getLsbD_of_ge c (i + 1) (by omega)]

theorem msbFirst_cons (v : BitVec (w + 1)) : msbFirst v = v.msb :: msbFirst (v.setWidth w) := by
  have hsplit : lsbFirst v = lsbFirst (v.setWidth w) ++ [v.msb] := by
    apply List.ext_getElem
    · simp
    · intro i h h'
      by_cases hi : i < w
      · simp [hi]
      · have hlast : i = w := by simp at h; omega
        simp [hlast, BitVec.msb_eq_getLsbD_last]
  rw [msbFirst, hsplit, List.reverse_append, List.reverse_singleton, List.singleton_append, msbFirst]

theorem residue_shift (p c : BitVec w) :
    residue (lsbFirst p) (lsbFirst (shift p c)) = residue (lsbFirst p) (lsbFirst c) * root (lsbFirst p) := by
  have hzero : lsbFirst c ++ [false] = lsbFirst c ++ List.replicate 1 false := rfl
  rw [← pow_one (root _), ← residue_append_zeros, ← hzero, lsbFirst_ushiftRight,
    residue_cons (n := 0) _ (by simp)]
  congr 1
  unfold shift
  split <;> simp [lsbFirst_xor]

theorem residue_shift_iterate (p c : BitVec w) (k : ℕ) :
    residue (lsbFirst p) (lsbFirst ((shift p)^[k] c)) = residue (lsbFirst p) (lsbFirst c) * root (lsbFirst p) ^ k := by
  induction k generalizing c with
  | zero => simp
  | succ k ih => rw [Function.iterate_succ_apply, ih, residue_shift, pow_succ', mul_assoc]

def reduce (q : BitVec w) : (n : ℕ) → BitVec (w + n) → BitVec w
  | 0, data => data
  | n + 1, data =>
      reduce q n (if data.msb then data.setWidth (w + n) ^^^ (q ++ 0#n) else data.setWidth (w + n))

theorem residue_reduce (q : BitVec w) (data : BitVec (w + n)) :
    residue (msbFirst q) (msbFirst (reduce q n data)) = residue (msbFirst q) (msbFirst data) := by
  induction n with
  | zero => rfl
  | succ n ih =>
      rw [reduce, ih, msbFirst_cons data, residue_cons (n := n) _ (by simp)]
      congr 1
      split
      · rw [msbFirst_xor, msbFirst_append, msbFirst_zero]
        rfl
      · rfl

end SuperRaid.CrcRegister
