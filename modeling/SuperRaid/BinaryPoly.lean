import Mathlib.Algebra.CharP.Two
import Mathlib.Algebra.Field.ZMod
import Mathlib.RingTheory.AdjoinRoot

namespace SuperRaid.BinaryPoly

open Polynomial

def coefficient : Bool → ZMod 2
  | true => 1
  | false => 0

/-- The polynomial of a bit string. The first bit is the highest coefficient. -/
noncomputable def stream : List Bool → (ZMod 2)[X]
  | [] => 0
  | b :: bs => C (coefficient b) * X ^ bs.length + stream bs

theorem coefficient_xor (a b : Bool) : coefficient (a ^^ b) = coefficient a + coefficient b := by
  cases a <;> cases b <;> decide

theorem coefficient_injective : Function.Injective coefficient := by
  decide

theorem stream_append (as bs : List Bool) : stream (as ++ bs) = stream as * X ^ bs.length + stream bs := by
  induction as with
  | nil => simp [stream]
  | cons a as ih =>
      simp only [List.cons_append, stream, List.length_append, ih, pow_add]
      ring

theorem stream_replicate_false (n : ℕ) : stream (List.replicate n false) = 0 := by
  induction n with
  | zero => rfl
  | succ n ih => simp [List.replicate_succ, stream, coefficient, ih]

theorem stream_xor {as bs : List Bool} (h : as.length = bs.length) :
    stream (List.zipWith xor as bs) = stream as + stream bs := by
  induction as generalizing bs with
  | nil => simp [stream, List.length_eq_zero_iff.mp h.symm]
  | cons a as ih =>
      obtain ⟨b, bs, rfl⟩ := List.exists_cons_of_length_eq_add_one h.symm
      have hlen : as.length = bs.length := Nat.succ.inj h
      simp only [List.zipWith_cons_cons, stream, ih hlen, coefficient_xor, C_add, List.length_zipWith, hlen, min_self]
      ring

theorem degree_stream_lt (bs : List Bool) : (stream bs).degree < bs.length := by
  induction bs with
  | nil => simp [stream]
  | cons b bs ih =>
      have hsucc : (bs.length : WithBot ℕ) < (bs.length + 1 : ℕ) := by exact_mod_cast Nat.lt_succ_self bs.length
      refine (degree_add_le _ _).trans_lt (max_lt ?_ ?_)
      · exact (degree_C_mul_X_pow_le _ _).trans_lt hsucc
      · exact ih.trans hsucc

theorem coeff_stream_cons (b : Bool) (bs : List Bool) : (stream (b :: bs)).coeff bs.length = coefficient b := by
  rw [stream, coeff_add, coeff_C_mul_X_pow, if_pos rfl, coeff_eq_zero_of_degree_lt (degree_stream_lt bs), add_zero]

theorem eq_of_stream_eq {as bs : List Bool} (hlen : as.length = bs.length) (h : stream as = stream bs) : as = bs := by
  induction as generalizing bs with
  | nil => exact (List.length_eq_zero_iff.mp hlen.symm).symm
  | cons a as ih =>
      obtain ⟨b, bs, rfl⟩ := List.exists_cons_of_length_eq_add_one hlen.symm
      have hlen' : as.length = bs.length := Nat.succ.inj hlen
      have hhead : coefficient a = coefficient b := by
        rw [← coeff_stream_cons a as, ← coeff_stream_cons b bs, h, hlen']
      obtain rfl := coefficient_injective hhead
      rw [stream, stream, hlen'] at h
      rw [ih hlen' (add_left_cancel h)]

noncomputable def modulus (q : List Bool) : (ZMod 2)[X] := stream (true :: q)

variable {q : List Bool}

theorem modulus_eq (q : List Bool) : modulus q = X ^ q.length + stream q := by
  simp [modulus, stream, coefficient]

theorem modulus_monic (q : List Bool) : (modulus q).Monic := by
  rw [modulus_eq]
  exact monic_X_pow_add (degree_stream_lt q)

theorem degree_modulus (q : List Bool) : (modulus q).degree = q.length := by
  rw [modulus_eq, degree_add_eq_left_of_degree_lt, degree_X_pow]
  rw [degree_X_pow]
  exact degree_stream_lt q

noncomputable def residue (q bs : List Bool) : AdjoinRoot (modulus q) := AdjoinRoot.mk (modulus q) (stream bs)

noncomputable abbrev root (q : List Bool) : AdjoinRoot (modulus q) := AdjoinRoot.root (modulus q)

theorem residue_append (as bs : List Bool) :
    residue q (as ++ bs) = residue q as * root q ^ bs.length + residue q bs := by
  simp only [residue, stream_append, map_add, map_mul, map_pow, AdjoinRoot.mk_X]

theorem residue_append_zeros (as : List Bool) (n : ℕ) :
    residue q (as ++ List.replicate n false) = residue q as * root q ^ n := by
  rw [residue_append, List.length_replicate, residue, residue, stream_replicate_false, map_zero, add_zero]

theorem residue_xor {as bs : List Bool} (h : as.length = bs.length) :
    residue q (List.zipWith xor as bs) = residue q as + residue q bs := by
  simp only [residue, stream_xor h, map_add]

theorem residue_false_cons (bs : List Bool) : residue q (false :: bs) = residue q bs := by
  simp [residue, stream, coefficient]

theorem residue_modulus (q : List Bool) : residue q (true :: q) = 0 := AdjoinRoot.mk_self

theorem residue_cons (b : Bool) {bs : List Bool} {n : ℕ} (h : bs.length = q.length + n) :
    residue q (b :: bs) = residue q (if b then List.zipWith xor bs (q ++ List.replicate n false) else bs) := by
  cases b with
  | false => exact residue_false_cons bs
  | true =>
      have hmultiple : residue q (true :: q ++ List.replicate n false) = 0 := by
        rw [residue_append_zeros, residue_modulus, zero_mul]
      calc residue q (true :: bs)
          = residue q (true :: bs) + residue q (true :: q ++ List.replicate n false) := by rw [hmultiple, add_zero]
        _ = residue q (false :: List.zipWith xor bs (q ++ List.replicate n false)) := (residue_xor (by simp [h])).symm
        _ = residue q (List.zipWith xor bs (q ++ List.replicate n false)) := residue_false_cons _

theorem residue_eq_iff {as bs : List Bool} : residue q as = residue q bs ↔ modulus q ∣ stream as - stream bs :=
  AdjoinRoot.mk_eq_mk

theorem eq_of_residue_eq {as bs : List Bool} (hlen : as.length = bs.length) (hle : as.length ≤ q.length)
    (h : residue q as = residue q bs) : as = bs := by
  have hdegree : (stream as - stream bs).degree < (modulus q).degree := by
    have hle' : (as.length : WithBot ℕ) ≤ q.length := by exact_mod_cast hle
    rw [degree_modulus]
    refine (degree_sub_le _ _).trans_lt (max_lt ?_ ?_)
    · exact (degree_stream_lt as).trans_le hle'
    · exact (degree_stream_lt bs).trans_le (hlen ▸ hle')
  have hzero : stream as - stream bs = 0 := by
    by_contra hne
    exact (modulus_monic q).not_dvd_of_degree_lt hne hdegree (residue_eq_iff.mp h)
  exact eq_of_stream_eq hlen (sub_eq_zero.mp hzero)

theorem modByMonic_of_residue {f : (ZMod 2)[X]} {bs : List Bool} (hle : bs.length ≤ q.length)
    (h : AdjoinRoot.mk (modulus q) f = residue q bs) : stream bs = f %ₘ modulus q := by
  have hdegree : (stream bs).degree < (modulus q).degree := by
    rw [degree_modulus]
    exact (degree_stream_lt bs).trans_le (by exact_mod_cast hle)
  rw [modByMonic_eq_of_dvd_sub (modulus_monic q) (AdjoinRoot.mk_eq_mk.mp h),
    (modByMonic_eq_self_iff (modulus_monic q)).mpr hdegree]

theorem isUnit_root {p : List Bool} (hq : q = p ++ [true]) : IsUnit (root q) := by
  have hone : residue q [true] = 1 := by simp [residue, stream, coefficient]
  have hsum : residue q (true :: p) * root q + 1 = 0 := by
    calc residue q (true :: p) * root q + 1
        = residue q (true :: p ++ [true]) := by rw [residue_append, hone, List.length_singleton, pow_one]
      _ = 0 := by rw [List.cons_append, ← hq, residue_modulus]
  refine IsUnit.of_mul_eq_one (-residue q (true :: p)) ?_
  linear_combination -hsum

/-- Two strings that differ inside a burst no longer than q have different residues. -/
theorem eq_of_residue_burst {p us as bs vs : List Bool} (hq : q = p ++ [true]) (hlen : as.length = bs.length)
    (hle : as.length ≤ q.length) (h : residue q (us ++ as ++ vs) = residue q (us ++ bs ++ vs)) : as = bs := by
  simp only [residue_append, hlen, add_left_inj] at h
  have hshift := ((isUnit_root hq).pow vs.length).mul_right_cancel h
  exact eq_of_residue_eq hlen hle (add_left_cancel hshift)

end SuperRaid.BinaryPoly
