import Mathlib.Data.List.Basic
import Mathlib.Tactic

namespace SuperRaid.Image

abbrev Byte := BitVec 8
abbrev Bytes := List Byte

/-- The bytes of an image from an offset on, at most a given number of them. -/
def slice (img : Bytes) (off n : Nat) : Bytes := (img.drop off).take n

/-- Store bytes at an offset, as memcpy into a buffer does. -/
def overwrite (img : Bytes) (off : Nat) (bs : Bytes) : Bytes :=
  img.take off ++ bs ++ img.drop (off + bs.length)

def leBytes (n : Nat) (v : Nat) : Bytes := (List.range n).map (fun i => BitVec.ofNat 8 (v / 256 ^ i))

def leNat : Bytes → Nat
  | [] => 0
  | b :: bs => b.toNat + 256 * leNat bs

def putFields (base : Nat) (fields : List (Nat × Bytes)) (blk : Bytes) : Bytes :=
  fields.foldl (fun b f => overwrite b (base + f.1) f.2) blk

@[simp] theorem leBytes_length (n v : Nat) : (leBytes n v).length = n := by
  simp [leBytes]

theorem leBytes_succ (n v : Nat) : leBytes (n + 1) v = BitVec.ofNat 8 v :: leBytes n (v / 256) := by
  simp only [leBytes, List.range_succ_eq_map, List.map_cons, List.map_map, pow_zero, Nat.div_one]
  congr 1
  refine List.map_congr_left (fun i _ => ?_)
  simp only [Function.comp_apply, Nat.succ_eq_add_one, Nat.pow_succ', Nat.div_div_eq_div_mul]

theorem leNat_leBytes (n v : Nat) : leNat (leBytes n v) = v % 256 ^ n := by
  induction n generalizing v with
  | zero => simp [leBytes, leNat, Nat.mod_one]
  | succ n ih =>
      have hpow : 256 ^ (n + 1) = 256 * 256 ^ n := Nat.pow_succ'
      rw [leBytes_succ, leNat, ih, BitVec.toNat_ofNat, hpow, Nat.mod_mul]

theorem leBytes_leNat (bs : Bytes) : leBytes bs.length (leNat bs) = bs := by
  induction bs with
  | nil => rfl
  | cons b bs ih =>
      have hb := b.isLt
      have hlow : BitVec.ofNat 8 (leNat (b :: bs)) = b := by
        apply BitVec.eq_of_toNat_eq
        simp only [leNat, BitVec.toNat_ofNat]
        omega
      have hhigh : leNat (b :: bs) / 256 = leNat bs := by
        simp only [leNat]
        omega
      rw [List.length_cons, leBytes_succ, hlow, hhigh, ih]

section Overwrite

variable {img bs : Bytes} {off n i : Nat}

theorem overwrite_length (h : off + bs.length ≤ img.length) : (overwrite img off bs).length = img.length := by
  simp only [overwrite, List.length_append, List.length_take, List.length_drop]
  omega

theorem overwrite_getElem? (h : off ≤ img.length) (i : Nat) :
    (overwrite img off bs)[i]? = if off ≤ i ∧ i < off + bs.length then bs[i - off]? else img[i]? := by
  have htake : (img.take off).length = off := by rw [List.length_take]; omega
  unfold overwrite
  rw [List.append_assoc, List.getElem?_append]
  by_cases hlow : i < off
  · rw [if_pos (by omega), if_neg (by omega), List.getElem?_take_of_lt hlow]
  · rw [if_neg (by omega), htake, List.getElem?_append]
    by_cases hmid : i < off + bs.length
    · rw [if_pos (by omega), if_pos (by omega)]
    · rw [if_neg (by omega), if_neg (by omega), List.getElem?_drop]
      congr 1
      omega

theorem slice_getElem? (img : Bytes) (off n i : Nat) :
    (slice img off n)[i]? = if i < n then img[off + i]? else none := by
  unfold slice
  by_cases h : i < n
  · rw [List.getElem?_take_of_lt h, List.getElem?_drop, if_pos h]
  · rw [if_neg h, List.getElem?_take, if_neg h]

theorem slice_length (h : off + n ≤ img.length) : (slice img off n).length = n := by
  simp only [slice, List.length_take, List.length_drop]
  omega

theorem slice_congr {img img' : Bytes} (h : ∀ i, off ≤ i → i < off + n → img[i]? = img'[i]?) :
    slice img off n = slice img' off n := by
  refine List.ext_getElem? (fun i => ?_)
  rw [slice_getElem?, slice_getElem?]
  split_ifs with hi
  · exact h (off + i) (by omega) (by omega)
  · rfl

theorem slice_overwrite_self (h : off + bs.length ≤ img.length) :
    slice (overwrite img off bs) off bs.length = bs := by
  refine List.ext_getElem? (fun i => ?_)
  rw [slice_getElem?]
  split_ifs with hi
  · rw [overwrite_getElem? (by omega), if_pos (by omega)]
    congr 1
    omega
  · rw [List.getElem?_eq_none (by omega)]

theorem slice_overwrite_of_le {a : Nat} (h : off ≤ img.length) (ha : a + n ≤ off) :
    slice (overwrite img off bs) a n = slice img a n := by
  refine slice_congr (fun i _ hi => ?_)
  rw [overwrite_getElem? h, if_neg (by omega)]

theorem slice_zero_eq_take (img : Bytes) (n : Nat) : slice img 0 n = img.take n := by
  simp [slice]

theorem overwrite_slice (h : off + n ≤ img.length) : overwrite img off (slice img off n) = img := by
  refine List.ext_getElem? (fun i => ?_)
  rw [overwrite_getElem? (by omega), slice_length h]
  split_ifs with hi
  · rw [slice_getElem?, if_pos (by omega)]
    congr 1
    omega
  · rfl

theorem slice_overwrite_of_ge {a : Nat} (h : off ≤ img.length) (ha : off + bs.length ≤ a) :
    slice (overwrite img off bs) a n = slice img a n := by
  refine slice_congr (fun i hi _ => ?_)
  rw [overwrite_getElem? h, if_neg (by omega)]

theorem overwrite_overwrite {bs' : Bytes} (h : off + bs.length ≤ img.length) (hlen : bs'.length = bs.length) :
    overwrite (overwrite img off bs) off bs' = overwrite img off bs' := by
  refine List.ext_getElem? (fun i => ?_)
  rw [overwrite_getElem? (by rw [overwrite_length h]; omega), overwrite_getElem? (by omega),
    overwrite_getElem? (by omega), hlen]
  split_ifs
  · rfl
  · rfl

theorem overwrite_append {bs' : Bytes} (h : off + bs.length + bs'.length ≤ img.length) :
    overwrite (overwrite img off bs) (off + bs.length) bs' = overwrite img off (bs ++ bs') := by
  have hlen : (overwrite img off bs).length = img.length := overwrite_length (by omega)
  refine List.ext_getElem? (fun i => ?_)
  rw [overwrite_getElem? (by omega), overwrite_getElem? (by omega), overwrite_getElem? (by omega),
    List.length_append, List.getElem?_append]
  split_ifs <;> first | rfl | omega | (congr 1; omega)

theorem overwrite_take_end (h : off ≤ img.length) :
    (overwrite img off bs).take (off + bs.length) = img.take off ++ bs := by
  have hlen : (img.take off ++ bs).length = off + bs.length := by
    rw [List.length_append, List.length_take]
    omega
  rw [overwrite, ← hlen, List.take_left]

end Overwrite

section PutFields

variable {fields : List (Nat × Bytes)} {blk : Bytes} {a n : Nat}

theorem putFields_length (hfit : ∀ f ∈ fields, f.1 + f.2.length ≤ blk.length) :
    (putFields 0 fields blk).length = blk.length := by
  induction fields generalizing blk with
  | nil => rfl
  | cons f fs ih =>
      have hf : (overwrite blk (0 + f.1) f.2).length = blk.length :=
        overwrite_length (by rw [Nat.zero_add]; exact hfit f List.mem_cons_self)
      have hrest : ∀ g ∈ fs, g.1 + g.2.length ≤ (overwrite blk (0 + f.1) f.2).length := fun g hg => by
        rw [hf]; exact hfit g (List.mem_cons_of_mem f hg)
      exact (ih hrest).trans hf

theorem slice_putFields_of_disjoint (hfit : ∀ f ∈ fields, f.1 + f.2.length ≤ blk.length)
    (hout : ∀ f ∈ fields, a + n ≤ f.1 ∨ f.1 + f.2.length ≤ a) :
    slice (putFields 0 fields blk) a n = slice blk a n := by
  induction fields generalizing blk with
  | nil => rfl
  | cons f fs ih =>
      have hfits := hfit f List.mem_cons_self
      have hf : (overwrite blk (0 + f.1) f.2).length = blk.length := overwrite_length (by omega)
      have hrest : ∀ g ∈ fs, g.1 + g.2.length ≤ (overwrite blk (0 + f.1) f.2).length := fun g hg => by
        rw [hf]; exact hfit g (List.mem_cons_of_mem f hg)
      refine (ih hrest (fun g hg => hout g (List.mem_cons_of_mem f hg))).trans ?_
      rcases hout f List.mem_cons_self with h | h
      · exact slice_overwrite_of_le (by omega) (by omega)
      · exact slice_overwrite_of_ge (by omega) (by omega)

theorem slice_putFields (hfit : ∀ f ∈ fields, f.1 + f.2.length ≤ blk.length)
    (hsorted : fields.Pairwise (fun f g => f.1 + f.2.length ≤ g.1)) {f : Nat × Bytes} (hmem : f ∈ fields) :
    slice (putFields 0 fields blk) f.1 f.2.length = f.2 := by
  induction fields generalizing blk with
  | nil => simp at hmem
  | cons g fs ih =>
      have hfits := hfit g List.mem_cons_self
      have hg : (overwrite blk (0 + g.1) g.2).length = blk.length := overwrite_length (by omega)
      have hrest : ∀ x ∈ fs, x.1 + x.2.length ≤ (overwrite blk (0 + g.1) g.2).length := fun x hx => by
        rw [hg]; exact hfit x (List.mem_cons_of_mem g hx)
      rw [List.pairwise_cons] at hsorted
      rcases List.mem_cons.mp hmem with rfl | hmem
      · have hself : slice (overwrite blk (0 + f.1) f.2) f.1 f.2.length = f.2 := by
          rw [Nat.zero_add]; exact slice_overwrite_self hfits
        exact (slice_putFields_of_disjoint hrest (fun x hx => .inl (hsorted.1 x hx))).trans hself
      · exact ih hrest hsorted.2 hmem

end PutFields

theorem slice_slice {len k i : Nat} (h : k + i ≤ len) :
    slice (slice img off len) k i = slice img (off + k) i := by
  refine List.ext_getElem? (fun j => ?_)
  simp only [slice_getElem?]
  split_ifs <;> first | rfl | omega | (congr 1; omega)

theorem slice_length_self (bs : Bytes) (k i : Nat) : slice bs k (slice bs k i).length = slice bs k i := by
  simp [slice]

theorem take_append_slice (bs : Bytes) (k i : Nat) : bs.take k ++ slice bs k i = bs.take (k + i) := by
  rw [slice, List.take_add]

theorem eq_take_length {bs X : Bytes} {k : Nat} (h : bs = X.take k) : bs = X.take bs.length := by
  rw [h, List.length_take, ← List.take_eq_take_min]

end SuperRaid.Image
