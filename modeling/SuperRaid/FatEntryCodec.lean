import SuperRaid.FatEntry

namespace SuperRaid.FatEntry

open Image

def pos (vol : Volume) (k : Nat) : Ptr := (vol.fatStart + k / vol.blockSize, k % vol.blockSize)

/-- The pointer of an entry that is looked up by its number. -/
def pointed (vol : Volume) (entry : Nat) : EntPtr :=
  match vol.variant with
  | .fat12 => .ent12 (pos vol (entry + entry / 2)) (pos vol (entry + entry / 2 + 1))
  | .fat16 => .ent16 (pos vol (2 * entry))
  | .fat32 => .ent32 (pos vol (4 * entry))

def held (vol : Volume) (entry : Nat) : List Nat :=
  let (offset, blocknr) := entBlocknr vol entry
  if vol.variant = .fat12 ∧ vol.blockSize ≤ offset + 1 then [blocknr, blocknr + 1] else [blocknr]

structure Fatent.Points (vol : Volume) (f : Fatent) : Prop where
  ptr : f.ptr = pointed vol f.entry
  bhs : f.bhs = held vol f.entry

def table (vol : Volume) (bufs : Buffers) (entry : Nat) : Nat := entGet bufs ⟨entry, pointed vol entry, []⟩

def put (vol : Volume) (bufs : Buffers) (entry new : Nat) : Buffers :=
  entPut bufs ⟨entry, pointed vol entry, []⟩ new

section

variable {vol : Volume} {bufs : Buffers} {f : Fatent} {k : Nat}

theorem Fatent.Points.entGet_eq (h : f.Points vol) : entGet bufs f = table vol bufs f.entry := by
  simp only [table, entGet, h.ptr]

theorem Fatent.Points.entPut_eq (h : f.Points vol) (new : Nat) : entPut bufs f new = put vol bufs f.entry new := by
  simp only [put, entPut, h.ptr]

theorem pos_inj {j k : Nat} : pos vol j = pos vol k ↔ j = k := by
  constructor
  · intro h
    have hdiv : j / vol.blockSize = k / vol.blockSize := by
      have := congrArg Prod.fst h
      simp only [pos] at this
      omega
    have hmod : j % vol.blockSize = k % vol.blockSize := congrArg Prod.snd h
    rw [← Nat.div_add_mod j vol.blockSize, ← Nat.div_add_mod k vol.blockSize, hdiv, hmod]
  · rintro rfl
    rfl

theorem pos_add {i : Nat} (h : k % vol.blockSize + i < vol.blockSize) :
    pos vol (k + i) = ((pos vol k).1, (pos vol k).2 + i) := by
  have hpos : 0 < vol.blockSize := by omega
  have hsum : k + i = vol.blockSize * (k / vol.blockSize) + (k % vol.blockSize + i) := by
    rw [← Nat.add_assoc, Nat.div_add_mod]
  have hdiv : (k + i) / vol.blockSize = k / vol.blockSize := by
    rw [hsum, Nat.mul_add_div hpos, Nat.div_eq_of_lt h, Nat.add_zero]
  have hmod : (k + i) % vol.blockSize = k % vol.blockSize + i := by
    rw [hsum, Nat.mul_add_mod, Nat.mod_eq_of_lt h]
  simp only [pos, hdiv, hmod]

theorem store_apply (bufs : Buffers) (p : Ptr) (bs : Bytes) (q : Ptr) :
    store bufs p bs q =
      if q.1 = p.1 ∧ p.2 ≤ q.2 ∧ q.2 < p.2 + bs.length then bs.getD (q.2 - p.2) 0 else bufs q := by
  induction bs generalizing bufs p with
  | nil => simp [store]
  | cons b bs ih =>
      rw [store, ih]
      by_cases hq : q = p
      · subst hq
        simp
      · rw [Function.update_of_ne hq]
        have hne : ¬ (q.1 = p.1 ∧ q.2 = p.2) := fun h => hq (Prod.ext h.1 h.2)
        by_cases hin : q.1 = p.1 ∧ p.2 + 1 ≤ q.2 ∧ q.2 < p.2 + 1 + bs.length
        · have hsub : q.2 - p.2 = (q.2 - (p.2 + 1)) + 1 := by omega
          rw [if_pos hin, if_pos (by simp only [List.length_cons]; omega), hsub, List.getD_cons_succ]
        · rw [if_neg hin, if_neg (by simp only [List.length_cons]; omega)]

theorem load_store (bufs : Buffers) (p : Ptr) (bs : Bytes) : load (store bufs p bs) p bs.length = leNat bs := by
  refine congrArg leNat (List.ext_getElem (by simp) (fun i h₁ h₂ => ?_))
  have hi : i < bs.length := h₂
  simp [store_apply, hi]

theorem load_store_of_disjoint {p q : Ptr} {bs : Bytes} {n : Nat}
    (h : q.1 ≠ p.1 ∨ q.2 + n ≤ p.2 ∨ p.2 + bs.length ≤ q.2) : load (store bufs p bs) q n = load bufs q n := by
  refine congrArg leNat (List.map_congr_left (fun i hi => ?_))
  have := List.mem_range.mp hi
  rw [store_apply, if_neg]
  rintro ⟨h₁, h₂, h₃⟩
  simp only at h₁ h₂ h₃
  omega

theorem pos_disjoint {w e e' : Nat} (hne : e' ≠ e) :
    (pos vol (w * e')).1 ≠ (pos vol (w * e)).1 ∨ (pos vol (w * e')).2 + w ≤ (pos vol (w * e)).2 ∨
      (pos vol (w * e)).2 + w ≤ (pos vol (w * e')).2 := by
  by_cases hblock : w * e' / vol.blockSize = w * e / vol.blockSize
  · have h := Nat.div_add_mod (w * e) vol.blockSize
    have h' := Nat.div_add_mod (w * e') vol.blockSize
    rw [hblock] at h'
    simp only [pos]
    rcases Nat.lt_or_gt_of_ne hne with hlt | hlt
    · have : w * e' + w ≤ w * e := by rw [← Nat.mul_succ]; exact Nat.mul_le_mul_left w hlt
      omega
    · have : w * e + w ≤ w * e' := by rw [← Nat.mul_succ]; exact Nat.mul_le_mul_left w hlt
      omega
  · refine .inl (fun h => hblock ?_)
    simp only [pos] at h
    omega

theorem or_shiftLeft {a b i : Nat} (h : b < 2 ^ i) : a <<< i ||| b = a * 2 ^ i + b := by
  rw [← Nat.shiftLeft_add_eq_or_of_lt h, Nat.shiftLeft_eq]

theorem toNat_or_high (b : Byte) (v : Nat) :
    (BitVec.ofNat 8 (v <<< 4) ||| (b &&& 0x0f)).toNat = v % 16 * 16 + b.toNat % 16 := by
  have hlow : (b &&& 0x0f).toNat = b.toNat % 16 := by
    rw [BitVec.toNat_and]
    exact Nat.and_two_pow_sub_one_eq_mod b.toNat 4
  have hhigh : (BitVec.ofNat 8 (v <<< 4)).toNat = (v % 16) <<< 4 := by
    rw [BitVec.toNat_ofNat, Nat.shiftLeft_eq, Nat.shiftLeft_eq]
    omega
  rw [BitVec.toNat_or, hlow, hhigh, or_shiftLeft (by omega)]
  rfl

theorem toNat_or_low (b : Byte) {v : Nat} (hv : v < 16) :
    ((b &&& 0xf0) ||| BitVec.ofNat 8 v).toNat = b.toNat / 16 * 16 + v := by
  have hhigh : (b &&& 0xf0).toNat = (b.toNat / 16) <<< 4 := by
    revert b
    decide
  have hlow : (BitVec.ofNat 8 v).toNat = v := by
    rw [BitVec.toNat_ofNat]
    omega
  rw [BitVec.toNat_or, hlow, hhigh, or_shiftLeft (by omega)]
  rfl

theorem fat12EntGet_odd {entry : Nat} {p₀ p₁ : Ptr} (h : entry % 2 = 1) :
    fat12EntGet bufs entry p₀ p₁ = ending .fat12 ((bufs p₀).toNat / 16 + 16 * (bufs p₁).toNat) := by
  have h₀ := (bufs p₀).isLt
  have h₁ := (bufs p₁).isLt
  have hor : (bufs p₀).toNat >>> 4 ||| (bufs p₁).toNat <<< 4 = (bufs p₀).toNat / 16 + 16 * (bufs p₁).toNat := by
    rw [Nat.or_comm, or_shiftLeft (by rw [Nat.shiftRight_eq_div_pow]; omega), Nat.shiftRight_eq_div_pow]
    omega
  have hmask : ∀ x, x < 4096 → x &&& 0x0fff = x := fun x hx => by
    rw [show (0x0fff : Nat) = 2 ^ 12 - 1 from rfl, Nat.and_two_pow_sub_one_eq_mod, Nat.mod_eq_of_lt hx]
  rw [fat12EntGet, if_pos h, hor, hmask _ (by omega)]

theorem fat12EntGet_even {entry : Nat} {p₀ p₁ : Ptr} (h : entry % 2 = 0) :
    fat12EntGet bufs entry p₀ p₁ = ending .fat12 ((bufs p₀).toNat + 256 * ((bufs p₁).toNat % 16)) := by
  have h₀ := (bufs p₀).isLt
  have hor : (bufs p₁).toNat <<< 8 ||| (bufs p₀).toNat = (bufs p₁).toNat * 256 + (bufs p₀).toNat :=
    or_shiftLeft (by omega)
  rw [fat12EntGet, if_neg (by omega), hor, show (0x0fff : Nat) = 2 ^ 12 - 1 from rfl, Nat.and_two_pow_sub_one_eq_mod]
  congr 1
  omega

/-- What an entry can be set to: the end of a chain, or a number that is not read as one. -/
def Storable (vol : Volume) (new : Nat) : Prop := new < vol.variant.bad ∨ new = entEof

section Put12

variable {entry new : Nat} {p₀ p₁ : Ptr}

theorem fat12EntPut_odd (h : entry % 2 = 1) (hp : p₀ ≠ p₁) (hnew : new < 4096) (q : Ptr) :
    (fat12EntPut bufs entry p₀ p₁ new q).toNat =
      if q = p₁ then new / 16 else if q = p₀ then new % 16 * 16 + (bufs p₀).toNat % 16 else (bufs q).toNat := by
  have heof : new ≠ entEof := by simp only [entEof]; omega
  rw [fat12EntPut, if_neg heof, if_pos h]
  by_cases h₁ : q = p₁
  · subst h₁
    rw [Function.update_self, if_pos rfl, BitVec.toNat_ofNat, Nat.shiftRight_eq_div_pow]
    omega
  · rw [Function.update_of_ne h₁, if_neg h₁]
    by_cases h₀ : q = p₀
    · subst h₀
      rw [Function.update_self, if_pos rfl, toNat_or_high]
    · rw [Function.update_of_ne h₀, if_neg h₀]

theorem fat12EntPut_even (h : entry % 2 = 0) (hp : p₀ ≠ p₁) (hnew : new < 4096) (q : Ptr) :
    (fat12EntPut bufs entry p₀ p₁ new q).toNat =
      if q = p₁ then (bufs p₁).toNat / 16 * 16 + new / 256 else if q = p₀ then new % 256 else (bufs q).toNat := by
  have heof : new ≠ entEof := by simp only [entEof]; omega
  rw [fat12EntPut, if_neg heof, if_neg (by omega)]
  by_cases h₁ : q = p₁
  · subst h₁
    rw [Function.update_self, if_pos rfl, Function.update_of_ne (Ne.symm hp), Nat.shiftRight_eq_div_pow,
      toNat_or_low _ (by omega)]
  · rw [Function.update_of_ne h₁, if_neg h₁]
    by_cases h₀ : q = p₀
    · subst h₀
      rw [Function.update_self, if_pos rfl, BitVec.toNat_ofNat, show (0xff : Nat) = 2 ^ 8 - 1 from rfl,
        Nat.and_two_pow_sub_one_eq_mod, Nat.mod_mod]
    · rw [Function.update_of_ne h₀, if_neg h₀]

end Put12

theorem table_put_fat12 (hvar : vol.variant = .fat12) {e new : Nat} (hnew : new < 4096) (e' : Nat) :
    table vol (put vol bufs e new) e' = if e' = e then ending .fat12 new else table vol bufs e' := by
  have hne : pos vol (e + e / 2) ≠ pos vol (e + e / 2 + 1) := fun h => by
    have := pos_inj.mp h
    omega
  have htable : ∀ b x, table vol b x = fat12EntGet b x (pos vol (x + x / 2)) (pos vol (x + x / 2 + 1)) :=
    fun b x => by
    simp only [table, entGet, pointed, hvar]
  have hput : put vol bufs e new = fat12EntPut bufs e (pos vol (e + e / 2)) (pos vol (e + e / 2 + 1)) new := by
    simp only [put, entPut, pointed, hvar]
  rw [htable, htable, hput]
  rcases Nat.mod_two_eq_zero_or_one e with he | he <;> rcases Nat.mod_two_eq_zero_or_one e' with he' | he'
  · simp only [fat12EntGet_even he', fat12EntPut_even he hne hnew, pos_inj]
    split_ifs <;> first | omega | (congr 1; omega)
  · simp only [fat12EntGet_odd he', fat12EntPut_even he hne hnew, pos_inj, if_neg (show e' ≠ e by omega)]
    by_cases hshare : e' = e + 1
    · -- the first byte of e' is the second one of e, and keeps its high half
      rw [show e' + e' / 2 = e + e / 2 + 1 by omega, if_pos rfl, if_neg (by omega), if_neg (by omega)]
      congr 1
      omega
    · rw [if_neg (by omega), if_neg (by omega), if_neg (by omega), if_neg (by omega)]
  · simp only [fat12EntGet_even he', fat12EntPut_odd he hne hnew, pos_inj, if_neg (show e' ≠ e by omega)]
    by_cases hshare : e = e' + 1
    · rw [show e' + e' / 2 + 1 = e + e / 2 by omega, if_neg (by omega), if_neg (by omega), if_neg (by omega),
        if_pos rfl]
      congr 1
      omega
    · rw [if_neg (by omega), if_neg (by omega), if_neg (by omega), if_neg (by omega)]
  · simp only [fat12EntGet_odd he', fat12EntPut_odd he hne hnew, pos_inj]
    split_ifs <;> first | omega | (congr 1; omega)

theorem table_put_fat16 (hvar : vol.variant = .fat16) {e new : Nat} (hnew : new < 65536) (e' : Nat) :
    table vol (put vol bufs e new) e' = if e' = e then ending .fat16 new else table vol bufs e' := by
  have heof : new ≠ entEof := by simp only [entEof]; omega
  have htable : ∀ b x, table vol b x = fat16EntGet b (pos vol (2 * x)) := fun b x => by
    simp only [table, entGet, pointed, hvar]
  have hput : put vol bufs e new = store bufs (pos vol (2 * e)) (leBytes 2 new) := by
    simp only [put, entPut, pointed, hvar, fat16EntPut, if_neg heof]
  rw [htable, htable, hput, fat16EntGet, fat16EntGet]
  by_cases h : e' = e
  · subst h
    have := load_store bufs (pos vol (2 * e')) (leBytes 2 new)
    rw [leBytes_length, leNat_leBytes] at this
    rw [if_pos rfl, this, Nat.mod_eq_of_lt (by omega)]
  · rw [if_neg h, load_store_of_disjoint]
    rw [leBytes_length]
    exact pos_disjoint h

theorem table_put_fat32 (hvar : vol.variant = .fat32) {e new : Nat} (hnew : new < 2 ^ 28) (e' : Nat) :
    table vol (put vol bufs e new) e' = if e' = e then ending .fat32 new else table vol bufs e' := by
  have htable : ∀ b x, table vol b x = fat32EntGet b (pos vol (4 * x)) := fun b x => by
    simp only [table, entGet, pointed, hvar]
  have hput : put vol bufs e new = fat32EntPut bufs (pos vol (4 * e)) new := by
    simp only [put, entPut, pointed, hvar]
  rw [htable, htable, hput, fat32EntGet, fat32EntGet, fat32EntPut]
  set old := load bufs (pos vol (4 * e)) 4
  by_cases h : e' = e
  · subst h
    have hload := load_store bufs (pos vol (4 * e')) (leBytes 4 (new ||| (old &&& 0xf0000000)))
    rw [leBytes_length, leNat_leBytes] at hload
    have hmask : (0x0fffffff : Nat) = 2 ^ 28 - 1 := rfl
    have hhigh : old &&& 0xf0000000 &&& 0x0fffffff = 0 := by
      rw [Nat.and_assoc]
      exact Nat.and_zero old
    have hlt : new ||| (old &&& 0xf0000000) < 256 ^ 4 :=
      Nat.or_lt_two_pow (n := 32) (by omega) (Nat.and_lt_two_pow _ (by decide))
    rw [if_pos rfl, hload, Nat.mod_eq_of_lt hlt, Nat.and_or_distrib_right, hhigh, Nat.or_zero, hmask,
      Nat.and_two_pow_sub_one_eq_mod, Nat.mod_eq_of_lt hnew]
  · rw [if_neg h, load_store_of_disjoint]
    rw [leBytes_length]
    exact pos_disjoint h

theorem ending_of_lt {v : Variant} {new : Nat} (h : new < v.bad) : ending v new = new := if_neg (Nat.not_le.mpr h)

theorem ending_eof (v : Variant) : ending v v.eof = entEof := by
  cases v <;> rfl

theorem put_eof (vol : Volume) (bufs : Buffers) (e : Nat) : put vol bufs e entEof = put vol bufs e vol.variant.eof := by
  cases hvar : vol.variant <;> simp only [put, entPut, pointed, hvar] <;> rfl

theorem table_put_ending {e new : Nat} (hnew : new ≤ vol.variant.eof) (e' : Nat) :
    table vol (put vol bufs e new) e' = if e' = e then ending vol.variant new else table vol bufs e' := by
  cases hvar : vol.variant <;> rw [hvar] at hnew <;> simp only [Variant.eof, entEof] at hnew
  · exact table_put_fat12 hvar (by omega) e'
  · exact table_put_fat16 hvar (by omega) e'
  · exact table_put_fat32 hvar (by omega) e'

theorem bad_lt_eof (v : Variant) : v.bad < v.eof := by
  cases v <;> decide

/-- The entries of a FAT are independent cells, in each of the three formats. -/
theorem table_put {e new : Nat} (hnew : Storable vol new) (e' : Nat) :
    table vol (put vol bufs e new) e' = if e' = e then new else table vol bufs e' := by
  rcases hnew with hlt | rfl
  · rw [table_put_ending (hlt.trans (bad_lt_eof _)).le, ending_of_lt hlt]
  · rw [put_eof, table_put_ending le_rfl, ending_eof]

theorem pos_succ_of_last (h : vol.blockSize ≤ k % vol.blockSize + 1) :
    pos vol (k + 1) = ((pos vol k).1 + 1, 0) ∧ (k + 1) % vol.blockSize = 0 := by
  have hpos : 0 < vol.blockSize := Nat.lt_of_lt_of_le (by decide) vol.le_blockSize
  have hlt := Nat.mod_lt k hpos
  have hsum : k + 1 = vol.blockSize * (k / vol.blockSize + 1) := by
    rw [Nat.mul_succ]
    have := Nat.div_add_mod k vol.blockSize
    omega
  have hmod : (k + 1) % vol.blockSize = 0 := by rw [hsum, Nat.mul_mod_right]
  refine ⟨?_, hmod⟩
  simp only [pos, hmod]
  rw [hsum, Nat.mul_div_cancel_left _ hpos, Nat.add_assoc]

theorem held_of_span {e : Nat} (hvar : vol.variant = .fat12)
    (hspan : vol.blockSize ≤ (e + e / 2) % vol.blockSize + 1) :
    held vol e = [(pos vol (e + e / 2)).1, (pos vol (e + e / 2)).1 + 1] := by
  simp only [held, entBlocknr, hvar, Variant.entBytes, if_pos (And.intro trivial hspan), pos]

theorem held_of_inside {e : Nat}
    (h : vol.variant ≠ .fat12 ∨ (vol.variant.entBytes e) % vol.blockSize + 1 < vol.blockSize) :
    held vol e = [(pos vol (vol.variant.entBytes e)).1] := by
  refine if_neg ?_
  rintro ⟨hvar, hle⟩
  rcases h with h | h
  · exact h hvar
  · exact Nat.not_le.mpr h hle

theorem points_inside {e : Nat} {p : Ptr} (hvar : vol.variant = .fat12) (hp : pos vol (e + e / 2) = p)
    (hin : p.2 + 1 < vol.blockSize) : Fatent.Points vol ⟨e, .ent12 p (p.1, p.2 + 1), [p.1]⟩ := by
  subst hp
  have hmod : (e + e / 2) % vol.blockSize + 1 < vol.blockSize := hin
  refine ⟨?_, ?_⟩
  · simp only [pointed, hvar, pos_add hmod]
  · rw [held_of_inside (.inr (by rw [hvar]; exact hmod)), hvar]
    rfl

theorem points_span {e : Nat} {p : Ptr} (hvar : vol.variant = .fat12) (hp : pos vol (e + e / 2) = p)
    (hspan : vol.blockSize ≤ p.2 + 1) : Fatent.Points vol ⟨e, .ent12 p (p.1 + 1, 0), [p.1, p.1 + 1]⟩ := by
  subst hp
  refine ⟨?_, ?_⟩
  · simp only [pointed, hvar, (pos_succ_of_last hspan).1]
  · rw [held_of_span hvar hspan]

theorem points_entSetPtr (hbhs : f.bhs = held vol f.entry) :
    (entSetPtr vol f (entBlocknr vol f.entry).1).Points vol := by
  cases hvar : vol.variant with
  | fat12 =>
      have hoff : (entBlocknr vol f.entry).1 = (pos vol (f.entry + f.entry / 2)).2 := by
        simp only [entBlocknr, hvar, Variant.entBytes, pos]
      by_cases hspan : vol.blockSize ≤ (pos vol (f.entry + f.entry / 2)).2 + 1
      · rw [held_of_span hvar hspan] at hbhs
        simp only [entSetPtr, hvar, hbhs, hoff]
        exact points_span hvar rfl hspan
      · have hin := Nat.lt_of_not_le hspan
        have hpoints := points_inside hvar rfl hin
        rw [← hpoints.bhs] at hbhs
        simp only [entSetPtr, hvar, hbhs, hoff]
        exact hpoints
  | fat16 | fat32 =>
      have hheld : held vol f.entry = [(pos vol (vol.variant.entBytes f.entry)).1] :=
        held_of_inside (.inl (by simp [hvar]))
      rw [hheld] at hbhs
      refine ⟨?_, ?_⟩
      · simp only [entSetPtr, hvar, hbhs, pointed, entBlocknr, Variant.entBytes]
        rfl
      · simp only [entSetPtr, hvar, hbhs]
        rw [← hvar, hheld]

theorem entNext_entry (f : Fatent) : (entNext vol f).1.entry = f.entry + 1 := by
  unfold entNext fat12EntNext wideEntNext
  split
  · rfl
  · split
    · dsimp only
      split_ifs <;> rfl
    · rfl
    · rfl
  · split_ifs <;> rfl
  · split_ifs <;> rfl

theorem Fatent.Points.fat12EntNext {p₁ : Ptr} (hvar : vol.variant = .fat12) (h : f.Points vol)
    (hp : pos vol (f.entry + f.entry / 2 + 1) = p₁) (hnext : (fat12EntNext vol f p₁).2 = true) :
    (fat12EntNext vol f p₁).1.Points vol := by
  have hle := vol.le_blockSize
  have hlater : p₁.2 + 1 + f.entry % 2 < vol.blockSize - 1 → Fatent.Points vol
      ⟨f.entry + 1, .ent12 (p₁.1, p₁.2 + 1 + f.entry % 2 - 1) (p₁.1, p₁.2 + 1 + f.entry % 2), [p₁.1]⟩ :=
      fun hlt => by
    have hstep : f.entry + 1 + (f.entry + 1) / 2 = f.entry + f.entry / 2 + 1 + f.entry % 2 := by omega
    have hpos : pos vol (f.entry + 1 + (f.entry + 1) / 2) = (p₁.1, p₁.2 + f.entry % 2) := by
      subst hp
      rw [hstep, pos_add]
      exact Nat.lt_of_le_of_lt (Nat.add_le_add_right (Nat.le_succ _) _) (Nat.lt_of_lt_of_le hlt (Nat.sub_le _ _))
    rw [Nat.add_right_comm, Nat.add_sub_cancel]
    exact points_inside hvar hpos (by dsimp only; omega)
  by_cases hspan : vol.blockSize ≤ (pos vol (f.entry + f.entry / 2)).2 + 1
  · -- the entry ends in the first byte of its second block
    have hfirst : p₁ = ((pos vol (f.entry + f.entry / 2)).1 + 1, 0) := hp ▸ (pos_succ_of_last hspan).1
    simp only [FatEntry.fat12EntNext, h.bhs, held_of_span hvar hspan]
    have hblock : (pos vol (f.entry + f.entry / 2)).1 + 1 = p₁.1 := by rw [hfirst]
    rw [hblock]
    exact hlater (by rw [hfirst]; dsimp only; omega)
  · have hin := Nat.lt_of_not_le hspan
    have hblock : (pos vol (f.entry + f.entry / 2)).1 = p₁.1 := by rw [← hp, pos_add hin]
    have hbhs : f.bhs = [p₁.1] := h.bhs.trans ((points_inside hvar rfl hin).bhs.symm.trans (by rw [hblock]))
    simp only [FatEntry.fat12EntNext, hbhs] at hnext ⊢
    split_ifs at hnext ⊢ with hlt
    exact hlater hlt

theorem Fatent.Points.wideEntNext {w : Nat} {ctor : Ptr → EntPtr} (hwide : vol.variant ≠ .fat12) (h : f.Points vol)
    (hbytes : ∀ e, vol.variant.entBytes e = w * e) (hctor : ∀ e, pointed vol e = ctor (pos vol (w * e)))
    (hnext : (wideEntNext vol w ctor f (pos vol (w * f.entry))).2 = true) :
    (wideEntNext vol w ctor f (pos vol (w * f.entry))).1.Points vol := by
  unfold FatEntry.wideEntNext at hnext ⊢
  split_ifs at hnext ⊢ with hlt
  have hpos : pos vol (w * (f.entry + 1)) = ((pos vol (w * f.entry)).1, (pos vol (w * f.entry)).2 + w) := by
    rw [Nat.mul_succ, pos_add]
    exact Nat.lt_sub_iff_add_lt.mp hlt
  refine ⟨?_, ?_⟩
  · rw [hctor, hpos]
  · rw [held_of_inside (.inl hwide), hbytes, hpos, h.bhs, held_of_inside (.inl hwide), hbytes]

/-- Advancing the pointer leads where looking the next entry up does. -/
theorem Fatent.Points.entNext (h : f.Points vol) (hnext : (entNext vol f).2 = true) :
    (entNext vol f).1.Points vol := by
  have hptr := h.ptr
  cases hvar : vol.variant with
  | fat12 =>
      simp only [pointed, hvar] at hptr
      simp only [FatEntry.entNext, hptr] at hnext ⊢
      exact h.fat12EntNext hvar rfl hnext
  | fat16 =>
      simp only [pointed, hvar] at hptr
      simp only [FatEntry.entNext, hptr] at hnext ⊢
      exact h.wideEntNext (by simp [hvar]) (by simp [hvar, Variant.entBytes]) (by simp [pointed, hvar]) hnext
  | fat32 =>
      simp only [pointed, hvar] at hptr
      simp only [FatEntry.entNext, hptr] at hnext ⊢
      exact h.wideEntNext (by simp [hvar]) (by simp [hvar, Variant.entBytes]) (by simp [pointed, hvar]) hnext

theorem pos_mem_fat (hk : k < vol.fatLength * vol.blockSize) :
    vol.fatStart ≤ (pos vol k).1 ∧ (pos vol k).1 < vol.fatStart + vol.fatLength :=
  ⟨Nat.le_add_right _ _, Nat.add_lt_add_left (Nat.div_lt_of_lt_mul (by rwa [Nat.mul_comm])) _⟩

theorem mem_fat_of_held {e b : Nat} (he : e < vol.maxCluster) (hb : b ∈ held vol e) :
    vol.fatStart ≤ b ∧ b < vol.fatStart + vol.fatLength := by
  have hfits := vol.fits
  by_cases hspan : vol.variant = .fat12 ∧ vol.blockSize ≤ (pos vol (e + e / 2)).2 + 1
  · rw [held_of_span hspan.1 hspan.2] at hb
    rw [hspan.1, Variant.bits] at hfits
    rcases List.mem_pair.mp hb with rfl | rfl
    · exact pos_mem_fat (by omega)
    · have hsecond : vol.fatStart ≤ (pos vol (e + e / 2 + 1)).1 ∧ _ := pos_mem_fat (by omega)
      rwa [(pos_succ_of_last hspan.2).1] at hsecond
  · have hin : vol.variant ≠ .fat12 ∨ vol.variant.entBytes e % vol.blockSize + 1 < vol.blockSize := by
      by_cases hvar : vol.variant = .fat12
      · refine .inr (Nat.lt_of_not_le (fun h => hspan ⟨hvar, ?_⟩))
        rwa [hvar] at h
      · exact .inl hvar
    rw [held_of_inside hin] at hb
    obtain rfl := List.mem_singleton.mp hb
    refine pos_mem_fat ?_
    cases hvar : vol.variant <;> simp only [hvar, Variant.bits, Variant.entBytes] at hfits ⊢ <;> omega

theorem pos_mem_held (vol : Volume) (e : Nat) : (pos vol (vol.variant.entBytes e)).1 ∈ held vol e := by
  show _ ∈ if _ then _ else _
  split_ifs <;> simp [pos]

theorem pos_succ_mem_held {e : Nat} (hvar : vol.variant = .fat12) : (pos vol (e + e / 2 + 1)).1 ∈ held vol e := by
  by_cases hspan : vol.blockSize ≤ (pos vol (e + e / 2)).2 + 1
  · rw [held_of_span hvar hspan, (pos_succ_of_last hspan).1]
    simp
  · rw [← (points_inside hvar rfl (Nat.lt_of_not_le hspan)).bhs, pos_add (Nat.lt_of_not_le hspan)]
    simp

theorem put_of_not_held {e new : Nat} {q : Ptr} (h : q.1 ∉ held vol e) : put vol bufs e new q = bufs q := by
  have hout : ∀ k, (pos vol k).1 ∈ held vol e → q.1 ≠ (pos vol k).1 := fun k hk heq => h (heq ▸ hk)
  have hfirst := hout _ (pos_mem_held vol e)
  cases hvar : vol.variant with
  | fat12 =>
      have hsecond := hout _ (pos_succ_mem_held hvar)
      rw [hvar] at hfirst
      have h₀ : q ≠ pos vol (e + e / 2) := fun heq => hfirst (by rw [heq]; rfl)
      have h₁ : q ≠ pos vol (e + e / 2 + 1) := fun heq => hsecond (by rw [heq])
      simp only [put, entPut, pointed, hvar, fat12EntPut]
      split_ifs <;> rw [Function.update_of_ne h₁, Function.update_of_ne h₀]
  | fat16 =>
      rw [hvar] at hfirst
      simp only [put, entPut, pointed, hvar, fat16EntPut]
      rw [store_apply, if_neg (fun hin => hfirst hin.1)]
  | fat32 =>
      rw [hvar] at hfirst
      simp only [put, entPut, pointed, hvar, fat32EntPut]
      rw [store_apply, if_neg (fun hin => hfirst hin.1)]

theorem table_congr {bufs' : Buffers} {e : Nat} (h : ∀ q : Ptr, q.1 ∈ held vol e → bufs' q = bufs q) :
    table vol bufs' e = table vol bufs e := by
  have hfirst := pos_mem_held vol e
  cases hvar : vol.variant with
  | fat12 =>
      rw [hvar, Variant.entBytes] at hfirst
      simp only [table, entGet, pointed, hvar, fat12EntGet, h _ hfirst, h _ (pos_succ_mem_held hvar)]
  | fat16 | fat32 =>
      rw [hvar] at hfirst
      have hload :
          ∀ n, load bufs' (pos vol (vol.variant.entBytes e)) n = load bufs (pos vol (vol.variant.entBytes e)) n :=
        fun n => congrArg leNat (List.map_congr_left (fun i _ => h _ (hvar ▸ hfirst)))
      rw [hvar] at hload
      simp only [Variant.entBytes] at hload
      simp only [table, entGet, pointed, hvar, fat16EntGet, fat32EntGet, hload]

/-- Writing an entry through its buffers changes what is read through the buffers of that entry, and of no other. -/
theorem entGet_entPut {g : Fatent} {new : Nat} (hf : f.Points vol) (hg : g.Points vol) (hnew : Storable vol new) :
    entGet (entPut bufs f new) g = if g.entry = f.entry then new else entGet bufs g := by
  rw [hf.entPut_eq, hg.entGet_eq, hg.entGet_eq, table_put hnew]

end

def entryOf (vol : Volume) (e : Nat) : Fatent := ⟨e, pointed vol e, held vol e⟩

theorem points_entryOf (vol : Volume) (e : Nat) : (entryOf vol e).Points vol := ⟨rfl, rfl⟩

def floppy : Volume where
  variant := .fat12
  blockSize := 512
  fats := 2
  fatStart := 1
  fatLength := 9
  maxCluster := 2849
  dvd_blockSize := by decide
  le_blockSize := by decide
  fats_pos := by decide
  start_le := by decide
  fits := by decide
  lt_bad := by decide

theorem entGet_entPut_floppy : held floppy 341 = [1, 2] ∧ ∀ bufs : Buffers,
    entGet (entPut bufs (entryOf floppy 341) 0xabc) (entryOf floppy 340) = entGet bufs (entryOf floppy 340) :=
  ⟨by decide, fun _ => entGet_entPut (points_entryOf _ _) (points_entryOf _ _) (.inl (by decide))⟩

end SuperRaid.FatEntry
