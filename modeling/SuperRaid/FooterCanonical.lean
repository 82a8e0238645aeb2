import SuperRaid.Footer

namespace SuperRaid.FooterCanonical

open Image Footer

variable {raw digest : Bytes} {protectedSize : Nat}

theorem slice_eq_leBytes {off n v : Nat} (hlen : off + n ≤ raw.length) (h : leNat (slice raw off n) = v) :
    slice raw off n = leBytes n v := by
  have hback := leBytes_leNat (slice raw off n)
  rwa [slice_length hlen, h, eq_comm] at hback

/-- Everything validate_descriptor has checked once it returns EXIT_OK. -/
structure Checked (raw : Bytes) (protectedSize : Nat) (digest : Bytes) : Prop where
  crc : leNat (hashCrc32 (overwrite raw 64 (leBytes 4 0))) = leNat (slice raw 64 4)
  magic : slice raw 0 8 = descriptorMagic
  version : leNat (slice raw 8 4) = 1
  size : leNat (slice raw 12 4) = descriptorSize
  algorithm : leNat (slice raw 16 4) = 1
  digestLen : leNat (slice raw 20 4) = digestSize
  hashed : leNat (slice raw 24 8) = protectedSize
  reserved : ∀ b ∈ slice raw 68 60, b = 0
  digest : slice raw 32 digestSize = digest

theorem check_passed {c : Prop} [Decidable c] {rest : Option Bytes} (h : (if c then none else rest) = some digest) :
    ¬ c ∧ rest = some digest := by
  by_cases hc : c
  · rw [if_pos hc] at h
    cases h
  · rw [if_neg hc] at h
    exact ⟨hc, h⟩

theorem checked_of_validate (h : validateDescriptor raw protectedSize = some digest) :
    Checked raw protectedSize digest := by
  obtain ⟨hcrc, h⟩ := check_passed h
  obtain ⟨hmagic, h⟩ := check_passed h
  obtain ⟨hversion, h⟩ := check_passed h
  obtain ⟨hsize, h⟩ := check_passed h
  obtain ⟨halgorithm, h⟩ := check_passed h
  obtain ⟨hlen, h⟩ := check_passed h
  obtain ⟨hhashed, h⟩ := check_passed h
  obtain ⟨hreserved, h⟩ := check_passed h
  refine ⟨not_not.mp hcrc, not_not.mp hmagic, not_not.mp hversion, not_not.mp hsize, not_not.mp halgorithm,
    not_not.mp hlen, not_not.mp hhashed, fun b hb => ?_, Option.some.inj h⟩
  by_contra hne
  exact hreserved (List.any_eq_true.mpr ⟨b, hb, by simpa using hne⟩)

theorem eq_of_slices {a b : Bytes} (ranges : List (Nat × Nat)) (hlen : a.length = b.length)
    (hcover : ∀ i < a.length, ∃ r ∈ ranges, r.1 ≤ i ∧ i < r.1 + r.2)
    (hslices : ∀ r ∈ ranges, slice a r.1 r.2 = slice b r.1 r.2) : a = b := by
  refine List.ext_getElem? (fun i => ?_)
  by_cases hi : i < a.length
  · obtain ⟨r, hr, hlo, hhi⟩ := hcover i hi
    have hat := congrArg (·[i - r.1]?) (hslices r hr)
    simp only [slice_getElem?, if_pos (show i - r.1 < r.2 by omega)] at hat
    rwa [show r.1 + (i - r.1) = i by omega] at hat
  · rw [List.getElem?_eq_none (by omega), List.getElem?_eq_none (by omega)]

def fieldRanges : List (Nat × Nat) := [(0, 8), (8, 4), (12, 4), (16, 4), (20, 4), (24, 8), (32, 32), (64, 4), (68, 60)]

theorem fieldRanges_cover : ∀ i < descriptorSize, ∃ r ∈ fieldRanges, r.1 ≤ i ∧ i < r.1 + r.2 := by
  decide

theorem slice_descriptorBody (hdigest : digest.length = digestSize) {off : Nat} {bs : Bytes}
    (hmem : (off, bs) ∈ descriptorFields protectedSize digest) :
    slice (descriptorBody protectedSize digest) off bs.length = bs :=
  slice_putFields (descriptorFields_fit hdigest) descriptorFields_sorted hmem

section Accepted

variable (hraw : raw.length = descriptorSize)

include hraw

theorem Checked.digest_length (h : Checked raw protectedSize digest) : digest.length = digestSize := by
  rw [← h.digest]
  exact slice_length (by rw [hraw]; decide)

theorem Checked.cleared (h : Checked raw protectedSize digest) :
    overwrite raw 64 (leBytes 4 0) = descriptorBody protectedSize digest := by
  have hdigest := h.digest_length hraw
  have hbelow {off n : Nat} (hn : off + n ≤ 64) : slice (overwrite raw 64 (leBytes 4 0)) off n = slice raw off n :=
    slice_overwrite_of_le (by rw [hraw]; decide) hn
  have hword {off n v : Nat} (hn : off + n ≤ 64) (hmem : (off, leBytes n v) ∈ descriptorFields protectedSize digest)
      (hv : leNat (slice raw off n) = v) :
      slice (overwrite raw 64 (leBytes 4 0)) off n = slice (descriptorBody protectedSize digest) off n := by
    have hbody := slice_descriptorBody hdigest hmem
    rw [leBytes_length] at hbody
    rw [hbelow hn, slice_eq_leBytes (by rw [hraw]; exact hn.trans (by decide)) hv, hbody]
  have hlen : (overwrite raw 64 (leBytes 4 0)).length = descriptorSize := by
    rw [overwrite_length (by rw [hraw, leBytes_length]; decide), hraw]
  refine eq_of_slices fieldRanges (by rw [hlen, descriptorBody_length hdigest])
    (by rw [hlen]; exact fieldRanges_cover) (fun r hr => ?_)
  simp only [fieldRanges, List.mem_cons, List.not_mem_nil, or_false] at hr
  rcases hr with rfl | rfl | rfl | rfl | rfl | rfl | rfl | rfl | rfl
  · have hbody : slice (descriptorBody protectedSize digest) 0 descriptorMagic.length = descriptorMagic :=
      slice_descriptorBody hdigest (by simp [descriptorFields])
    rw [hbelow (by decide), h.magic]
    exact hbody.symm
  · exact hword (by decide) (by simp [descriptorFields]) h.version
  · exact hword (by decide) (by simp [descriptorFields]) h.size
  · exact hword (by decide) (by simp [descriptorFields]) h.algorithm
  · exact hword (by decide) (by simp [descriptorFields]) h.digestLen
  · exact hword (by decide) (by simp [descriptorFields]) h.hashed
  · have hbody : slice (descriptorBody protectedSize digest) 32 digest.length = digest :=
      slice_descriptorBody hdigest (by simp [descriptorFields])
    rw [hdigest] at hbody
    rw [hbelow (by decide)]
    exact h.digest.trans hbody.symm
  · have hself : slice (overwrite raw 64 (leBytes 4 0)) 64 (leBytes 4 0).length = leBytes 4 0 :=
      slice_overwrite_self (by rw [hraw, leBytes_length]; decide)
    rw [leBytes_length] at hself
    rw [slice_descriptorBody_of_ge hdigest (le_refl 64)]
    exact hself
  · rw [slice_descriptorBody_of_ge hdigest (by decide), slice_overwrite_of_ge (by rw [hraw]; decide)
      (by rw [leBytes_length])]
    have hzero : slice raw 68 60 = List.replicate (slice raw 68 60).length 0 := List.eq_replicate_length.mpr h.reserved
    rw [slice_length (by rw [hraw]; decide)] at hzero
    exact hzero

theorem restore_crc : overwrite (overwrite raw 64 (leBytes 4 0)) 64 (slice raw 64 4) = raw := by
  have hfits : 64 + (leBytes 4 0).length ≤ raw.length := by rw [hraw, leBytes_length]; decide
  rw [overwrite_overwrite hfits (by rw [slice_length (by rw [hraw]; decide), leBytes_length])]
  exact overwrite_slice (by rw [hraw]; decide)

/-- Every byte of an accepted block is one that write_descriptor would have put there. -/
theorem Checked.eq_encode (h : Checked raw protectedSize digest) : raw = encodeDescriptor protectedSize digest := by
  have hcrc : slice raw 64 4 = leBytes 4 (leNat (hashCrc32 (descriptorBody protectedSize digest))) := by
    rw [← h.cleared hraw]
    exact slice_eq_leBytes (by rw [hraw]; decide) h.crc.symm
  calc raw = overwrite (overwrite raw 64 (leBytes 4 0)) 64 (slice raw 64 4) := (restore_crc hraw).symm
    _ = encodeDescriptor protectedSize digest := by rw [h.cleared hraw, hcrc, encodeDescriptor]

theorem validate_eq_some (hsize : protectedSize < 2 ^ 64) (hdigest : digest.length = digestSize) :
    validateDescriptor raw protectedSize = some digest ↔ raw = encodeDescriptor protectedSize digest := by
  constructor
  · intro h
    exact (checked_of_validate h).eq_encode hraw
  · intro h
    rw [h]
    exact validate_encode hdigest hsize

end Accepted

theorem encode_injective {size size' : Nat} {digest digest' : Bytes} (hsize : size < 2 ^ 64) (hsize' : size' < 2 ^ 64)
    (hdigest : digest.length = digestSize) (hdigest' : digest'.length = digestSize)
    (h : encodeDescriptor size digest = encodeDescriptor size' digest') : size = size' ∧ digest = digest' := by
  have hread := checked_of_validate (validate_encode hdigest hsize)
  have hread' := checked_of_validate (validate_encode hdigest' hsize')
  rw [h] at hread
  exact ⟨hread.hashed.symm.trans hread'.hashed, hread.digest.symm.trans hread'.digest⟩

/-- A block is accepted with a digest exactly when it is the one that write_descriptor builds for it, and blocks built
for different sizes or digests differ. -/
theorem accepted_iff_encoded (hraw : raw.length = descriptorSize) (hsize : protectedSize < 2 ^ 64)
    (hdigest : digest.length = digestSize) :
    (validateDescriptor raw protectedSize = some digest ↔ raw = encodeDescriptor protectedSize digest) ∧
    validateDescriptor (encodeDescriptor protectedSize digest) protectedSize = some digest ∧
    ∀ size' digest', size' < 2 ^ 64 → digest'.length = digestSize →
      validateDescriptor (encodeDescriptor protectedSize digest) size' = some digest' →
      size' = protectedSize ∧ digest' = digest := by
  refine ⟨validate_eq_some hraw hsize hdigest, validate_encode hdigest hsize, fun size' digest' hs hd h => ?_⟩
  have henc := (validate_eq_some (encodeDescriptor_length hdigest) hs hd).mp h
  obtain ⟨hs', hd'⟩ := encode_injective hsize hs hdigest hd henc
  exact ⟨hs'.symm, hd'.symm⟩

theorem accepted_iff_encoded_sevens :
    let raw := encodeDescriptor 512 (List.replicate 32 7)
    validateDescriptor raw 512 = some (List.replicate 32 7) ∧
    ∀ digest' : Bytes, digest'.length = digestSize → validateDescriptor raw 1024 ≠ some digest' := by
  have hdigest : (List.replicate 32 (7 : Byte)).length = digestSize := List.length_replicate
  have hraw : (encodeDescriptor 512 (List.replicate 32 7)).length = descriptorSize := encodeDescriptor_length hdigest
  have hsize : 512 < 2 ^ 64 := by decide
  obtain ⟨hiff, -, honly⟩ := accepted_iff_encoded hraw hsize hdigest
  refine ⟨hiff.mpr rfl, fun digest' hlen haccepted => ?_⟩
  exact absurd (honly 1024 digest' (by decide) hlen haccepted).1 (by decide)

end SuperRaid.FooterCanonical
