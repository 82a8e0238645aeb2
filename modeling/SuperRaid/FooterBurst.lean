import SuperRaid.Crc32c
import SuperRaid.FooterCanonical

namespace SuperRaid.FooterBurst

open Image Footer FooterCanonical Crc32c

variable {raw raw' digest : Bytes} {protectedSize off : ℕ}

/-- The blocks differ at most in the four bytes from off on. -/
structure Confined (off : ℕ) (raw raw' : Bytes) : Prop where
  length : raw'.length = raw.length
  same : ∀ i, i < off ∨ off + 4 ≤ i → raw'[i]? = raw[i]?

def Touches (off lo hi : ℕ) : Prop := ∃ i, off ≤ i ∧ i < off + 4 ∧ lo ≤ i ∧ i < hi

theorem Confined.slice_eq (h : Confined off raw raw') {lo n : ℕ} (hout : ¬ Touches off lo (lo + n)) :
    slice raw' lo n = slice raw lo n := by
  apply slice_congr
  intro i hlo hhi
  apply h.same
  by_contra hin
  exact hout ⟨i, by omega, by omega, hlo, hhi⟩

theorem Confined.overwrite (h : Confined off raw raw') {pos : ℕ} {bs : Bytes}
    (hfit : pos + bs.length ≤ raw.length) :
    Confined off (overwrite raw pos bs) (overwrite raw' pos bs) where
  length := by rw [overwrite_length hfit, overwrite_length (by rw [h.length]; exact hfit), h.length]
  same := by
    intro i hi
    have hlen := h.length
    rw [overwrite_getElem? (by omega), overwrite_getElem? (by omega), h.same i hi]

theorem Confined.split (h : Confined off raw raw') :
    raw = raw.take off ++ slice raw off 4 ++ raw.drop (off + 4) ∧
      raw' = raw.take off ++ slice raw' off 4 ++ raw.drop (off + 4) := by
  have htake : raw'.take off = raw.take off := by
    apply List.ext_getElem?
    intro i
    by_cases hi : i < off
    · simp [hi, h.same i (Or.inl hi)]
    · simp [hi]
  have hdrop : raw'.drop (off + 4) = raw.drop (off + 4) := by
    apply List.ext_getElem?
    intro i
    simp [List.getElem?_drop, h.same (off + 4 + i) (Or.inr (by omega))]
  constructor
  · rw [take_append_slice, List.take_append_drop]
  · rw [← htake, ← hdrop, take_append_slice, List.take_append_drop]

theorem Confined.eq_of_crc (h : Confined off raw raw') {crc : BitVec 32}
    (hcrc : crc32cUpdate crc raw' = crc32cUpdate crc raw) : raw' = raw := by
  obtain ⟨hraw, hraw'⟩ := h.split
  have hlen : (slice raw' off 4).length = (slice raw off 4).length := by
    simp only [slice, List.length_take, List.length_drop, h.length]
  have hle : (slice raw' off 4).length ≤ 4 := by
    simp only [slice, List.length_take]
    omega
  rw [hraw, hraw'] at hcrc
  rw [hraw', eq_of_crc32cUpdate_burst hlen hle hcrc, ← hraw]

theorem hashCrc32_injective {a b : Bytes} (h : leNat (hashCrc32 a) = leNat (hashCrc32 b)) :
    crc32cUpdate (-1) a = crc32cUpdate (-1) b := by
  have hlt (c : BitVec 32) : c.toNat % 256 ^ 4 = c.toNat := Nat.mod_eq_of_lt c.isLt
  rw [hashCrc32, hashCrc32, leNat_leBytes, leNat_leBytes, hlt, hlt] at h
  exact BitVec.not_inj.mp (BitVec.eq_of_toNat_eq h)

/-- A change of an accepted descriptor inside four consecutive bytes is found, unless it reaches from the digest to the
CRC. -/
theorem burst_rejected (hraw : raw.length = descriptorSize)
    (haccepted : validateDescriptor raw protectedSize = some digest) (hchange : raw' ≠ raw)
    (hconfined : Confined off raw raw') (hapart : ¬ (Touches off 32 64 ∧ Touches off 64 68)) :
    validateDescriptor raw' protectedSize = none := by
  by_contra hnone
  obtain ⟨digest', haccepted'⟩ := Option.ne_none_iff_exists'.mp hnone
  have h := checked_of_validate haccepted
  have h' := checked_of_validate haccepted'
  have hraw' : raw'.length = descriptorSize := hconfined.length.trans hraw
  rcases not_and_or.mp hapart with hdigest | hcrc
  · -- Everything but the digest is fixed, and so is the CRC with it.
    have hsame : digest' = digest := by
      rw [← h.digest, ← h'.digest]
      exact hconfined.slice_eq hdigest
    rw [h.eq_encode hraw, h'.eq_encode hraw', hsame] at hchange
    exact hchange rfl
  · -- The stored CRC is the old one, and that of a block with another digest is not.
    have hstored : slice raw' 64 4 = slice raw 64 4 := hconfined.slice_eq hcrc
    have hcleared : overwrite raw' 64 (leBytes 4 0) = overwrite raw 64 (leBytes 4 0) := by
      apply (hconfined.overwrite (by rw [hraw, leBytes_length]; decide)).eq_of_crc
      apply hashCrc32_injective
      rw [h.crc, h'.crc, hstored]
    apply hchange
    rw [← restore_crc hraw, ← restore_crc hraw', hcleared, hstored]

theorem burst_rejected_digest :
    validateDescriptor (encodeDescriptor 512 (List.replicate 32 0)) 512 = some (List.replicate 32 0) ∧
    validateDescriptor (overwrite (encodeDescriptor 512 (List.replicate 32 0)) 32 [1]) 512 = none := by
  have hdigest : (List.replicate 32 (0 : Byte)).length = digestSize := List.length_replicate
  have haccepted : validateDescriptor (encodeDescriptor 512 (List.replicate 32 0)) 512 = some (List.replicate 32 0) :=
    validate_encode hdigest (by decide)
  have hlen : (encodeDescriptor 512 (List.replicate 32 0)).length = descriptorSize := encodeDescriptor_length hdigest
  have hold : (encodeDescriptor 512 (List.replicate 32 0))[32]? = some 0 := by
    have h : slice (encodeDescriptor 512 (List.replicate 32 0)) 32 (List.replicate 32 (0 : Byte)).length =
        List.replicate 32 0 := slice_encodeDescriptor hdigest (by simp [descriptorFields])
    have hat := slice_getElem? (encodeDescriptor 512 (List.replicate 32 0)) 32 (List.replicate 32 (0 : Byte)).length 0
    rw [h] at hat
    exact hat.symm
  have hbyte (i : ℕ) : (overwrite (encodeDescriptor 512 (List.replicate 32 0)) 32 [1])[i]? =
      if 32 ≤ i ∧ i < 33 then [1][i - 32]? else (encodeDescriptor 512 (List.replicate 32 0))[i]? :=
    overwrite_getElem? (by rw [hlen]; decide) i
  have hconfined : Confined 32 (encodeDescriptor 512 (List.replicate 32 0))
      (overwrite (encodeDescriptor 512 (List.replicate 32 0)) 32 [1]) := by
    refine ⟨overwrite_length (by rw [hlen]; decide), fun i hi => ?_⟩
    rw [hbyte, if_neg (by omega)]
  refine ⟨haccepted, burst_rejected hlen haccepted ?_ hconfined ?_⟩
  · intro he
    have hnew := hbyte 32
    rw [he, hold] at hnew
    exact absurd hnew (by decide)
  · rintro ⟨-, i, -, hi, hlo, -⟩
    omega

end SuperRaid.FooterBurst
