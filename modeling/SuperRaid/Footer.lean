import SuperRaid.Image

namespace SuperRaid.Footer

open Image

def footerAreaSize : Nat := 4096
def descriptorSize : Nat := 128
def digestSize : Nat := 32

def crcPolynomial : BitVec 32 := 0x82f63b78

def crcBit (crc : BitVec 32) : BitVec 32 := (crc >>> 1) ^^^ (if crc.getLsbD 0 then crcPolynomial else 0)

def crcByte (crc : BitVec 32) (b : Byte) : BitVec 32 := crcBit^[8] (crc ^^^ b.setWidth 32)

def crc32cUpdate (crc : BitVec 32) (data : Bytes) : BitVec 32 := data.foldl crcByte crc

def hashCrc32 (data : Bytes) : Bytes := leBytes 4 (~~~ crc32cUpdate (-1) data).toNat

def descriptorMagic : Bytes := [0x56, 0x46, 0x49, 0x4e, 0x54, 0x45, 0x47, 0x00]

def descriptorFields (protectedSize : Nat) (digest : Bytes) : List (Nat × Bytes) :=
  [(0, descriptorMagic), (8, leBytes 4 1), (12, leBytes 4 descriptorSize), (16, leBytes 4 1),
    (20, leBytes 4 digestSize), (24, leBytes 8 protectedSize), (32, digest)]

def descriptorBody (protectedSize : Nat) (digest : Bytes) : Bytes :=
  putFields 0 (descriptorFields protectedSize digest) (List.replicate descriptorSize 0)

/-- The bytes write_descriptor puts at the end of the device. -/
def encodeDescriptor (protectedSize : Nat) (digest : Bytes) : Bytes :=
  let raw := descriptorBody protectedSize digest
  overwrite raw 64 (leBytes 4 (leNat (hashCrc32 raw)))

/-- validate_descriptor: the stored digest, if every check passes. -/
def validateDescriptor (raw : Bytes) (protectedSize : Nat) : Option Bytes :=
  let copy := overwrite raw 64 (leBytes 4 0)
  if leNat (hashCrc32 copy) ≠ leNat (slice raw 64 4) then none
  else if slice raw 0 8 ≠ descriptorMagic then none
  else if leNat (slice raw 8 4) ≠ 1 then none
  else if leNat (slice raw 12 4) ≠ descriptorSize then none
  else if leNat (slice raw 16 4) ≠ 1 then none
  else if leNat (slice raw 20 4) ≠ digestSize then none
  else if leNat (slice raw 24 8) ≠ protectedSize then none
  else if (slice raw 68 60).any (· ≠ 0) then none
  else some (slice raw 32 digestSize)

section RoundTrip

variable {protectedSize : Nat} {digest : Bytes} (hdigest : digest.length = digestSize)

include hdigest

theorem descriptorFields_fit :
    ∀ f ∈ descriptorFields protectedSize digest,
      f.1 + f.2.length ≤ (List.replicate descriptorSize (0 : Byte)).length := by
  simp [descriptorFields, hdigest, descriptorSize, digestSize, descriptorMagic]

omit hdigest in
theorem descriptorFields_sorted :
    (descriptorFields protectedSize digest).Pairwise (fun f g => f.1 + f.2.length ≤ g.1) := by
  simp [descriptorFields, descriptorMagic]

theorem descriptorBody_length : (descriptorBody protectedSize digest).length = descriptorSize := by
  rw [descriptorBody, putFields_length (descriptorFields_fit hdigest), List.length_replicate]

theorem encodeDescriptor_length : (encodeDescriptor protectedSize digest).length = descriptorSize := by
  have hlen : (descriptorBody protectedSize digest).length = descriptorSize := descriptorBody_length hdigest
  rw [encodeDescriptor, overwrite_length (by rw [hlen, leBytes_length]; decide), hlen]

theorem slice_encodeDescriptor {off : Nat} {bs : Bytes}
    (hmem : (off, bs) ∈ descriptorFields protectedSize digest) :
    slice (encodeDescriptor protectedSize digest) off bs.length = bs := by
  have hlen : (descriptorBody protectedSize digest).length = descriptorSize := descriptorBody_length hdigest
  have hbelow : off + bs.length ≤ 64 := by
    simp only [descriptorFields, List.mem_cons, Prod.mk.injEq, List.not_mem_nil, or_false] at hmem
    rcases hmem with h | h | h | h | h | h | h <;> obtain ⟨rfl, rfl⟩ := h <;>
      simp [descriptorMagic, hdigest, digestSize]
  rw [encodeDescriptor, slice_overwrite_of_le (by rw [hlen]; decide) hbelow]
  exact slice_putFields (descriptorFields_fit hdigest) descriptorFields_sorted hmem

theorem slice_descriptorBody_of_ge {a n : Nat} (ha : 64 ≤ a) :
    slice (descriptorBody protectedSize digest) a n = slice (List.replicate descriptorSize 0) a n := by
  refine slice_putFields_of_disjoint (descriptorFields_fit hdigest) ?_
  simp [descriptorFields, descriptorMagic, hdigest, digestSize]
  omega

theorem clear_crc :
    overwrite (encodeDescriptor protectedSize digest) 64 (leBytes 4 0) = descriptorBody protectedSize digest := by
  have hlen : (descriptorBody protectedSize digest).length = descriptorSize := descriptorBody_length hdigest
  have hzero : slice (descriptorBody protectedSize digest) 64 4 = leBytes 4 0 := by
    rw [slice_descriptorBody_of_ge hdigest (le_refl 64)]
    decide
  rw [encodeDescriptor, overwrite_overwrite (by rw [hlen, leBytes_length]; decide) (by simp), ← hzero]
  exact overwrite_slice (by rw [hlen]; decide)

theorem slice_crc :
    slice (encodeDescriptor protectedSize digest) 64 4 =
      leBytes 4 (leNat (hashCrc32 (descriptorBody protectedSize digest))) := by
  have hlen : (descriptorBody protectedSize digest).length = descriptorSize := descriptorBody_length hdigest
  have hfits : 64 + (leBytes 4 (leNat (hashCrc32 (descriptorBody protectedSize digest)))).length ≤
      (descriptorBody protectedSize digest).length := by rw [hlen, leBytes_length]; decide
  have h := slice_overwrite_self hfits
  rwa [leBytes_length] at h

theorem slice_reserved :
    slice (encodeDescriptor protectedSize digest) 68 60 = List.replicate 60 0 := by
  have hlen : (descriptorBody protectedSize digest).length = descriptorSize := descriptorBody_length hdigest
  rw [encodeDescriptor, slice_overwrite_of_ge (by rw [hlen]; decide) (by rw [leBytes_length]),
    slice_descriptorBody_of_ge hdigest (by decide)]
  decide

theorem validate_encode (hsize : protectedSize < 2 ^ 64) :
    validateDescriptor (encodeDescriptor protectedSize digest) protectedSize = some digest := by
  have hmagic : slice (encodeDescriptor protectedSize digest) 0 8 = descriptorMagic := by
    have h : slice (encodeDescriptor protectedSize digest) 0 descriptorMagic.length = descriptorMagic :=
      slice_encodeDescriptor hdigest (by simp [descriptorFields])
    exact h
  have hword {off v : Nat} (hmem : (off, leBytes 4 v) ∈ descriptorFields protectedSize digest) (hv : v < 256) :
      leNat (slice (encodeDescriptor protectedSize digest) off 4) = v := by
    have h := slice_encodeDescriptor hdigest hmem
    rw [leBytes_length] at h
    rw [h, leNat_leBytes, Nat.mod_eq_of_lt (by omega)]
  have hsized : leNat (slice (encodeDescriptor protectedSize digest) 24 8) = protectedSize := by
    have h : slice (encodeDescriptor protectedSize digest) 24 (leBytes 8 protectedSize).length =
        leBytes 8 protectedSize := slice_encodeDescriptor hdigest (by simp [descriptorFields])
    rw [leBytes_length] at h
    rw [h, leNat_leBytes, Nat.mod_eq_of_lt (by omega)]
  have hstored : slice (encodeDescriptor protectedSize digest) 32 digestSize = digest := by
    have h : slice (encodeDescriptor protectedSize digest) 32 digest.length = digest :=
      slice_encodeDescriptor hdigest (by simp [descriptorFields])
    rwa [hdigest] at h
  have hcrc : leNat (hashCrc32 (descriptorBody protectedSize digest)) =
      leNat (slice (encodeDescriptor protectedSize digest) 64 4) := by
    rw [slice_crc hdigest, hashCrc32, leNat_leBytes, leNat_leBytes, Nat.mod_mod]
  have hversion : leNat (slice (encodeDescriptor protectedSize digest) 8 4) = 1 :=
    hword (by simp [descriptorFields]) (by decide)
  have hlength : leNat (slice (encodeDescriptor protectedSize digest) 12 4) = descriptorSize :=
    hword (by simp [descriptorFields]) (by decide)
  have halgorithm : leNat (slice (encodeDescriptor protectedSize digest) 16 4) = 1 :=
    hword (by simp [descriptorFields]) (by decide)
  have hdigestLen : leNat (slice (encodeDescriptor protectedSize digest) 20 4) = digestSize :=
    hword (by simp [descriptorFields]) (by decide)
  unfold validateDescriptor
  simp only [clear_crc hdigest, hcrc, hmagic, hversion, hlength, halgorithm, hdigestLen, hsized,
    slice_reserved hdigest, hstored]
  simp

end RoundTrip

/-- The hash function: SHA-256 is any function with digests of 32 bytes. -/
structure Sha where
  hash : Bytes → Bytes
  size : ∀ m, (hash m).length = digestSize

section Image

variable (sha : Sha) {img img' : Bytes}

def protectedPart (img : Bytes) : Bytes := img.take (img.length - footerAreaSize)

def descriptorOf (img : Bytes) : Bytes := slice img (img.length - descriptorSize) descriptorSize

def verifyImage (img : Bytes) : Option Bytes :=
  if img.length ≤ footerAreaSize then none
  else match validateDescriptor (descriptorOf img) (img.length - footerAreaSize) with
    | some digest => if sha.hash (protectedPart img) = digest then some digest else none
    | none => none

def sealImage (img : Bytes) : Bytes :=
  overwrite img (img.length - descriptorSize)
    (encodeDescriptor (img.length - footerAreaSize) (sha.hash (protectedPart img)))

/-- The end of the image holds the encoding of the digest of its own protected part. -/
def Sealed (img : Bytes) : Prop :=
  descriptorOf img = encodeDescriptor (img.length - footerAreaSize) (sha.hash (protectedPart img))

theorem verifyImage_digest {digest : Bytes} (h : verifyImage sha img = some digest) :
    digest = sha.hash (protectedPart img) := by
  unfold verifyImage at h
  split_ifs at h
  split at h
  · split_ifs at h with heq
    rw [← Option.some.inj h, heq]
  · simp at h

variable {sha}

theorem Sealed.verifies (hs : Sealed sha img) (hsize : footerAreaSize < img.length) (hmax : img.length < 2 ^ 63) :
    verifyImage sha img = some (sha.hash (protectedPart img)) := by
  have hvalid : validateDescriptor (descriptorOf img) (img.length - footerAreaSize) =
      some (sha.hash (protectedPart img)) := by
    rw [hs]
    exact validate_encode (sha.size _) (by omega)
  simp [verifyImage, hvalid, Nat.not_le.mpr hsize]

theorem encode_length (img : Bytes) :
    (encodeDescriptor (img.length - footerAreaSize) (sha.hash (protectedPart img))).length = descriptorSize :=
  encodeDescriptor_length (sha.size _)

theorem sealImage_length (hsize : footerAreaSize < img.length) : (sealImage sha img).length = img.length := by
  refine overwrite_length ?_
  rw [encode_length]
  have : descriptorSize ≤ footerAreaSize := by decide
  omega

theorem protectedPart_overwrite {bs : Bytes} {off : Nat} (hoff : img.length - footerAreaSize ≤ off)
    (hfit : off + bs.length ≤ img.length) : protectedPart (overwrite img off bs) = protectedPart img := by
  unfold protectedPart
  rw [overwrite_length hfit, ← slice_zero_eq_take, ← slice_zero_eq_take]
  exact slice_overwrite_of_le (by omega) (by omega)

theorem sealed_sealImage (hsize : footerAreaSize < img.length) : Sealed sha (sealImage sha img) := by
  have hfour : descriptorSize ≤ footerAreaSize := by decide
  have hfit : img.length - descriptorSize + (encodeDescriptor (img.length - footerAreaSize)
      (sha.hash (protectedPart img))).length ≤ img.length := by rw [encode_length]; omega
  have hprotected : protectedPart (sealImage sha img) = protectedPart img :=
    protectedPart_overwrite (by omega) hfit
  unfold Sealed descriptorOf
  rw [hprotected, sealImage_length hsize]
  have h := slice_overwrite_self hfit
  rwa [encode_length] at h

end Image

end SuperRaid.Footer
