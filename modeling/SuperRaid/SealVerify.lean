import SuperRaid.Board
import SuperRaid.BootSpec
import SuperRaid.FooterCanonical
import SuperRaid.SealSpec

namespace SuperRaid.SealVerify

open Image Footer Volatile Sys Machine Storage Calls StorageSpec VerifySpec Apps SealSpec BootSpec FooterCanonical
  Board Sha256

variable {L : Layout} {sha : Sha} {d : Dev} {img : Bytes}

section Images

variable (hsize : footerAreaSize < img.length)

include hsize

/-- Sealing an image changes nothing exactly when it is sealed already. -/
theorem sealed_iff_sealImage : Sealed sha img ↔ sealImage sha img = img := by
  have hfour : descriptorSize ≤ footerAreaSize := by decide
  constructor
  · intro h
    rw [sealImage, ← h]
    exact overwrite_slice (by omega)
  · intro h
    have hs : Sealed sha (sealImage sha img) := sealed_sealImage hsize
    rwa [h] at hs

theorem sealImage_sealImage : sealImage sha (sealImage sha img) = sealImage sha img :=
  (sealed_iff_sealImage (by rwa [sealImage_length hsize])).mp (sealed_sealImage hsize)

theorem protectedPart_sealImage : protectedPart (sealImage sha img) = protectedPart img := by
  have hfour : descriptorSize ≤ footerAreaSize := by decide
  exact protectedPart_overwrite (by omega) (by rw [encode_length]; omega)

theorem sealed_of_verifies (hmax : img.length < 2 ^ 63) {digest : Bytes} (h : verifyImage sha img = some digest) :
    Sealed sha img := by
  have hfour : descriptorSize ≤ footerAreaSize := by decide
  obtain ⟨-, hvalid, hhash⟩ := verifyImage_eq_some.mp h
  have hraw : (descriptorOf img).length = descriptorSize := slice_length (by omega)
  rw [← hhash] at hvalid
  exact (validate_eq_some hraw (by omega) (sha.size _)).mp hvalid

theorem verifies_iff_sealImage (hmax : img.length < 2 ^ 63) :
    (verifyImage sha img).isSome ↔ sealImage sha img = img := by
  rw [← sealed_iff_sealImage hsize]
  constructor
  · intro h
    obtain ⟨digest, hdigest⟩ := Option.isSome_iff_exists.mp h
    exact sealed_of_verifies hsize hmax hdigest
  · intro h
    rw [h.verifies hsize hmax]
    rfl

end Images

section Programs

variable {w : World} {rs : List (Answer quiet.Choice)} (hlen : img.length = L.size d) (hdisk : w.disk d = ⟨img, []⟩)
  (hsupported : supported (L.target (.part d)) = true) (hrs : ∀ r ∈ rs, r.ok = true ∧ 0 < r.count)

include hlen hdisk hsupported hrs

theorem seal_run (hmany : 138 ≤ rs.length) :
    ∃ rs' w', powerctlSealBlockDevice L sha (L.name d) rs w = .done (some (sha.hash (protectedPart img))) rs' w' ∧
      w'.disk = Function.update w.disk d ⟨sealImage sha img, []⟩ := by
  have hbeside : Beside quiet d (fun v => v.disk d.other = w.disk d.other) :=
    { stable := fun v r hv => hv
      idle := fun v r hv => rfl
      write := fun v off bs hv => by rwa [World.write_disk_of_ne _ _ _ _ _ (Dev.other_ne d)]
      sync := fun v hv => by rwa [World.sync_disk_of_ne _ _ _ (Dev.other_ne d)] }
  have hmeets :
      Meets true 138 _ (powerctlSealBlockDevice L sha (L.name d) : Run quiet (Option Bytes)) _ (fun _ => True) :=
    meets_seal hbeside hlen (fun _ _ _ => trivial) (S := fun v => v.disk =
      Function.update w.disk d ⟨sealImage sha img, []⟩) nofun (fun v r hv => hv) (fun _ _ => trivial)
      (fun v hv hsealed _ => by
        funext e
        rcases d.eq_or_other e with rfl | rfl
        · rw [Function.update_self]
          exact hsealed
        · rw [Function.update_of_ne (Dev.other_ne d)]
          exact hv)
  obtain ⟨res, rs', w', hdone, hend, hdigest, hsome⟩ := hmeets.total ⟨rfl, hdisk⟩ (exact_quiet hrs) hmany
  obtain ⟨digest, rfl⟩ := Option.isSome_iff_exists.mp (hsome rfl hsupported)
  rw [hdigest digest rfl] at hdone
  exact ⟨rs', w', hdone, hend⟩

theorem verify_run (hmany : 137 ≤ rs.length) :
    ∃ res rs' w', powerctlVerifyPathDigest L sha (L.name d) rs w = .done res rs' w' ∧ w'.disk = w.disk ∧
      ∀ digest, res = .ok digest ↔ verifyImage sha img = some digest := by
  have hmeets : Meets true 137 (fun v => v.disk = w.disk)
      (powerctlVerifyPathDigest L sha (L.name d) : Run quiet (Except Failure Bytes))
      (fun res v => v.disk = w.disk ∧ VerifiesDev quiet true L sha (fun v => v.disk = w.disk) d res)
      (fun _ => True) :=
    meets_verify (fun v r hv => hv) (fun _ _ => trivial) (fun res v hv hres => ⟨hv, hres d rfl⟩)
  obtain ⟨res, rs', w', hdone, hsame, hres⟩ := hmeets.total rfl (exact_quiet hrs) hmany
  have hboth := hres nofun img hlen (fun v hv => by rw [hv, hdisk]; rfl)
  exact ⟨res, rs', w', hdone, hsame,
    fun digest => ⟨fun h => (hboth.1 digest h).1, hboth.2 rfl hsupported digest⟩⟩

end Programs

/-- As many answers as a program may ask for, all of them successes. -/
def Succeed (n : Nat) (rs : List (Answer quiet.Choice)) : Prop :=
  (∀ r ∈ rs, r.ok = true ∧ 0 < r.count) ∧ n ≤ rs.length

def SealGives (L : Layout) (sha : Sha) (d : Dev) (img digest img' : Bytes) : Prop :=
  ∀ (w : World) (rs : List (Answer quiet.Choice)), w.disk d = ⟨img, []⟩ → Succeed 138 rs →
    ∃ rs' w', powerctlSealBlockDevice L sha (L.name d) rs w = .done (some digest) rs' w' ∧
      w'.disk = Function.update w.disk d ⟨img', []⟩

def VerifyGives (L : Layout) (sha : Sha) (d : Dev) (img : Bytes) (answer : Option Bytes) : Prop :=
  ∀ (w : World) (rs : List (Answer quiet.Choice)), w.disk d = ⟨img, []⟩ → Succeed 137 rs →
    ∃ res rs' w', powerctlVerifyPathDigest L sha (L.name d) rs w = .done res rs' w' ∧ w'.disk = w.disk ∧
      ∀ digest, res = .ok digest ↔ answer = some digest

theorem verifyGives_of_eq {answer : Option Bytes} (hsupported : supported (L.target (.part d)) = true)
    (hlen : img.length = L.size d) (h : verifyImage sha img = answer) : VerifyGives L sha d img answer := by
  intro w rs hdisk hrs
  obtain ⟨res, rs', w', hdone, hsame, hres⟩ := verify_run hlen hdisk hsupported hrs.1 hrs.2
  exact ⟨res, rs', w', hdone, hsame, fun digest => by rw [hres, h]⟩

theorem descriptorOf_eq_iff {img' digest digest' : Bytes} (hmax : img.length < 2 ^ 63) (hlen : img'.length = img.length)
    (h : verifyImage sha img = some digest) (h' : verifyImage sha img' = some digest') :
    descriptorOf img = descriptorOf img' ↔ sha.hash (protectedPart img) = sha.hash (protectedPart img') := by
  have hsealed : Sealed sha img := sealed_of_verifies (verifyImage_eq_some.mp h).1 hmax h
  have hsealed' : Sealed sha img' := sealed_of_verifies (verifyImage_eq_some.mp h').1 (by omega) h'
  rw [Sealed] at hsealed hsealed'
  rw [hsealed, hsealed', hlen]
  constructor
  · intro heq
    exact (encode_injective (by omega) (by omega) (sha.size _) (sha.size _) heq).2
  · intro heq
    rw [heq]

/-- Sealing writes the descriptor only and what it leaves verifies. What verifies is what sealing would not change, so
an image that agrees with a sealed one in its descriptor or its digest but not in both is rejected. -/
theorem verify_accepts_what_seal_keeps (hsupported : supported (L.target (.part d)) = true)
    (hlen : img.length = L.size d) :
    ∃ img', SealGives L sha d img (sha.hash (protectedPart img)) img' ∧ img'.length = img.length ∧
      img'.take (img.length - descriptorSize) = img.take (img.length - descriptorSize) ∧
      VerifyGives L sha d img' (some (sha.hash (protectedPart img))) ∧
      VerifyGives L sha d img (if img' = img then some (sha.hash (protectedPart img)) else none) ∧
      SealGives L sha d img' (sha.hash (protectedPart img)) img' ∧
      ∀ X : Bytes, X.length = img.length →
        ¬(descriptorOf X = descriptorOf img' ↔ sha.hash (protectedPart X) = sha.hash (protectedPart img')) →
        VerifyGives L sha d X none := by
  obtain ⟨hsize, hmax⟩ : footerAreaSize < img.length ∧ img.length < 2 ^ 63 := by
    simp only [supported, decide_eq_true_eq] at hsupported
    rw [hlen]
    exact ⟨hsupported.1, hsupported.2.1⟩
  have hlen' : (sealImage sha img).length = img.length := sealImage_length hsize
  have hsealed : Sealed sha (sealImage sha img) := sealed_sealImage hsize
  have hverifies : verifyImage sha (sealImage sha img) = some (sha.hash (protectedPart img)) := by
    rw [hsealed.verifies (by omega) (by omega), protectedPart_sealImage hsize]
  refine ⟨sealImage sha img, fun w rs hdisk hrs => seal_run hlen hdisk hsupported hrs.1 hrs.2, hlen', ?_,
    verifyGives_of_eq hsupported (hlen'.trans hlen) hverifies, verifyGives_of_eq hsupported hlen ?_, ?_, ?_⟩
  · rw [← slice_zero_eq_take, ← slice_zero_eq_take]
    exact slice_overwrite_of_le (by omega) (by omega)
  · split_ifs with hsame
    · rw [← hverifies, hsame]
    · exact Option.not_isSome_iff_eq_none.mp (fun h => hsame ((verifies_iff_sealImage hsize hmax).mp h))
  · intro w rs hdisk hrs
    obtain ⟨rs', w', hdone, hend⟩ := seal_run (hlen'.trans hlen) hdisk hsupported hrs.1 hrs.2
    rw [protectedPart_sealImage hsize] at hdone
    rw [sealImage_sealImage hsize] at hend
    exact ⟨rs', w', hdone, hend⟩
  · intro X hX hdiffer
    refine verifyGives_of_eq hsupported (hX.trans hlen)
      (Option.eq_none_iff_forall_ne_some.mpr (fun digest h => hdiffer ?_))
    exact descriptorOf_eq_iff (by omega) (by omega) h hverifies

theorem verify_accepts_what_seal_keeps_board :
    ∃ img', SealGives board sha256 .a (blank 0) (sha256.hash (protectedPart (blank 0))) img' ∧
      VerifyGives board sha256 .a img' (some (sha256.hash (protectedPart (blank 0)))) := by
  have hsupported : supported (board.target (.part .a)) = true := by decide
  obtain ⟨img', hseal, -, -, hverify, -⟩ := verify_accepts_what_seal_keeps hsupported (blank_length 0)
  exact ⟨img', hseal, hverify⟩

/-- Two images sealed with different content both verify, although they differ in descriptor and digest. -/
theorem other_seal_verifies :
    SealGives board sha256 .a (blank 0) (sha256.hash (protectedPart (blank 0))) (sealImage sha256 (blank 0)) ∧
    descriptorOf (sealImage sha256 (blank 1)) ≠ descriptorOf (sealImage sha256 (blank 0)) ∧
    sha256.hash (protectedPart (sealImage sha256 (blank 1))) ≠
        sha256.hash (protectedPart (sealImage sha256 (blank 0))) ∧
    VerifyGives board sha256 .a (sealImage sha256 (blank 1)) (some (sha256.hash (protectedPart (blank 1)))) := by
  have hsupported : supported (board.target (.part .a)) = true := by decide
  have hsize (b : Byte) : footerAreaSize < (blank b).length := by rw [blank_length]; decide
  have hlen (b : Byte) : (sealImage sha256 (blank b)).length = 4608 := (sealed_blank b).1
  have hverifies (b : Byte) :
      verifyImage sha256 (sealImage sha256 (blank b)) = some (sha256.hash (protectedPart (blank b))) := by
    have hsealed : Sealed sha256 (sealImage sha256 (blank b)) := sealed_sealImage (hsize b)
    rw [hsealed.verifies (by rw [hlen]; decide) (by rw [hlen]; decide), protectedPart_sealImage (hsize b)]
  have hprotected (b : Byte) : protectedPart (blank b) = List.replicate 512 b := by
    rw [protectedPart, blank_length, blank]
    exact List.take_left' List.length_replicate
  have hdigests : digest (List.replicate 512 1) ≠ digest (List.replicate 512 0) := by decide +kernel
  have hhash : sha256.hash (protectedPart (sealImage sha256 (blank 1))) ≠
      sha256.hash (protectedPart (sealImage sha256 (blank 0))) := by
    rw [protectedPart_sealImage (hsize 1), protectedPart_sealImage (hsize 0), hprotected, hprotected]
    exact hdigests
  refine ⟨fun w rs hdisk hrs => seal_run (blank_length 0) hdisk hsupported hrs.1 hrs.2, fun h => hhash ?_, hhash,
    verifyGives_of_eq hsupported (hlen 1) (hverifies 1)⟩
  exact (descriptorOf_eq_iff (by rw [hlen]; decide) (by rw [hlen, hlen]) (hverifies 1) (hverifies 0)).mp h

end SuperRaid.SealVerify
