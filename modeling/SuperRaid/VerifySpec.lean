import SuperRaid.StorageSpec

namespace SuperRaid.VerifySpec

open Image Footer Volatile Sys Machine Storage Calls StorageSpec

variable {env : Env} {L : Layout} {sha : Sha} {t : Bool} {P : World → Prop} {C : World → Prop} {tg : Target}
  {path : Path}

def Holds (L : Layout) (P : World → Prop) (node : Node) (X : Bytes) : Prop := ∀ w, P w → w.content L node = X

def ReadsDescriptor (t : Bool) (L : Layout) (P : World → Prop) (tg : Target) (res : Except Failure Bytes) : Prop :=
  ∀ X, X.length = tg.size → Holds L P tg.node X →
    (∀ digest, res = .ok digest → footerAreaSize < tg.size ∧
      validateDescriptor (descriptorOf X) (X.length - footerAreaSize) = some digest) ∧
    (t = true → footerAreaSize < tg.size → ∀ digest,
      validateDescriptor (descriptorOf X) (X.length - footerAreaSize) = some digest → res = .ok digest)

theorem meets_readDescriptor (hP : Stable env P) (hC : ∀ w, P w → C w) :
    Meets t 131 P (readDescriptor L tg : Run env (Except Failure Bytes))
      (fun res w => P w ∧ ReadsDescriptor t L P tg res) C := by
  have herror {n : Nat} {code : Failure} (h : t = false) :
      Meets t n P (pure (.error code) : Run env (Except Failure Bytes))
        (fun res w => P w ∧ ReadsDescriptor t L P tg res) C := by
    refine Meets.ret (fun w hw => ⟨hw, fun X _ _ => ⟨by simp, fun ht => ?_⟩⟩)
    rw [h] at ht
    exact absurd ht (by decide)
  refine Meets.branch (n := 130) hP hC ?_ herror
  split_ifs with hsize
  · exact Meets.ret (fun w hw => ⟨hw, fun X _ _ => ⟨by simp, fun _ h => absurd hsize (Nat.not_le.mpr h)⟩⟩)
  refine Meets.branch (n := 129) hP hC ?_ herror
  refine Meets.bind (n := 1) (K := fun _ => P) (meets_preadFull hP hC) (fun raw hraw => ?_)
  refine Meets.bind (n := 0) (K := fun _ => P) (Meets.succeeds hP hC) (fun restored hrestored => ?_)
  have hreads : ∀ X, X.length = tg.size → Holds L P tg.node X →
      Reads L P tg.node (tg.size - descriptorSize) descriptorSize (descriptorOf X) := fun X hlen hX w hw => by
    rw [hX w hw, descriptorOf, hlen]
  have hlength : ∀ X : Bytes, X.length = tg.size → (descriptorOf X).length = descriptorSize := fun X hlen => by
    have hfour : descriptorSize ≤ footerAreaSize := by decide
    exact slice_length (by omega)
  rcases raw with _ | raw
  · refine Meets.ret (fun w hw => ⟨hw, fun X hlen hX => ⟨by simp, fun ht _ => ?_⟩⟩)
    exact absurd ((hraw.2 _ (hreads X hlen hX)).2 ht (hlength X hlen)) (by simp)
  cases restored with
  | false => exact herror (by cases t <;> simp_all)
  | true =>
      have hsame : ∀ X, X.length = tg.size → Holds L P tg.node X → raw = descriptorOf X := fun X hlen hX =>
        (hraw.2 _ (hreads X hlen hX)).1 raw rfl
      dsimp only
      cases hvalid : validateDescriptor raw (tg.size - footerAreaSize) with
      | none =>
          refine Meets.ret (fun w hw => ⟨hw, fun X hlen hX => ⟨by simp, fun _ _ digest h => ?_⟩⟩)
          rw [← hsame X hlen hX, hlen, hvalid] at h
          exact absurd h (by simp)
      | some digest =>
          refine Meets.ret (fun w hw => ⟨hw, fun X hlen hX => ?_⟩)
          rw [← hsame X hlen hX, hlen, hvalid]
          exact ⟨fun _ h => ⟨by omega, congrArg some (Except.ok.inj h)⟩,
            fun _ _ _ h => congrArg _ (Option.some.inj h)⟩

/-- A result of a verify that is true of every image the device can hold. -/
def Verifies (env : Env) (t : Bool) (L : Layout) (sha : Sha) (P : World → Prop) (tg : Target)
    (res : Except Failure Bytes) : Prop :=
  Hashes env t → ∀ X, X.length = tg.size → Holds L P tg.node X →
    (∀ digest, res = .ok digest → verifyImage sha X = some digest) ∧
    (t = true → ∀ digest, verifyImage sha X = some digest → res = .ok digest)

theorem verifyImage_eq_some {X digest : Bytes} : verifyImage sha X = some digest ↔
    footerAreaSize < X.length ∧ validateDescriptor (descriptorOf X) (X.length - footerAreaSize) = some digest ∧
      sha.hash (protectedPart X) = digest := by
  unfold verifyImage
  split_ifs with hlen
  · simp [hlen]
  cases validateDescriptor (descriptorOf X) (X.length - footerAreaSize) with
  | none => simp
  | some stored =>
      have hlt : footerAreaSize < X.length := by omega
      by_cases heq : sha.hash (protectedPart X) = stored
      · simp [heq, hlt]
      · simp only [heq, if_false, hlt, true_and, Option.some.injEq, false_iff, reduceCtorEq]
        rintro ⟨rfl, h⟩
        exact heq h

theorem meets_hashSha256Fd {len : Nat} (hP : Stable env P) (hC : ∀ w, P w → C w) :
    Meets t 1 P (hashSha256Fd L sha tg len : Run env (Option Bytes))
      (fun res w => P w ∧ (Hashes env t → ∀ X, Holds L P tg.node X → ∀ digest, res = some digest →
        digest = sha.hash (X.take len)) ∧ (t = true → res ≠ none)) C := by
  refine Meets.call hP hC (fun r w hr hw => ⟨hw, fun hx X hX digest h => ?_, fun ht => ?_⟩)
  · dsimp only at h
    split_ifs at h
    rw [← Option.some.inj h, hX w hw, hr.exact hx, slice_zero_eq_take]
  · simp [(hr ht).1]

theorem meets_verifyTarget (hP : Stable env P) (hC : ∀ w, P w → C w) :
    Meets t 132 P (verifyTarget L sha tg : Run env (Except Failure Bytes))
      (fun res w => P w ∧ Verifies env t L sha P tg res) C := by
  refine Meets.bind (n := 1) (K := fun _ => P) (meets_readDescriptor hP hC) (fun stored hstored => ?_)
  cases stored with
  | error code =>
      refine Meets.ret (fun w hw => ⟨hw, fun _ X hlen hX => ⟨by simp, fun ht digest h => ?_⟩⟩)
      rw [verifyImage_eq_some, hlen] at h
      have := (hstored X hlen hX).2 ht h.1 digest (by rw [hlen]; exact h.2.1)
      simp at this
  | ok expected =>
      refine Meets.bind (n := 0) (K := fun _ => P) (meets_hashSha256Fd hP hC) (fun actual hactual => ?_)
      have hstored' : ∀ X, X.length = tg.size → Holds L P tg.node X → footerAreaSize < X.length ∧
          validateDescriptor (descriptorOf X) (X.length - footerAreaSize) = some expected := fun X hlen hX => by
        have := (hstored X hlen hX).1 expected rfl
        exact ⟨hlen ▸ this.1, this.2⟩
      rcases actual with _ | actual
      · exact Meets.ret (fun w hw => ⟨hw, fun _ X _ _ => ⟨by simp, fun ht => absurd rfl (hactual.2 ht)⟩⟩)
      have hhash : Hashes env t → ∀ X, X.length = tg.size → Holds L P tg.node X →
          actual = sha.hash (protectedPart X) := fun hx X hlen hX => by
        rw [hactual.1 hx X hX actual rfl, protectedPart, hlen]
      dsimp only
      split_ifs with heq
      · refine Meets.ret (fun w hw => ⟨hw, fun hx X hlen hX => ⟨fun digest h => ?_, fun _ digest h => ?_⟩⟩)
        · cases h
          exact verifyImage_eq_some.mpr ⟨(hstored' X hlen hX).1, by rw [heq]; exact (hstored' X hlen hX).2,
            (hhash hx X hlen hX).symm⟩
        · rw [hhash hx X hlen hX, (verifyImage_eq_some.mp h).2.2]
      · refine Meets.ret (fun w hw => ⟨hw, fun hx X hlen hX => ⟨by simp, fun _ digest h => absurd ?_ heq⟩⟩)
        have h' := verifyImage_eq_some.mp h
        rw [hhash hx X hlen hX, h'.2.2]
        exact Option.some.inj (h'.2.1.symm.trans (hstored' X hlen hX).2)

/-- The same of a partition, where the target has to be opened first and is of an admitted geometry if it was. -/
def VerifiesDev (env : Env) (t : Bool) (L : Layout) (sha : Sha) (P : World → Prop) (d : Dev)
    (res : Except Failure Bytes) : Prop :=
  Hashes env t → ∀ X, X.length = L.size d → (∀ w, P w → (w.disk d).cur = X) →
    (∀ digest, res = .ok digest → verifyImage sha X = some digest ∧ supported (L.target (.part d)) = true) ∧
    (t = true → supported (L.target (.part d)) = true → ∀ digest, verifyImage sha X = some digest →
      res = .ok digest)

theorem meets_verifyPath (hP : Stable env P) (hC : ∀ w, P w → C w) :
    Meets t 137 P (verifyPath L sha path : Run env (Except Failure Bytes))
      (fun res w => P w ∧ ∀ d, path = L.name d → VerifiesDev env t L sha P d res) C := by
  refine Meets.bind (n := 133) (K := fun _ => P) (meets_openTarget hP hC) (fun opened hopened => ?_)
  rcases opened with _ | tg
  · refine Meets.ret (fun w hw => ⟨hw, fun d hpath _ X _ _ => ⟨by simp, fun ht hsupported => ?_⟩⟩)
    have hopen : Openable L P path .read (.part d) := ⟨hpath ▸ L.node_name d, hsupported, by simp, by simp⟩
    exact absurd (hopened.2 ht _ hopen) (by simp)
  · refine Meets.bind (n := 1) (K := fun _ => P) (meets_verifyTarget hP hC) (fun res hres => ?_)
    refine Meets.close (n := 0) hP hC (Meets.ret (fun w hw => ⟨hw, fun d hpath hx X hlen hX => ?_⟩))
    obtain ⟨node, rfl, hnode, hsupported, -⟩ := hopened.1 tg rfl
    obtain rfl : node = .part d := Option.some.inj (hnode.symm.trans (hpath ▸ L.node_name d))
    have h := hres hx X hlen hX
    exact ⟨fun digest hdigest => ⟨h.1 digest hdigest, hsupported⟩, fun ht _ => h.2 ht⟩

theorem meets_verify {Q : Except Failure Bytes → World → Prop} (hP : Stable env P) (hC : ∀ w, P w → C w)
    (hQ : ∀ res w, P w → (∀ d, path = L.name d → VerifiesDev env t L sha P d res) →
      Q res (w.note (.verified path res))) :
    Meets t 137 P (powerctlVerifyPathDigest L sha path : Run env (Except Failure Bytes)) Q C := by
  refine Meets.bind (m := 137) (n := 0) (K := fun _ => P) (meets_verifyPath hP hC) (fun res hres => ?_)
  exact Meets.bind (m := 0) (n := 0) (K := fun _ => Q res) (F := fun _ => True)
    (Meets.note (fun w hw => ⟨hQ res w hw hres, trivial⟩)) (fun _ _ => Meets.ret (fun _ h => h))

end SuperRaid.VerifySpec
