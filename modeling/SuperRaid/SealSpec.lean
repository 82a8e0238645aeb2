import SuperRaid.Apps
import SuperRaid.CopySpec
import SuperRaid.VerifySpec

namespace SuperRaid.SealSpec

open Image Footer Volatile Sys Machine Storage Calls StorageSpec VerifySpec CopySpec Apps

variable {env : Env} {L : Layout} {sha : Sha} {t : Bool} {C : World → Prop} {d : Dev} {img : Bytes}
  {P : World → Prop}

def sealBytes (sha : Sha) (img : Bytes) : Bytes :=
  encodeDescriptor (img.length - footerAreaSize) (sha.hash (protectedPart img))

theorem sealBytes_length (sha : Sha) (img : Bytes) : (sealBytes sha img).length = descriptorSize := encode_length img

def Piece (off : Nat) (bs : Bytes) (v : Nat × Bytes) : Prop :=
  ∃ k, v.1 = off + k ∧ k + v.2.length ≤ bs.length ∧ v.2 = slice bs k v.2.length

/-- A seal of the image has not been completed: some of its descriptor may have been written. -/
def Rewriting (sha : Sha) (img : Bytes) (disk : Disk) : Prop :=
  disk.stable = img ∧ ∀ v ∈ disk.pending, Piece (img.length - descriptorSize) (sealBytes sha img) v

theorem rewriting_clean (sha : Sha) (img : Bytes) : Rewriting sha img ⟨img, []⟩ := ⟨rfl, by simp⟩

theorem Rewriting.sane {disk : Disk} (h : Rewriting sha img disk) (hlen : img.length = L.size d)
    (hsize : footerAreaSize < img.length) : Sane L d disk := by
  refine ⟨h.1 ▸ hlen, fun v hv => ?_⟩
  obtain ⟨k, hk, hfit, -⟩ := h.2 v hv
  rw [sealBytes_length] at hfit
  have hfour : descriptorSize ≤ footerAreaSize := by decide
  rw [Fits, h.1]
  omega

def Written (sha : Sha) (img : Bytes) (k : Nat) (disk : Disk) : Prop :=
  Rewriting sha img disk ∧ disk.cur = overwrite img (img.length - descriptorSize) ((sealBytes sha img).take k)

theorem written_clean (sha : Sha) (img : Bytes) : Written sha img 0 ⟨img, []⟩ := by
  refine ⟨rewriting_clean sha img, ?_⟩
  simp [Disk.cur, overwrite]

theorem Written.write {disk : Disk} {k i : Nat} (h : Written sha img k disk) (hi : k + i ≤ descriptorSize)
    (hsize : footerAreaSize < img.length) :
    Written sha img (k + i) (disk.write (img.length - descriptorSize + k) (slice (sealBytes sha img) k i)) := by
  have hfour : descriptorSize ≤ footerAreaSize := by decide
  have hlen := sealBytes_length sha img
  have htake : ((sealBytes sha img).take k).length = k := by rw [List.length_take]; omega
  have hslice : (slice (sealBytes sha img) k i).length = i := slice_length (by omega)
  refine ⟨⟨h.1.1, fun v hv => ?_⟩, ?_⟩
  · rcases List.mem_cons.mp hv with rfl | hv
    · exact ⟨k, rfl, by rw [hslice]; omega, by rw [hslice]⟩
    · exact h.1.2 v hv
  · rw [cur_write, h.2]
    have happend : overwrite (overwrite img (img.length - descriptorSize) ((sealBytes sha img).take k))
        (img.length - descriptorSize + ((sealBytes sha img).take k).length) (slice (sealBytes sha img) k i) =
        overwrite img (img.length - descriptorSize) ((sealBytes sha img).take k ++ slice (sealBytes sha img) k i) :=
      overwrite_append (by omega)
    rwa [htake, take_append_slice] at happend

theorem Written.sync {disk : Disk} (h : Written sha img descriptorSize disk) :
    disk.sync = ⟨sealImage sha img, []⟩ := by
  rw [Disk.sync, h.2, List.take_of_length_le (sealBytes_length sha img).le]
  rfl

section Programs

variable (hbeside : Beside env d P) (hlen : img.length = L.size d)
  (hC : ∀ w, P w → Rewriting sha img (w.disk d) → C w)

include hbeside hlen hC

theorem meets_writeDescriptor :
    Meets t 132 (fun w => P w ∧ w.disk d = ⟨img, []⟩)
      (writeDescriptor L (L.target (.part d)) (sha.hash (protectedPart img)) : Run env Bool)
      (fun b w => (P w ∧
          if b = true then w.disk d = ⟨sealImage sha img, []⟩ else Rewriting sha img (w.disk d)) ∧
        (t = true → footerAreaSize < L.size d → b = true)) C := by
  have hstable : ∀ D : Disk → Prop, Stable env (fun w => P w ∧ D (w.disk d)) := hbeside.stable_disk
  have hclean : ∀ w, P w ∧ w.disk d = ⟨img, []⟩ → C w := fun w hw =>
    hC w hw.1 (by rw [hw.2]; exact rewriting_clean sha img)
  have hfalse {n : Nat} (hf : t = false ∨ L.size d ≤ footerAreaSize) :
      Meets t n (fun w => P w ∧ Rewriting sha img (w.disk d)) (pure false : Run env Bool)
        (fun b w => (P w ∧
            if b = true then w.disk d = ⟨sealImage sha img, []⟩ else Rewriting sha img (w.disk d)) ∧
          (t = true → footerAreaSize < L.size d → b = true)) C := by
    refine Meets.ret (fun w hw => ⟨hw, fun ht hsize => ?_⟩)
    rcases hf with hf | hf
    · rw [hf] at ht
      exact absurd ht (by decide)
    · omega
  have hrewrite : ∀ w, P w ∧ w.disk d = ⟨img, []⟩ → P w ∧ Rewriting sha img (w.disk d) := fun w hw =>
    ⟨hw.1, by rw [hw.2]; exact rewriting_clean sha img⟩
  refine Meets.branch (n := 131) (hstable (· = ⟨img, []⟩)) hclean ?_ (fun ht => (hfalse (.inl ht)).pre hrewrite)
  split_ifs with hsmall
  · exact (hfalse (.inr hsmall)).pre hrewrite
  refine Meets.branch (n := 130) (hstable (· = ⟨img, []⟩)) hclean ?_ (fun ht => (hfalse (.inl ht)).pre hrewrite)
  have hsize : footerAreaSize < L.size d := Nat.not_le.mp hsmall
  have hfour : descriptorSize ≤ footerAreaSize := by decide
  have henc : encodeDescriptor ((L.target (.part d)).size - footerAreaSize) (sha.hash (protectedPart img)) =
      sealBytes sha img := by rw [sealBytes, hlen]; rfl
  have hput : Meets t (sealBytes sha img).length (fun w => P w ∧ Written sha img 0 (w.disk d))
      (pwriteFull L (.part d) (L.size d - descriptorSize) (sealBytes sha img) : Run env Bool)
      (fun b w => ((b = true → P w ∧ Written sha img (sealBytes sha img).length (w.disk d)) ∧
        ∃ k, P w ∧ Written sha img k (w.disk d)) ∧
        (t = true → L.size d - descriptorSize + (sealBytes sha img).length ≤ L.size d → b = true)) C := by
    refine meets_pwriteFull (I := fun k w => P w ∧ Written sha img k (w.disk d)) (fun k => hstable _)
      (fun k w hw => hC w hw.1 hw.2.1) (fun k i w hw hi hfit _ => ⟨hbeside.write w _ _ hw.1, ?_⟩)
    have hne : slice (sealBytes sha img) k i ≠ [] := List.length_pos_iff.mp (by rw [slice_length hfit]; exact hi)
    rw [sealBytes_length] at hfit
    rw [World.write_disk_self _ _ _ _ hne, ← hlen]
    exact hw.2.write hfit (by omega)
  rw [sealBytes_length] at hput
  rw [henc]
  have hstart : ∀ w, P w ∧ w.disk d = ⟨img, []⟩ → P w ∧ Written sha img 0 (w.disk d) := fun w hw =>
    ⟨hw.1, by rw [hw.2]; exact written_clean sha img⟩
  refine Meets.bind (m := 128) (n := 2) (hput.pre hstart) (fun written hwritten => ?_)
  refine Meets.pre (K := fun w => P w ∧ ((written = true → Written sha img descriptorSize (w.disk d)) ∧
    Rewriting sha img (w.disk d))) ?_ (fun w ⟨hfull, k, hk⟩ => ⟨hk.1, fun h => (hfull h).2, hk.2.1⟩)
  refine Meets.bind (m := 1) (n := 1) (K := fun _ w => P w ∧
    ((written = true → Written sha img descriptorSize (w.disk d)) ∧ Rewriting sha img (w.disk d)))
    (Meets.succeeds (hstable (fun disk => (written = true → Written sha img descriptorSize disk) ∧
      Rewriting sha img disk)) (fun w hw => hC w hw.1 hw.2.2)) (fun restored hrestored => ?_)
  split_ifs with hboth
  · rw [Bool.and_eq_true] at hboth
    refine (meets_fsync (P := fun w => P w ∧ Written sha img descriptorSize (w.disk d)) (hstable _)
      (fun w hw => hC w hw.1 hw.2.1) (fun w hw => ⟨⟨hbeside.sync w hw.1, ?_⟩, fun _ _ => rfl⟩)
      (fun ht w hw => ⟨⟨hw.1, hw.2.1⟩, by simp [ht]⟩)).pre (fun w hw => ⟨hw.1, hw.2.1 hboth.1⟩)
    rw [if_pos rfl, World.sync_disk_self, hw.2.sync]
  · refine (hfalse (.inl ?_)).pre (fun w hw => ⟨hw.1, hw.2.2⟩)
    cases t with
    | false => rfl
    | true => exact absurd (by rw [hwritten rfl (by omega), hrestored rfl]; rfl) hboth

theorem meets_sealTarget (hx : Hashes env t) :
    Meets t 133 (fun w => P w ∧ w.disk d = ⟨img, []⟩)
      (sealTarget L sha (L.target (.part d)) : Run env (Option Bytes))
      (fun res w => (P w ∧
          if res.isSome then w.disk d = ⟨sealImage sha img, []⟩ else Rewriting sha img (w.disk d)) ∧
        (∀ digest, res = some digest → digest = sha.hash (protectedPart img)) ∧
        (t = true → footerAreaSize < L.size d → res.isSome = true)) C := by
  have hstable : Stable env (fun w => P w ∧ w.disk d = ⟨img, []⟩) := hbeside.stable_disk (· = ⟨img, []⟩)
  have hclean : ∀ w, P w ∧ w.disk d = ⟨img, []⟩ → C w := fun w hw =>
    hC w hw.1 (by rw [hw.2]; exact rewriting_clean sha img)
  have hholds : Holds L (fun w => P w ∧ w.disk d = ⟨img, []⟩) (.part d) img := fun w hw => by
    rw [World.content, hw.2]
    rfl
  refine Meets.bind (n := 132) (K := fun _ w => P w ∧ w.disk d = ⟨img, []⟩)
    (meets_hashSha256Fd hstable hclean) (fun res hres => ?_)
  rcases res with _ | digest
  · refine Meets.ret (fun w hw => ⟨⟨hw.1, ?_⟩, by simp, fun ht _ => absurd rfl (hres.2 ht)⟩)
    rw [hw.2]
    exact rewriting_clean sha img
  obtain rfl : digest = sha.hash (protectedPart img) := by
    rw [hres.1 hx img hholds digest rfl, protectedPart, hlen]
    rfl
  refine Meets.bind (n := 0) (meets_writeDescriptor hbeside hlen hC) (fun b hb => ?_)
  cases b with
  | true => exact Meets.ret (fun w hw => ⟨hw, by simp, fun _ _ => rfl⟩)
  | false => exact Meets.ret (fun w hw => ⟨hw, by simp, fun ht hsize => absurd (hb ht hsize) (by decide)⟩)

/-- powerctl_seal_block_device either seals the image it finds, or leaves it but for a part of its descriptor. -/
theorem meets_seal {S : World → Prop} (hx : Hashes env t) (hS : Stable env S) (hSC : ∀ w, S w → C w)
    (hsealed : ∀ w, P w → w.disk d = ⟨sealImage sha img, []⟩ → supported (L.target (.part d)) = true →
      S (w.note (.sealed (L.name d) (sha.hash (protectedPart img))))) :
    Meets t 138 (fun w => P w ∧ w.disk d = ⟨img, []⟩)
      (powerctlSealBlockDevice L sha (L.name d) : Run env (Option Bytes))
      (fun res w => (if res.isSome then S w else P w ∧ Rewriting sha img (w.disk d)) ∧
        (∀ digest, res = some digest → digest = sha.hash (protectedPart img)) ∧
        (t = true → supported (L.target (.part d)) = true → res.isSome = true)) C := by
  have hstable : Stable env (fun w => P w ∧ w.disk d = ⟨img, []⟩) := hbeside.stable_disk (· = ⟨img, []⟩)
  have hclean : ∀ w, P w ∧ w.disk d = ⟨img, []⟩ → C w := fun w hw =>
    hC w hw.1 (by rw [hw.2]; exact rewriting_clean sha img)
  refine Meets.bind (n := 134) (K := fun _ w => P w ∧ w.disk d = ⟨img, []⟩)
    (meets_openTarget hstable hclean) (fun opened hopened => ?_)
  rcases opened with _ | tg
  · refine Meets.ret (fun w hw => ⟨⟨hw.1, ?_⟩, by simp, fun ht hsup => ?_⟩)
    · rw [hw.2]
      exact rewriting_clean sha img
    · have hopen : Openable L (fun w => P w ∧ w.disk d = ⟨img, []⟩) (L.name d) .write (.part d) :=
        ⟨L.node_name d, hsup, by simp, by simp⟩
      exact absurd (hopened.2 ht _ hopen) (by simp)
  obtain ⟨node, rfl, hnode, hsup, -⟩ := hopened.1 tg rfl
  obtain rfl : node = .part d := Option.some.inj (hnode.symm.trans (L.node_name d))
  have hsize : footerAreaSize < L.size d := by
    simp only [supported, decide_eq_true_eq] at hsup
    exact hsup.1
  refine Meets.bind (n := 1) (meets_sealTarget hbeside hlen hC hx) (fun res hres => ?_)
  rcases res with _ | digest
  · have hrewriting : Stable env (fun w => P w ∧ Rewriting sha img (w.disk d)) := hbeside.stable_disk _
    exact Meets.close (n := 0) hrewriting (fun w hw => hC w hw.1 hw.2)
      (Meets.ret (fun w hw => ⟨hw, by simp, fun ht _ => hres.2 ht hsize⟩))
  · obtain rfl := hres.1 digest rfl
    refine Meets.bind (m := 0) (n := 1) (K := fun _ => S) (F := fun _ => True)
      (Meets.note (fun w hw => ⟨hsealed w hw.1 hw.2 hsup, trivial⟩)) (fun _ _ => ?_)
    exact Meets.close (n := 0) hS hSC (Meets.ret (fun w hw => ⟨hw, by simp, fun _ _ => rfl⟩))

end Programs

end SuperRaid.SealSpec
