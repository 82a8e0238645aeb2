import SuperRaid.MirrorSpec

namespace SuperRaid.PartitionSpec

open Image Volatile Machine Storage Calls StorageSpec CopySpec Apps MirrorSpec

/-- Two partitions of one size on one disk, of geometries that the tools admit. -/
structure Geometry (L : Layout) : Prop where
  sizes : ∀ d e, L.size d = L.size e
  supported : ∀ d, supported (L.target (.part d)) = true
  parent : Storage.supported (L.target .parent) = true
  start : ∀ d, L.startSector d ≤ (2 ^ 64 - 1) / 512
  fits : ∀ d, 512 * L.startSector d + L.size d ≤ L.parentRest.length
  disjoint : 512 * L.startSector .a + L.size .a ≤ 512 * L.startSector .b ∨
    512 * L.startSector .b + L.size .b ≤ 512 * L.startSector .a
  aligned : ∀ d, 512 * L.startSector d % L.parentLogical = 0 ∧ L.size d % L.parentLogical = 0

variable {env : Env} {L : Layout} {P : World → Prop} {img : Bytes} {d : Dev}

theorem Geometry.slice_parent (h : Geometry L) {w : World} (hw : ∀ e, (w.disk e).cur.length = L.size e)
    {o i : Nat} (hfit : o + i ≤ L.size d) :
    slice (w.content L .parent) (512 * L.startSector d + o) i = slice (w.disk d).cur o i := by
  have hfits := h.fits
  have hlen : (overwrite L.parentRest (512 * L.startSector .a) (w.disk .a).cur).length = L.parentRest.length :=
    overwrite_length (by rw [hw]; exact hfits .a)
  have ha := hfits .a
  have hb := hfits .b
  have hself {img : Bytes} {off : Nat} {bs : Bytes} (hbs : off + bs.length ≤ img.length) (hi : o + i ≤ bs.length) :
      slice (overwrite img off bs) (off + o) i = slice bs o i := by
    rw [← slice_slice hi, slice_overwrite_self hbs]
  unfold World.content
  cases d with
  | b => exact hself (by rw [hw, hlen]; exact hb) (by rw [hw]; exact hfit)
  | a =>
      have hout : slice (overwrite (overwrite L.parentRest (512 * L.startSector .a) (w.disk .a).cur)
          (512 * L.startSector .b) (w.disk .b).cur) (512 * L.startSector .a + o) i =
          slice (overwrite L.parentRest (512 * L.startSector .a) (w.disk .a).cur) (512 * L.startSector .a + o) i := by
        rcases h.disjoint with hd | hd
        · exact slice_overwrite_of_le (by omega) (by omega)
        · exact slice_overwrite_of_ge (by omega) (by rw [hw]; omega)
      rw [hout]
      exact hself (by rw [hw]; exact ha) (by rw [hw]; exact hfit)

section Source

variable (hgeom : Geometry L) (hP : ∀ w, P w → (w.disk d).cur = img) (hlen : img.length = L.size d)

include hgeom hP hlen

theorem Geometry.shows : Shows L P .parent (512 * L.startSector d) img d.other := by
  intro w hw hsane o i hfit
  have hall : ∀ e, (w.disk e).cur.length = L.size e := fun e => by
    rcases d.eq_or_other e with rfl | rfl
    · rw [hP w hw, hlen]
    · exact hsane.cur_length
  rw [hgeom.slice_parent hall (hlen ▸ hfit), hP w hw]

theorem Geometry.copies (hbeside : Beside env d.other P) :
    Copies L .parent (512 * L.startSector d) (L.size d) d.other (Mirroring L P img d.other)
      (Mirrored P img d.other) := by
  have hcopies : Copies L .parent (512 * L.startSector d) img.length d.other _ _ :=
    copies_mirror hbeside (hlen.trans (hgeom.sizes _ _)) (hgeom.shows hP hlen)
  rwa [hlen] at hcopies

theorem Geometry.ready (hmounted : ∀ w, P w → w.ctl.mounted = some d) :
    CopyReady L (Mirroring L P img d.other) (L.target .parent) (512 * L.startSector d) (L.size d) d.other where
  pos := by
    have hsup := hgeom.supported d
    simp only [Storage.supported, decide_eq_true_eq] at hsup
    exact (Nat.zero_le _).trans_lt hsup.1
  range := hgeom.fits d
  size := hgeom.sizes _ _
  aligned := by
    have hsup := hgeom.supported d.other
    simp only [Storage.supported, decide_eq_true_eq] at hsup
    exact ⟨(hgeom.aligned d).1, (hgeom.aligned d).2, by rw [hgeom.sizes d d.other]; exact hsup.2.2.2.2⟩
  supported := hgeom.supported _
  idle w hw := by simp [World.busy, hmounted w hw.1]
  reads k i hfit := ⟨slice img k i, (hgeom.shows hP hlen).reads (by omega), slice_length (by omega)⟩

end Source

end SuperRaid.PartitionSpec
