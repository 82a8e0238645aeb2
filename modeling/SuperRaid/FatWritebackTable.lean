import SuperRaid.FatAccount
import SuperRaid.FatWriteback

namespace SuperRaid.FatWriteback

open Image Sys FatEntry FatTable

variable {geo : Geometry} {vol : Volume} {m : Memory}

/-- The blocks in memory as the functions on the FAT see them. -/
def Memory.fat (m : Memory) : Fat where
  bufs p := (m.block p.1).getD p.2 0
  freeClusters := m.freeClusters
  freeClusValid := m.freeClusValid
  prevFree := m.prevFree.toNat
  fsinfoDirty := m.fsinfoDirty
  rdonly := m.rdonly
  discards := []

structure Fits (geo : Geometry) (vol : Volume) (m : Memory) : Prop where
  variant : vol.variant = .fat32
  blockSize : vol.blockSize = geo.blockSize
  fatStart : vol.fatStart = geo.fatStart
  maxCluster : vol.maxCluster = geo.maxCluster
  length : ∀ b, (m.block b).length = geo.blockSize

theorem load_eq_slice {b off n : Nat} (h : off + n ≤ (m.block b).length) :
    load m.fat.bufs (b, off) n = leNat (slice (m.block b) off n) := by
  have hmap : (List.range n).map (fun i => m.fat.bufs (b, off + i)) = slice (m.block b) off n := by
    apply List.ext_getElem
    · rw [List.length_map, List.length_range, slice_length h]
    · intro i hi _
      have hlt : off + i < (m.block b).length := by
        rw [List.length_map, List.length_range] at hi
        omega
      simp [Memory.fat, slice, hlt]
  rw [load, hmap]

theorem Fits.next_eq (h : Fits geo vol m) (n : Nat) : m.fat.next vol n = ending .fat32 (entGet geo m n) := by
  obtain ⟨k, hk⟩ := h.blockSize ▸ vol.dvd_blockSize
  have hinside : 4 * n % geo.blockSize + 4 ≤ (m.block (geo.fatStart + 4 * n / geo.blockSize)).length := by
    have hpos : 0 < k := by
      have hle := vol.le_blockSize
      rw [h.blockSize] at hle
      omega
    have hlt := Nat.mod_lt n hpos
    rw [h.length, hk, Nat.mul_mod_mul_left]
    omega
  have hmask : ∀ x, x &&& 0x0fffffff = x % 2 ^ 28 := fun x => Nat.and_two_pow_sub_one_eq_mod x 28
  simp only [Fat.next, table, pointed, pos, h.variant, FatEntry.entGet, fat32EntGet, h.fatStart, h.blockSize,
    load_eq_slice hinside, hmask, entGet]

theorem Fits.next_eq_free (h : Fits geo vol m) (n : Nat) : m.fat.next vol n = entFree ↔ entGet geo m n = 0 := by
  rw [h.next_eq, ending]
  split_ifs with hbad
  · simp only [entEof, entFree, Variant.bad] at hbad ⊢
    omega
  · rfl

theorem card_freeBelow_eq (h : Fits geo vol m) {n : Nat} (hn : startEnt ≤ n) :
    (freeBelow vol m.fat n).card = ((List.range n).drop startEnt).countP (fun n => entGet geo m n == 0) := by
  induction n, hn using Nat.le_induction with
  | base =>
    have hnil : (List.range startEnt).drop startEnt = [] := List.drop_eq_nil_of_le (by simp)
    rw [hnil, freeBelow, show FatTable.startEnt = startEnt from rfl, Finset.Ico_self]
    rfl
  | succ n hn ih =>
    have hdrop : (List.range (n + 1)).drop startEnt = (List.range n).drop startEnt ++ [n] := by
      rw [List.range_succ, List.drop_append_of_le_length (by simpa using hn)]
    rw [card_freeBelow_succ hn, ih, hdrop, List.countP_append, List.countP_singleton]
    by_cases hfree : entGet geo m n = 0
    · rw [if_pos ((h.next_eq_free n).mpr hfree), if_pos (by simpa using hfree)]
    · rw [if_neg (fun hnext => hfree ((h.next_eq_free n).mp hnext)), if_neg (by simpa using hfree),
        Nat.add_zero]

theorem Fits.countFree_eq (h : Fits geo vol m) : countFree geo m = freeCount vol m.fat := by
  rw [freeCount, card_freeBelow_eq h vol.start_le, h.maxCluster, countFree]

theorem Memory.countKnown_eq_false (m : Memory) :
    m.countKnown = false ↔ m.fat.freeClusters = FatTable.unknown ∨ m.fat.freeClusValid = false := by
  simp [Memory.countKnown, Memory.fat, FatTable.unknown, unknown, or_iff_not_imp_left]

theorem returns_fatCountFreeClusters_fat (h : Fits geo vol m) (G : Answer → Prop) (hunknown : m.countKnown = false) :
    Returns G m.fat (FatTable.fatCountFreeClusters vol) fun err s' =>
      err = none ∧ s' = (m.fatCountFreeClusters geo).fat ∨ (∃ e, err = some e) ∧ s' = m.fat := by
  have hnot : ¬ (m.fat.freeClusters ≠ FatTable.unknown ∧ m.fat.freeClusValid = true) := by
    rcases m.countKnown_eq_false.mp hunknown with hcount | hvalid
    · exact fun hknown => hknown.1 hcount
    · exact fun hknown => absurd hknown.2 (by rw [hvalid]; decide)
  refine Returns.bind (Returns.read ?_)
  dsimp only [id]
  rw [if_neg hnot]
  have hstart : startEnt + (vol.maxCluster - startEnt) = vol.maxCluster := Nat.add_sub_cancel' vol.start_le
  refine Returns.bind ((returns_countLoop le_rfl hstart (by simp) ?_).mono ?_)
  · simp [freeBelow, Fatent.setEntry]
  · rintro r s₁ ⟨rfl, rfl | ⟨rfl, -⟩⟩
    · refine Returns.bind (Returns.modify (Returns.bind (Returns.modify (Returns.ret (.inl ⟨rfl, ?_⟩)))))
      rw [← h.countFree_eq]
      cases hrdonly : m.rdonly <;> simp [Memory.fat, Memory.fatCountFreeClusters, hrdonly, h.variant]
    · exact Returns.ret (.inr ⟨⟨_, rfl⟩, rfl⟩)

/-- A call of fat_statfs on the blocks in memory is a step of the model of writeback. -/
theorem fatStatfs_step (h : Fits geo vol m) (G : Answer → Prop) :
    Ends G m.fat (FatTable.fatStatfs vol) fun r s' => ∃ readOk, s' = (m.fatStatfs geo readOk).fat ∧
      (readOk = true ↔ ∃ v, r = .ok v) := by
  refine Returns.ends (Returns.bind (Returns.read ?_)) halts_fatStatfs
  dsimp only [id]
  by_cases hunknown : m.countKnown = false
  · have hstatfs : ∀ readOk, m.fatStatfs geo readOk = if readOk then m.fatCountFreeClusters geo else m := by
      simp [Memory.fatStatfs, hunknown]
    rw [if_pos (m.countKnown_eq_false.mp hunknown)]
    refine Returns.bind ((returns_fatCountFreeClusters_fat h G hunknown).mono ?_)
    rintro err s₁ (⟨rfl, rfl⟩ | ⟨⟨e, rfl⟩, rfl⟩)
    · exact Returns.bind (Returns.read (Returns.ret ⟨true, by rw [hstatfs, if_pos rfl], by simp⟩))
    · exact Returns.ret ⟨false, by rw [hstatfs, if_neg (by decide)], by simp⟩
  · have hstatfs : m.fatStatfs geo true = m := by
      simp [Memory.fatStatfs, Bool.eq_true_of_not_eq_false hunknown]
    rw [if_neg (fun hcount => hunknown (m.countKnown_eq_false.mpr hcount))]
    exact Returns.bind (Returns.ret (Returns.bind (Returns.read (Returns.ret ⟨true, by rw [hstatfs], by simp⟩))))

end SuperRaid.FatWriteback
