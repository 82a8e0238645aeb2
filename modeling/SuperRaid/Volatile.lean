import SuperRaid.Image

namespace SuperRaid.Volatile

open Image

/-- A device with a volatile cache: the bytes that are safe, and the writes since, newest first. -/
structure Disk where
  stable : Bytes
  pending : List (Nat × Bytes)

def Disk.cur (d : Disk) : Bytes := d.pending.foldr (fun w img => overwrite img w.1 w.2) d.stable

def Disk.write (d : Disk) (off : Nat) (bs : Bytes) : Disk := { d with pending := (off, bs) :: d.pending }

def Disk.sync (d : Disk) : Disk := ⟨d.cur, []⟩

def Fits (n : Nat) (w : Nat × Bytes) : Prop := w.1 + w.2.length ≤ n

def Disk.Bounded (d : Disk) : Prop := ∀ w ∈ d.pending, Fits d.stable.length w

/-- After a power loss each byte is the safe one or one that some write since put there. -/
def Survives (d : Disk) (img : Bytes) : Prop :=
  img.length = d.stable.length ∧
    ∀ i, img[i]? = d.stable[i]? ∨ ∃ w ∈ d.pending, w.1 ≤ i ∧ i < w.1 + w.2.length ∧
    img[i]? = w.2[i - w.1]?

variable {d : Disk} {img : Bytes}

theorem cur_length (h : d.Bounded) : d.cur.length = d.stable.length := by
  obtain ⟨stable, pending⟩ := d
  induction pending with
  | nil => rfl
  | cons w ws ih =>
      have hlen := ih (fun v hv => h v (List.mem_cons_of_mem w hv))
      have hw : w.1 + w.2.length ≤ stable.length := h w List.mem_cons_self
      have hfits : w.1 + w.2.length ≤ (Disk.mk stable ws).cur.length := by rw [hlen]; exact hw
      exact (overwrite_length hfits).trans hlen

@[simp] theorem cur_write (d : Disk) (off : Nat) (bs : Bytes) : (d.write off bs).cur = overwrite d.cur off bs := rfl

theorem bounded_of_clean (h : d.pending = []) : d.Bounded := by
  simp [Disk.Bounded, h]

theorem bounded_write (h : d.Bounded) {off : Nat} {bs : Bytes} (hw : off + bs.length ≤ d.stable.length) :
    (d.write off bs).Bounded := by
  intro w hmem
  rcases List.mem_cons.mp hmem with rfl | hmem
  · exact hw
  · exact h w hmem

theorem bounded_sync (d : Disk) : d.sync.Bounded := bounded_of_clean rfl

theorem survives_clean (h : d.pending = []) (hs : Survives d img) : img = d.stable := by
  refine List.ext_getElem? (fun i => ?_)
  rcases hs.2 i with hi | ⟨w, hw, -⟩
  · exact hi
  · simp [h] at hw

theorem survives_stable (d : Disk) : Survives d d.stable := ⟨rfl, fun _ => .inl rfl⟩

theorem survives_cur (h : d.Bounded) : Survives d d.cur := by
  refine ⟨cur_length h, fun i => ?_⟩
  obtain ⟨stable, pending⟩ := d
  induction pending with
  | nil => exact .inl rfl
  | cons w ws ih =>
      have hws : (Disk.mk stable ws).Bounded := fun v hv => h v (List.mem_cons_of_mem w hv)
      have hw : w.1 + w.2.length ≤ stable.length := h w List.mem_cons_self
      have hlen : (Disk.mk stable ws).cur.length = stable.length := cur_length hws
      have hle : w.1 ≤ (Disk.mk stable ws).cur.length := by omega
      have hcur : (Disk.mk stable (w :: ws)).cur[i]? =
          if w.1 ≤ i ∧ i < w.1 + w.2.length then w.2[i - w.1]? else (Disk.mk stable ws).cur[i]? :=
        overwrite_getElem? hle i
      rw [hcur]
      split_ifs with hi
      · exact .inr ⟨w, List.mem_cons_self, hi.1, hi.2, rfl⟩
      · rcases ih hws with heq | ⟨v, hv, hrest⟩
        · exact .inl heq
        · exact .inr ⟨v, List.mem_cons_of_mem w hv, hrest⟩

/-- Cached writes of bytes that are safe already cannot change anything, lost or not. -/
theorem survives_same (hs : Survives d img) (h : ∀ w ∈ d.pending, slice d.stable w.1 w.2.length = w.2) :
    img = d.stable := by
  refine List.ext_getElem? (fun i => ?_)
  rcases hs.2 i with hi | ⟨w, hw, h₁, h₂, hi⟩
  · exact hi
  · rw [hi, ← h w hw, slice_getElem?, if_pos (by omega)]
    congr 1
    omega

end SuperRaid.Volatile
