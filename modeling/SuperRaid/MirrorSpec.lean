import SuperRaid.Apps
import SuperRaid.CopySpec

namespace SuperRaid.MirrorSpec

open Image Volatile Machine Storage Calls StorageSpec CopySpec Apps

variable {env : Env} {L : Layout} {t : Bool} {P C : World → Prop} {node : Node} {sourceOffset : Nat} {img : Bytes}
  {e : Dev}

def Mirroring (L : Layout) (P : World → Prop) (img : Bytes) (e : Dev) (k : Nat) (w : World) : Prop :=
  P w ∧ Sane L e (w.disk e) ∧ (w.disk e).cur.take k = img.take k

def Mirrored (P : World → Prop) (img : Bytes) (e : Dev) (w : World) : Prop := P w ∧ w.disk e = ⟨img, []⟩

def Shows (L : Layout) (P : World → Prop) (node : Node) (sourceOffset : Nat) (img : Bytes) (e : Dev) : Prop :=
  ∀ w, P w → Sane L e (w.disk e) → ∀ o i, o + i ≤ img.length →
    slice (w.content L node) (sourceOffset + o) i = slice img o i

theorem copyFrame_mirror (hbeside : Beside env e P) (hlen : img.length = L.size e)
    (hC : ∀ w, P w → Sane L e (w.disk e) → C w) :
    CopyFrame env (Mirroring L P img e) (Mirrored P img e) C where
  stable k := hbeside.stable_disk (fun disk => Sane L e disk ∧ disk.cur.take k = img.take k)
  safe _ w hw := hC w hw.1 hw.2.1
  stable_done := hbeside.stable_disk (· = ⟨img, []⟩)
  safe_done w hw := hC w hw.1 (by rw [hw.2]; exact sane_clean hlen)

theorem Shows.reads (h : Shows L P node sourceOffset img e) {k i : Nat} (hfit : k + i ≤ img.length) :
    Reads L (Mirroring L P img e k) node (sourceOffset + k) i (slice img k i) :=
  fun w hw => h w hw.1 hw.2.1 k i hfit

theorem copies_mirror (hbeside : Beside env e P) (hlen : img.length = L.size e)
    (hshows : Shows L P node sourceOffset img e) :
    Copies L node sourceOffset img.length e (Mirroring L P img e) (Mirrored P img e) where
  write := by
    rintro k buffer hfit hcopied j i w ⟨hw, hsane, htake⟩ hi hji
    have hbuffer : buffer = slice img k buffer.length := hcopied _ (hshows.reads hfit)
    have hchunk : slice buffer j i = slice img (k + j) i := by rw [hbuffer, slice_slice hji]
    have hsize : (slice img (k + j) i).length = i := slice_length (by omega)
    have hne : slice img (k + j) i ≠ [] := List.length_pos_iff.mp (by omega)
    rw [hchunk]
    refine ⟨hbeside.write w _ _ hw, ?_⟩
    rw [World.write_disk_self _ _ _ _ hne]
    refine ⟨hsane.write (by omega), ?_⟩
    have hcur := hsane.cur_length
    calc ((w.disk e).write (k + j) (slice img (k + j) i)).cur.take (k + (j + i))
        = (overwrite (w.disk e).cur (k + j) (slice img (k + j) i)).take (k + j + (slice img (k + j) i).length) := by
          rw [cur_write, hsize, Nat.add_assoc]
      _ = (w.disk e).cur.take (k + j) ++ slice img (k + j) i := overwrite_take_end (by omega)
      _ = img.take (k + (j + i)) := by rw [htake, take_append_slice, Nat.add_assoc]
  done := by
    rintro w ⟨hw, hsane, htake⟩
    refine ⟨hbeside.sync w hw, ?_⟩
    have hcur : (w.disk e).cur = img := by
      have := hsane.cur_length
      rwa [List.take_of_length_le (by omega), List.take_length] at htake
    rw [World.sync_disk_self, Disk.sync, hcur]

end SuperRaid.MirrorSpec
