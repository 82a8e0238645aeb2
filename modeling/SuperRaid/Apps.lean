import SuperRaid.Calls

namespace SuperRaid.Apps

open Image Footer Volatile Machine Calls

/-- One write an application makes through the file system. It reaches the device if the gate is open, and stays
clear of the footer. -/
def appWrite (gate : Ctl → Dev → Bool) (ctl : Ctl) (disk : Dev → Disk) (v : Dev × Nat × Bytes) : Dev → Disk :=
  if gate ctl v.1 ∧ v.2.1 + v.2.2.length ≤ (disk v.1).stable.length - footerAreaSize then
    Function.update disk v.1 ((disk v.1).write v.2.1 v.2.2)
  else disk

/-- Between two calls the applications make any number of writes. That some of them reach the medium early need not
be said: a power loss may keep any of the pending ones. -/
def apps (gate : Ctl → Dev → Bool) : Env where
  Choice := List (Dev × Nat × Bytes)
  act ctl writes disk := writes.foldl (appWrite gate ctl) disk
  digested _ len := len

theorem hashes_apps (gate : Ctl → Dev → Bool) (t : Bool) : Hashes (apps gate) t := fun _ _ _ => rfl

/-- The device has its size, and all its pending writes are inside. -/
structure Sane (L : Layout) (d : Dev) (disk : Disk) : Prop where
  length : disk.stable.length = L.size d
  bounded : disk.Bounded

theorem Sane.cur_length {L : Layout} {d : Dev} {disk : Disk} (h : Sane L d disk) : disk.cur.length = L.size d :=
  (Volatile.cur_length h.bounded).trans h.length

theorem Sane.write {L : Layout} {d : Dev} {disk : Disk} (h : Sane L d disk) {off : Nat} {bs : Bytes}
    (hfit : off + bs.length ≤ L.size d) : Sane L d (disk.write off bs) :=
  ⟨h.length, bounded_write h.bounded (by rw [h.length]; exact hfit)⟩

theorem Sane.sync {L : Layout} {d : Dev} {disk : Disk} (h : Sane L d disk) : Sane L d disk.sync :=
  ⟨h.cur_length, bounded_sync disk⟩

theorem sane_clean {L : Layout} {d : Dev} {img : Bytes} (h : img.length = L.size d) : Sane L d ⟨img, []⟩ :=
  ⟨h, bounded_of_clean rfl⟩

section Gate

variable {gate : Ctl → Dev → Bool} {ctl : Ctl} {d : Dev} {L : Layout}

theorem appWrite_closed (h : gate ctl d = false) (disk : Dev → Disk) (v : Dev × Nat × Bytes) :
    appWrite gate ctl disk v d = disk d := by
  unfold appWrite
  split_ifs with hv
  · have hne : d ≠ v.1 := by
      rintro rfl
      exact absurd hv.1 (by simp [h])
    simp [hne]
  · rfl

theorem apps_closed (h : gate ctl d = false) (writes : List (Dev × Nat × Bytes)) (disk : Dev → Disk) :
    (apps gate).act ctl writes disk d = disk d := by
  induction writes generalizing disk with
  | nil => rfl
  | cons v writes ih => exact (ih (appWrite gate ctl disk v)).trans (appWrite_closed h disk v)

theorem appWrite_sane {disk : Dev → Disk} (h : Sane L d (disk d)) (v : Dev × Nat × Bytes) :
    Sane L d (appWrite gate ctl disk v d) := by
  unfold appWrite
  split_ifs with hv
  · by_cases hd : d = v.1
    · subst hd
      rw [Function.update_self]
      exact h.write (by rw [← h.length]; omega)
    · rwa [Function.update_of_ne hd]
  · exact h

theorem apps_sane {disk : Dev → Disk} (h : Sane L d (disk d)) (writes : List (Dev × Nat × Bytes)) :
    Sane L d ((apps gate).act ctl writes disk d) := by
  induction writes generalizing disk with
  | nil => exact h
  | cons v writes ih => exact ih (appWrite_sane h v)

end Gate

theorem act_disk_closed {gate : Ctl → Dev → Bool} {w : World} {d : Dev} (h : gate w.ctl d = false)
    (r : Answer (apps gate).Choice) : (w.act (apps gate) r).disk d = w.disk d := apps_closed h r.choice w.disk

theorem act_sane {gate : Ctl → Dev → Bool} {L : Layout} {w : World} {d : Dev} (h : Sane L d (w.disk d))
    (r : Answer (apps gate).Choice) : Sane L d ((w.act (apps gate) r).disk d) := apps_sane h r.choice

def Idle (env : Env) (P : World → Prop) (d : Dev) : Prop :=
  ∀ w (r : Answer env.Choice), P w → (w.act env r).disk d = w.disk d

theorem idle_of_closed {gate : Ctl → Dev → Bool} {P : World → Prop} {d : Dev}
    (h : ∀ w, P w → gate w.ctl d = false) :
    Idle (apps gate) P d := fun w r hw => act_disk_closed (h w hw) r

structure Beside (env : Env) (d : Dev) (P : World → Prop) : Prop where
  stable : Stable env P
  idle : Idle env P d
  write : ∀ w off bs, P w → P (w.write d off bs)
  sync : ∀ w, P w → P (w.sync d)

theorem Beside.stable_disk {env : Env} {d : Dev} {P : World → Prop} (h : Beside env d P) (D : Disk → Prop) :
    Stable env (fun w => P w ∧ D (w.disk d)) :=
  fun w r hw => ⟨h.stable w r hw.1, by rw [h.idle w r hw.1]; exact hw.2⟩

end SuperRaid.Apps
