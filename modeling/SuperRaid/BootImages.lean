import SuperRaid.Apps
import SuperRaid.Storage

namespace SuperRaid.BootImages

open Image Footer Volatile Machine Storage Apps

section Images

variable (sha : Sha) (disk : Dev → Disk)

def selected : Dev := if (verifyImage sha (disk .a).cur).isSome then .a else .b

/-- What a boot in which nothing fails makes of the devices. -/
def recovered (e : Dev) : Disk :=
  if verifyImage sha (disk e).cur = verifyImage sha (disk (selected sha disk)).cur then disk e
  else ⟨(disk (selected sha disk)).cur, []⟩

variable {sha disk}

theorem recovered_selected (sha : Sha) (disk : Dev → Disk) :
    recovered sha disk (selected sha disk) = disk (selected sha disk) := if_pos rfl

theorem verify_recovered (sha : Sha) (disk : Dev → Disk) (e : Dev) :
    verifyImage sha (recovered sha disk e).cur = verifyImage sha (disk (selected sha disk)).cur := by
  unfold recovered
  split_ifs with he
  · exact he
  · rfl

theorem recovered_of_agree {digest : Bytes} (h : ∀ e, verifyImage sha (disk e).cur = some digest) :
    selected sha disk = .a ∧ recovered sha disk = disk := by
  refine ⟨if_pos (by rw [h]; rfl), ?_⟩
  funext e
  exact if_pos ((h e).trans (h _).symm)

end Images

end SuperRaid.BootImages
