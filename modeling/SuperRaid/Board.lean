import SuperRaid.Machine
import SuperRaid.Sha256

namespace SuperRaid.Board

open Image Footer Volatile Machine Sha256

/-- The device names of the board, with partitions as small as open_target admits them for 512 byte blocks. -/
def board : Layout where
  name
    | .a => "/dev/mmcblk0p26".toList
    | .b => "/dev/mmcblk0p27".toList
  parentName := "/dev/mmcblk0".toList
  size _ := 4608
  logical _ := 512
  startSector
    | .a => 1
    | .b => 10
  parentLogical := 512
  parentRest := List.replicate (512 * 20) 0
  name_ne := by decide
  parent_ne := by rintro (_ | _) <;> decide
  name_ne_nil := by rintro (_ | _) <;> decide
  name_plain := by decide

def blank (b : Byte) : Bytes := List.replicate 512 b ++ List.replicate footerAreaSize 0

def ctl : Ctl where
  mounted := none
  blocked := false
  dirty := fun _ => 10
  original := fun _ => 0
  service := .start
  now := 0
  recovered := false
  restored := false

theorem blank_length (b : Byte) : (blank b).length = 4608 := by
  rw [blank, List.length_append, List.length_replicate, List.length_replicate]
  rfl

theorem sealed_blank (b : Byte) : (sealImage sha256 (blank b)).length = 4608 ∧
    (verifyImage sha256 (sealImage sha256 (blank b))).isSome := by
  have hblank := blank_length b
  have hlen : (sealImage sha256 (blank b)).length = 4608 := by
    rw [sealImage_length (by rw [hblank]; decide), hblank]
  have hsealed : Sealed sha256 (sealImage sha256 (blank b)) := sealed_sealImage (by rw [hblank]; decide)
  refine ⟨hlen, ?_⟩
  rw [hsealed.verifies (by rw [hlen]; decide) (by rw [hlen]; decide)]
  rfl

end SuperRaid.Board
