import Mathlib.Tactic

namespace SuperRaid.FileFlags

section Masks

variable {n : Nat}

/-- The bits in the mask from g, and the others from f. -/
def mix (m f g : BitVec n) : BitVec n := (f &&& ~~~m) ||| (g &&& m)

variable {f g m d : BitVec n}

theorem mix_and (m f g : BitVec n) : mix m f g &&& m = g &&& m := by
  ext i hi
  simp only [mix, BitVec.getElem_or, BitVec.getElem_and, BitVec.getElem_not]
  cases f[i] <;> cases g[i] <;> cases m[i] <;> rfl

theorem mix_and_eq_zero (hf : f &&& d = 0#n) (hg : g &&& d = 0#n) (m : BitVec n) : mix m f g &&& d = 0#n := by
  ext i hi
  have hf : (f[i] && d[i]) = false := by rw [← BitVec.getElem_and, hf, BitVec.getElem_zero]
  have hg : (g[i] && d[i]) = false := by rw [← BitVec.getElem_and, hg, BitVec.getElem_zero]
  simp only [mix, BitVec.getElem_or, BitVec.getElem_and, BitVec.getElem_not, BitVec.getElem_zero]
  revert hf hg
  cases f[i] <;> cases g[i] <;> cases m[i] <;> cases d[i] <;> decide

theorem mix_clear (h : d &&& m = d) : mix m f (f &&& ~~~d) = f &&& ~~~d := by
  ext i hi
  have hbit : (d[i] && m[i]) = d[i] := by rw [← BitVec.getElem_and, h]
  simp only [mix, BitVec.getElem_or, BitVec.getElem_and, BitVec.getElem_not]
  revert hbit
  cases f[i] <;> cases d[i] <;> cases m[i] <;> decide

theorem mix_restore (h : d &&& m = d) : mix m (f &&& ~~~d) f = f := by
  ext i hi
  have hbit : (d[i] && m[i]) = d[i] := by rw [← BitVec.getElem_and, h]
  simp only [mix, BitVec.getElem_or, BitVec.getElem_and, BitVec.getElem_not]
  revert hbit
  cases f[i] <;> cases d[i] <;> cases m[i] <;> decide

theorem and_not_of_and_eq_zero (h : f &&& d = 0#n) : f &&& ~~~d = f := by
  ext i hi
  have hbit : (f[i] && d[i]) = false := by rw [← BitVec.getElem_and, h, BitVec.getElem_zero]
  simp only [BitVec.getElem_and, BitVec.getElem_not]
  revert hbit
  cases f[i] <;> cases d[i] <;> decide

theorem and_not_and (f d : BitVec n) : f &&& ~~~d &&& d = 0#n := by
  ext i hi
  simp only [BitVec.getElem_and, BitVec.getElem_not, BitVec.getElem_zero]
  cases f[i] <;> cases d[i] <;> rfl

end Masks

def oRdonly : BitVec 32 := 0x0
def oWronly : BitVec 32 := 0x1
def oRdwr : BitVec 32 := 0x2
def oCreat : BitVec 32 := 0x40
def oTrunc : BitVec 32 := 0x200
def oDsync : BitVec 32 := 0x1000
def oDirect : BitVec 32 := 0x10000
def oSync : BitVec 32 := 0x101000
def oTmpfile : BitVec 32 := 0x404000

/-- O_APPEND, O_NONBLOCK, O_ASYNC, O_DIRECT and O_NOATIME are the flags that F_SETFL can change. -/
def setflMask : BitVec 32 := 0x52c00

theorem oDirect_and_setflMask : oDirect &&& setflMask = oDirect := by decide

def setfl (flags arg : BitVec 32) : BitVec 32 := mix setflMask flags arg

end SuperRaid.FileFlags
