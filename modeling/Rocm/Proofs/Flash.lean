import Rocm.Support.Stages

/-!
# The commands of the flash devices

A command has the number of the block above its low eight bits.
-/

namespace Rocm

/-- The low bits of a command. -/
theorem flashCmd_low (blkNo : Word) {cmd : Word} (h : cmd &&& 0xFF = cmd) :
    (blkNo <<< 8 ||| cmd) &&& 0xFF = cmd := by
  have hblk : blkNo <<< 8 &&& 0xFF = 0 := by
    apply BitVec.eq_of_toNat_eq
    rw [BitVec.toNat_and, BitVec.toNat_shiftLeft, show (0xFF : Word).toNat = 2 ^ 8 - 1 from rfl,
      Nat.and_two_pow_sub_one_eq_mod, Nat.shiftLeft_eq]
    simp
  rw [BitVec.and_or_distrib_right, hblk, h]
  exact BitVec.zero_or

/-- The block of a command. -/
theorem flashCmd_high {blkNo cmd : Word} (hblk : blkNo.toNat < 2 ^ 24) (hcmd : cmd.toNat < 2 ^ 8) :
    (blkNo <<< 8 ||| cmd) >>> 8 = blkNo := by
  have hshift : (blkNo <<< 8).toNat = blkNo.toNat <<< 8 := by
    rw [BitVec.toNat_shiftLeft, Nat.shiftLeft_eq]
    omega
  apply BitVec.eq_of_toNat_eq
  rw [BitVec.toNat_ushiftRight, BitVec.toNat_or, hshift, ← Nat.shiftLeft_add_eq_or_of_lt hcmd,
    Nat.shiftLeft_eq, Nat.shiftRight_eq_div_pow]
  omega

end Rocm
