/-
  File:      Rabbits/Noc/SlaveDevice.lean
  Subject:   How the register slaves decode an access (the head of their write and read functions).

  * `lofsOf` -- the word that an access is to: the upper lanes of `be` are the next word;
  * `valueOf` -- `*val`, the half of the data for that word; `firstByte` -- the first byte of the access;
  * `toggles_iff` -- the test whether a write changes bit 0 of a register.
-/
import Rabbits.Noc.Vci

namespace Rabbits

/-- `lofs`. -/
def lofsOf (ofs : ULong) (be : Byte) : ULong :=
  if be &&& 0xF0#8 = 0#8 then ofs >>> 2 else (ofs >>> 2) + 1#32

/-- `lbe`. -/
def lbeOf (be : Byte) : Byte := if be &&& 0xF0#8 = 0#8 then be else be >>> 4

/-- `*val`. -/
def valueOf (be : Byte) (data : Fin 8 → Byte) : ULong :=
  if be &&& 0xF0#8 = 0#8 then data 3 ++ data 2 ++ data 1 ++ data 0
  else data 7 ++ data 6 ++ data 5 ++ data 4

/-- `data[0]`, whatever `be` is. -/
def firstByte (data : Fin 8 → Byte) : Byte := data 0

/-- Bit 0 of a register. -/
theorem and_one_ne_zero (x : ULong) : x &&& 1#32 ≠ 0#32 ↔ x.getLsbD 0 = true := by
  have hmod : (x &&& 1#32).toNat = x.toNat % 2 := by
    rw [BitVec.toNat_and]
    exact Nat.and_two_pow_sub_one_eq_mod x.toNat 1
  rw [BitVec.getLsbD, Nat.testBit_zero, decide_eq_true_iff, ne_eq, ← BitVec.toNat_inj, hmod]
  show ¬ x.toNat % 2 = 0 ↔ x.toNat % 2 = 1
  omega

/-- Bit 0 of a register changes. -/
theorem toggles_iff (x y : ULong) :
    (x ^^^ y) &&& 1#32 ≠ 0#32 ↔ ¬ (y &&& 1#32 ≠ 0#32 ↔ x &&& 1#32 ≠ 0#32) := by
  rw [and_one_ne_zero, and_one_ne_zero, and_one_ne_zero, BitVec.getLsbD_xor]
  generalize x.getLsbD 0 = a
  generalize y.getLsbD 0 = b
  cases a <;> cases b <;> decide

end Rabbits
