import PocketMips.Alu

/-!
# The arithmetic unit on words

Every operation on integers is the operation of 32-bit words on the words that the integers stand for.
-/
namespace PocketMips

@[simp] theorem ofInt_toNat {n : Nat} (x : BitVec n) : BitVec.ofInt n x.toNat = x := by
  rw [BitVec.ofInt_natCast, BitVec.ofNat_toNat, BitVec.setWidth_eq]

/-- A field holds the residue of an integer. -/
theorem toNat_ofInt_eq (n : Nat) (v : Int) : ((BitVec.ofInt n v).toNat : Int) = v % (1 <<< n : Nat) := by
  have pos := Nat.two_pow_pos n
  rw [BitVec.toNat_ofInt, Int.toNat_of_nonneg (Int.emod_nonneg v (by omega)), Nat.one_shiftLeft]

namespace Alu

/-! ## Residues -/

theorem toNat_toUnsigned (a : Int) : (toUnsigned a).toNat = (BitVec.ofInt 32 a).toNat := by
  rw [toUnsigned_eq, Int.toNat_natCast]

theorem toSigned_eq (a : Int) : toSigned a = (BitVec.ofInt 32 a).toInt := by
  have size : modulus = 4294967296 := rfl
  rw [toSigned, toUnsigned_eq, BitVec.toInt_eq_toNat_cond]
  by_cases low : 2 * (BitVec.ofInt 32 a).toNat < 2 ^ 32
  · rw [if_pos (by omega), if_pos low]
  · rw [if_neg (by omega), if_neg low, size]
    rfl

/-! ## Arithmetic and logic -/

theorem add_eq (a b : Int) : add a b = (BitVec.ofInt 32 a + BitVec.ofInt 32 b).toNat := by
  rw [add, toUnsigned_eq, BitVec.ofInt_add]

theorem subtract_eq (a b : Int) :
    subtract a b = (BitVec.ofInt 32 a - BitVec.ofInt 32 b).toNat := by
  rw [subtract, toUnsigned_eq, Int.sub_eq_add_neg, BitVec.ofInt_add, BitVec.ofInt_neg,
    BitVec.sub_eq_add_neg]

theorem and_eq (a b : Int) : and a b = (BitVec.ofInt 32 a &&& BitVec.ofInt 32 b).toNat := by
  rw [and, toNat_toUnsigned, toNat_toUnsigned, BitVec.toNat_and]

theorem or_eq (a b : Int) : or a b = (BitVec.ofInt 32 a ||| BitVec.ofInt 32 b).toNat := by
  rw [or, toNat_toUnsigned, toNat_toUnsigned, BitVec.toNat_or]

theorem nor_eq (a b : Int) :
    nor a b = (~~~(BitVec.ofInt 32 a ||| BitVec.ofInt 32 b)).toNat := by
  have h := (BitVec.ofInt 32 a ||| BitVec.ofInt 32 b).isLt
  rw [nor, or_eq, BitVec.toNat_not, show modulus = 4294967296 from rfl]
  omega

theorem shiftLeft_eq (a n : Int) :
    shiftLeft a n = (BitVec.ofInt 32 a <<< (n % 32).toNat).toNat := by
  rw [shiftLeft, toNat_toUnsigned, toUnsigned, BitVec.toNat_shiftLeft]
  rfl

theorem shiftRight_eq (a n : Int) :
    shiftRight a n = (BitVec.ofInt 32 a >>> (n % 32).toNat).toNat := by
  rw [shiftRight, toNat_toUnsigned, BitVec.toNat_ushiftRight]

/-! ## Comparisons -/

theorem lessThan_eq (a b : Int) :
    lessThan a b = (BitVec.ofInt 32 a).slt (BitVec.ofInt 32 b) := by
  rw [lessThan, toSigned_eq, toSigned_eq, BitVec.slt_eq_decide]

theorem lessThanUnsigned_eq (a b : Int) :
    lessThanUnsigned a b = (BitVec.ofInt 32 a).ult (BitVec.ofInt 32 b) := by
  rw [lessThanUnsigned, toUnsigned_eq, toUnsigned_eq, BitVec.ult_eq_decide]
  exact decide_eq_decide.mpr Int.ofNat_lt

theorem equal_eq (a b : Int) :
    equal a b = decide (BitVec.ofInt 32 a = BitVec.ofInt 32 b) := by
  rw [equal, toUnsigned_eq, toUnsigned_eq]
  exact decide_eq_decide.mpr (Int.ofNat_inj.trans BitVec.toNat_inj)

/-! ## Extension of narrow fields -/

theorem zeroExtend_eq (bits : Nat) (a : Int) :
    zeroExtend bits a = (BitVec.ofInt bits a).toNat := by
  rw [zeroExtend, toNat_ofInt_eq]

/-- Ones above the low bits of a word, on top of a field of that many bits. -/
theorem testBit_or_ones_above (low bits i : Nat) :
    (low ||| (0xFFFFFFFF ^^^ (1 <<< bits - 1))).testBit i =
      (low.testBit i || (decide (i < 32) ^^ decide (i < bits))) := by
  rw [Nat.testBit_or, Nat.testBit_xor, Nat.one_shiftLeft, Nat.testBit_two_pow_sub_one,
    show 0xFFFFFFFF = 2 ^ 32 - 1 from rfl, Nat.testBit_two_pow_sub_one]

theorem signExtend_eq {bits : Nat} (pos : 0 < bits) (le : bits ≤ 32) (a : Int) :
    signExtend bits a = ((BitVec.ofInt bits a).signExtend 32).toNat := by
  rw [signExtend, zeroExtend_eq, Int.toNat_natCast]
  generalize BitVec.ofInt bits a = x
  have top : x.toNat.testBit (bits - 1) = x.msb := by
    rw [BitVec.testBit_toNat, BitVec.msb_eq_getLsbD_last]
  rw [top]
  cases msb : x.msb with
  | false =>
    have narrow : x.toNat < 2 ^ 32 := Nat.lt_of_lt_of_le x.isLt (Nat.pow_le_pow_right (by decide) le)
    simp only [Bool.false_eq_true, ↓reduceIte, BitVec.toNat_signExtend, msb, BitVec.toNat_setWidth,
      Nat.mod_eq_of_lt narrow, Nat.add_zero]
  | true =>
    simp only [↓reduceIte, Int.natCast_inj]
    apply Nat.eq_of_testBit_eq
    intro i
    rw [testBit_or_ones_above, BitVec.testBit_toNat, BitVec.testBit_toNat, BitVec.getLsbD_signExtend,
      msb]
    by_cases inner : i < bits
    · simp [inner, show i < 32 by omega]
    · have outer : x.getLsbD i = false := BitVec.getLsbD_of_ge x i (by omega)
      simp [inner, outer]

end Alu

end PocketMips
