import PocketMips.Proofs.Alu
import Mathlib.Data.Int.Bitwise

/-!
# Arithmetic on residues

Masked to a word, an operation on unbounded integers in two's complement is the operation on the words of its
operands, whether the mask is applied to the operands, to the result or to both. So all operations of the unit
depend on the residues of their operands only.
-/
namespace PocketMips

/-! ## Bits of integers -/

theorem getLsbD_ofInt (n : Nat) (a : Int) (i : Nat) :
    (BitVec.ofInt n a).getLsbD i = (decide (i < n) && a.testBit i) := by
  cases a with
  | ofNat m => simp [Int.testBit, BitVec.getLsbD_ofNat]
  | negSucc m =>
    rw [BitVec.ofInt_negSucc_eq_not_ofNat, BitVec.getLsbD_not, BitVec.getLsbD_ofNat, Int.testBit]
    cases decide (i < n) <;> simp

theorem getElem_ofInt {n i : Nat} (a : Int) (inside : i < n) : (BitVec.ofInt n a)[i] = a.testBit i := by
  rw [← BitVec.getLsbD_eq_getElem, getLsbD_ofInt, decide_eq_true inside, Bool.true_and]

theorem ofInt_land (n : Nat) (a b : Int) :
    BitVec.ofInt n (a.land b) = BitVec.ofInt n a &&& BitVec.ofInt n b := by
  ext i inside
  simp [getElem_ofInt, Int.testBit_land]

theorem ofInt_lor (n : Nat) (a b : Int) :
    BitVec.ofInt n (a.lor b) = BitVec.ofInt n a ||| BitVec.ofInt n b := by
  ext i inside
  simp [getElem_ofInt, Int.testBit_lor]

theorem ofInt_lnot (n : Nat) (a : Int) : BitVec.ofInt n a.lnot = ~~~BitVec.ofInt n a := by
  ext i inside
  simp [getElem_ofInt, Int.testBit_lnot]

theorem ofInt_shiftLeft (n : Nat) (a : Int) (k : Nat) :
    BitVec.ofInt n (a <<< k) = BitVec.ofInt n a <<< k := by
  have power : BitVec.ofInt n ((2 : Int) ^ k) = BitVec.twoPow n k := by
    apply BitVec.eq_of_toNat_eq
    rw [BitVec.toNat_twoPow, BitVec.toNat_ofInt]
    norm_cast
  rw [Int.shiftLeft_eq, BitVec.ofInt_mul, power, BitVec.shiftLeft_eq_mul_twoPow]

theorem ofInt_shiftRight {n : Nat} (x : BitVec n) (k : Nat) :
    BitVec.ofInt n ((x.toNat : Int) >>> k) = x >>> k := by
  have natural : (x.toNat : Int) >>> k = (x >>> k).toNat := by
    rw [BitVec.toNat_ushiftRight]
    rfl
  rw [natural, ofInt_toNat]

/-- A mask of ones leaves the residue. -/
theorem land_mask (n : Nat) (a : Int) : a.land (1 <<< n - 1 : Nat) = a % (1 <<< n : Nat) := by
  have ones (i : Nat) : (1 <<< n - 1).testBit i = decide (i < n) := by
    rw [Nat.one_shiftLeft, Nat.testBit_two_pow_sub_one]
  have bits (i : Nat) : (BitVec.ofInt n a).toNat.testBit i = (decide (i < n) && a.testBit i) := by
    rw [BitVec.testBit_toNat, getLsbD_ofInt]
  rw [← toNat_ofInt_eq]
  -- A conjunction with a mask is a natural number, which its bits determine.
  cases a with
  | ofNat m =>
    refine congrArg Int.ofNat (Nat.eq_of_testBit_eq fun i => ?_)
    rw [Nat.testBit_and, ones, bits, Bool.and_comm]
    rfl
  | negSucc m =>
    refine congrArg Int.ofNat (Nat.eq_of_testBit_eq fun i => ?_)
    rw [Nat.testBit_ldiff, ones, bits]
    rfl

namespace Alu

/-! ## Masks and words -/

theorem toUnsigned_eq_land (a : Int) : toUnsigned a = a.land 0xFFFFFFFF :=
  (land_mask 32 a).symm

theorem ofInt_toUnsigned (a : Int) : BitVec.ofInt 32 (toUnsigned a) = BitVec.ofInt 32 a := by
  rw [toUnsigned_eq, ofInt_toNat]

theorem ofInt_residue (a : Int) : BitVec.ofInt 32 (a % 0x100000000) = BitVec.ofInt 32 a :=
  ofInt_toUnsigned a

theorem land_amount (n : Int) : n.land 0x1F = n % 32 :=
  land_mask 5 n

theorem toNat_amount (n : Int) : (BitVec.ofInt 32 n % 32).toNat = (n % 32).toNat := by
  rw [BitVec.toNat_umod, BitVec.toNat_ofInt]
  change (n % 0x100000000).toNat % 32 = (n % 32).toNat
  omega

/-- An operation on integers is a masked operation on unbounded integers, and it is an operation on words. -/
structure Computes (f onIntegers : Int → Int → Int) (onWords : Word → Word → Word) : Prop where
  masked : ∀ a b, f a b = (onIntegers a b).land 0xFFFFFFFF
  words : ∀ a b, f a b = (onWords (.ofInt 32 a) (.ofInt 32 b)).toNat
  residues : ∀ a b, f (a % 0x100000000) (b % 0x100000000) = f a b
  bounds : ∀ a b, 0 ≤ f a b ∧ f a b < 0x100000000

/-- A comparison of integers is one of words. -/
structure Compares (f : Int → Int → Bool) (onWords : Word → Word → Bool) : Prop where
  words : ∀ a b, f a b = onWords (.ofInt 32 a) (.ofInt 32 b)
  residues : ∀ a b, f (a % 0x100000000) (b % 0x100000000) = f a b

theorem residues_of_words {α : Type} {f : Int → Int → α} (onWords : Word → Word → α)
    (words : ∀ a b, f a b = onWords (.ofInt 32 a) (.ofInt 32 b)) (a b : Int) :
    f (a % 0x100000000) (b % 0x100000000) = f a b := by
  rw [words, words, ofInt_residue, ofInt_residue]

theorem computes_of_words {f onIntegers : Int → Int → Int} {onWords : Word → Word → Word}
    (words : ∀ a b, f a b = (onWords (.ofInt 32 a) (.ofInt 32 b)).toNat)
    (agree : ∀ a b, BitVec.ofInt 32 (onIntegers a b) = onWords (.ofInt 32 a) (.ofInt 32 b)) :
    Computes f onIntegers onWords where
  masked a b := by rw [words, ← agree, ← toUnsigned_eq, toUnsigned_eq_land]
  words := words
  residues := residues_of_words (fun x y => (onWords x y).toNat) words
  bounds a b := by
    rw [words, ← agree, ← toUnsigned_eq]
    exact ⟨toUnsigned_nonneg _, toUnsigned_lt _⟩

theorem compares_of_words {f : Int → Int → Bool} {onWords : Word → Word → Bool}
    (words : ∀ a b, f a b = onWords (.ofInt 32 a) (.ofInt 32 b)) : Compares f onWords :=
  ⟨words, residues_of_words onWords words⟩

/-! ## Operations -/

theorem computes_add : Computes add (· + ·) (· + ·) :=
  computes_of_words add_eq BitVec.ofInt_add

theorem computes_subtract : Computes subtract (· - ·) (· - ·) := by
  refine computes_of_words subtract_eq fun a b => ?_
  rw [← ofInt_toUnsigned, ← subtract, subtract_eq, ofInt_toNat]

theorem computes_and : Computes and Int.land (· &&& ·) :=
  computes_of_words and_eq (ofInt_land 32)

theorem computes_or : Computes or Int.lor (· ||| ·) :=
  computes_of_words or_eq (ofInt_lor 32)

theorem computes_nor : Computes nor (fun a b => (a.lor b).lnot) (fun x y => ~~~(x ||| y)) := by
  refine computes_of_words nor_eq fun a b => ?_
  rw [ofInt_lnot, ofInt_lor]

theorem computes_shiftLeft :
    Computes shiftLeft (fun a n => a <<< (n.land 0x1F).toNat) (fun x n => x <<< (n % 32)) := by
  refine computes_of_words (fun a n => ?_) fun a n => ?_
  · rw [shiftLeft_eq, BitVec.shiftLeft_eq', toNat_amount]
  · rw [ofInt_shiftLeft, BitVec.shiftLeft_eq', toNat_amount, land_amount]

theorem computes_shiftRight :
    Computes shiftRight (fun a n => (a.land 0xFFFFFFFF) >>> (n.land 0x1F).toNat)
      (fun x n => x >>> (n % 32)) := by
  refine computes_of_words (fun a n => ?_) fun a n => ?_
  · rw [shiftRight_eq, BitVec.ushiftRight_eq', toNat_amount]
  · rw [← toUnsigned_eq_land, toUnsigned_eq, ofInt_shiftRight, BitVec.ushiftRight_eq', toNat_amount,
      land_amount]

theorem compares_equal : Compares equal (· == ·) :=
  compares_of_words equal_eq

theorem compares_notEqual : Compares notEqual (· != ·) := by
  refine compares_of_words fun a b => ?_
  rw [notEqual, compares_equal.words, bne]

theorem toSigned_residue (a : Int) : toSigned (a % 0x100000000) = toSigned a := by
  rw [toSigned_eq, toSigned_eq, ofInt_residue]

theorem toSigned_bounds (a : Int) : -0x80000000 ≤ toSigned a ∧ toSigned a < 0x80000000 := by
  rw [toSigned_eq]
  exact ⟨BitVec.le_toInt _, BitVec.toInt_lt⟩

theorem signExtend?_eq {k : Nat} (pos : 1 ≤ k) (le : k ≤ 32) (a : Int) :
    signExtend? a k = some ((BitVec.ofInt 32 (a.bmod (2 ^ k))).toNat : Int) := by
  have width : ¬(k : Int) < 1 := by omega
  rw [signExtend?, if_neg width, Int.toNat_natCast, signExtend_eq pos le, BitVec.signExtend,
    BitVec.toInt_ofInt]

theorem zeroExtend?_eq (k : Nat) (a : Int) : zeroExtend? a k = some (a % 2 ^ k) := by
  have width : ¬(k : Int) < 0 := by omega
  rw [zeroExtend?, if_neg width, Int.toNat_natCast, zeroExtend, Nat.one_shiftLeft]
  norm_cast

/-- **The unit is arithmetic of words.** Each operation on any integers masks what the operation on unbounded
integers gives; it is the operation of words on the words of its operands, depends on their residues only and
results in a residue. A comparison is one of words, the signed value of an integer is that of its word, and
extensions of each width up to that of words take the low bits of an integer in two's complement or as they
are. -/
theorem word_arithmetic :
    Computes add (· + ·) (· + ·) ∧ Computes subtract (· - ·) (· - ·) ∧
    Computes and Int.land (· &&& ·) ∧ Computes or Int.lor (· ||| ·) ∧
    Computes nor (fun a b => (a.lor b).lnot) (fun x y => ~~~(x ||| y)) ∧
    Computes shiftLeft (fun a n => a <<< (n.land 0x1F).toNat) (fun x n => x <<< (n % 32)) ∧
    Computes shiftRight (fun a n => (a.land 0xFFFFFFFF) >>> (n.land 0x1F).toNat)
      (fun x n => x >>> (n % 32)) ∧
    Compares lessThan BitVec.slt ∧ Compares lessThanUnsigned BitVec.ult ∧
    Compares equal (· == ·) ∧ Compares notEqual (· != ·) ∧
    (∀ a, toUnsigned a = (BitVec.ofInt 32 a).toNat ∧ toUnsigned (a % 0x100000000) = toUnsigned a ∧
      0 ≤ toUnsigned a ∧ toUnsigned a < 0x100000000) ∧
    (∀ a, toSigned a = (BitVec.ofInt 32 a).toInt ∧ toSigned (a % 0x100000000) = toSigned a ∧
      -0x80000000 ≤ toSigned a ∧ toSigned a < 0x80000000) ∧
    ∀ k : Nat, 1 ≤ k → k ≤ 32 → ∀ a : Int,
      signExtend? a k = some ((BitVec.ofInt 32 (a.bmod (2 ^ k))).toNat : Int) ∧
      zeroExtend? a k = some (a % 2 ^ k) := by
  refine ⟨computes_add, computes_subtract, computes_and, computes_or, computes_nor, computes_shiftLeft,
    computes_shiftRight, compares_of_words lessThan_eq, compares_of_words lessThanUnsigned_eq,
    compares_equal, compares_notEqual, fun a => ?_, fun a => ?_, fun k pos le a => ?_⟩
  · exact ⟨toUnsigned_eq a, Int.emod_emod_of_dvd a (dvd_refl _), toUnsigned_nonneg a, toUnsigned_lt a⟩
  · exact ⟨toSigned_eq a, toSigned_residue a, toSigned_bounds a⟩
  · exact ⟨signExtend?_eq pos le a, zeroExtend?_eq k a⟩

/-- Negative operands and a field of five bits whose top bit is set. -/
theorem negative_operands_as_words :
    1 ≤ 5 ∧ 5 ≤ 32 ∧ signExtend? (-0x69) 5 = some 0xFFFFFFF7 ∧ zeroExtend? (-0x69) 5 = some 0x17 ∧
      nor (-0x100000000) 5 = 0xFFFFFFFA ∧ shiftRight (-1) (-1) = 1 := by
  obtain ⟨-, -, -, -, nor, -, shiftRight, -, -, -, -, -, -, extend⟩ := word_arithmetic
  obtain ⟨signed, unsigned⟩ := extend 5 (by decide) (by decide) (-0x69)
  exact ⟨by decide, by decide, signed.trans (by decide), unsigned.trans (by decide),
    (nor.words _ _).trans (by decide), (shiftRight.words _ _).trans (by decide)⟩

end Alu

end PocketMips
