import PocketMips.Word

/-!
The arithmetic and logic unit over integers. Operands may be any integers; an operation depends only on
their residues modulo 2 ^ 32, and its result is such a residue, so sums and shifts wrap around.
-/
namespace PocketMips.Alu

/-- The count of words. -/
def modulus : Int := 0x100000000

/-- The residue that a register holds for an integer. -/
def toUnsigned (a : Int) : Int := a % modulus

/-- The integer in two's complement that the residue stands for. -/
def toSigned (a : Int) : Int :=
  if toUnsigned a < modulus / 2 then toUnsigned a else toUnsigned a - modulus

def add (a b : Int) : Int := toUnsigned (a + b)

def subtract (a b : Int) : Int := toUnsigned (a - b)

def and (a b : Int) : Int := ((toUnsigned a).toNat &&& (toUnsigned b).toNat : Nat)

def or (a b : Int) : Int := ((toUnsigned a).toNat ||| (toUnsigned b).toNat : Nat)

/-- The complement of the disjunction: subtracting from the word of ones flips every bit. -/
def nor (a b : Int) : Int := modulus - 1 - or a b

/-- Shifts left by the amount modulo 32. -/
def shiftLeft (a amount : Int) : Int :=
  toUnsigned ((toUnsigned a).toNat <<< (amount % 32).toNat : Nat)

/-- Shifts right by the amount modulo 32, filling with zeros. -/
def shiftRight (a amount : Int) : Int :=
  ((toUnsigned a).toNat >>> (amount % 32).toNat : Nat)

def lessThan (a b : Int) : Bool := toSigned a < toSigned b

def lessThanUnsigned (a b : Int) : Bool := toUnsigned a < toUnsigned b

def equal (a b : Int) : Bool := toUnsigned a = toUnsigned b

def notEqual (a b : Int) : Bool := !equal a b

/-- The low bits of an integer. -/
def zeroExtend (bits : Nat) (a : Int) : Int := a % (1 <<< bits : Nat)

/-- The low bits of an integer, their top one copied into the higher bits of a word. -/
def signExtend (bits : Nat) (a : Int) : Int :=
  let low := (zeroExtend bits a).toNat
  if low.testBit (bits - 1) then (low ||| (0xFFFFFFFF ^^^ (1 <<< bits - 1)) : Nat) else low

/-- The low bits of an integer, for a width that has them. -/
def zeroExtend? (a bits : Int) : Option Int :=
  if bits < 0 then none else some (zeroExtend bits.toNat a)

/-- Sign extension, for a width that has a top bit. -/
def signExtend? (a bits : Int) : Option Int :=
  if bits < 1 then none else some (signExtend bits.toNat a)

theorem toUnsigned_nonneg (a : Int) : 0 ≤ toUnsigned a :=
  Int.emod_nonneg _ (by decide)

theorem toUnsigned_lt (a : Int) : toUnsigned a < modulus :=
  Int.emod_lt_of_pos _ (by decide)

theorem toUnsigned_eq (a : Int) : toUnsigned a = (BitVec.ofInt 32 a).toNat := by
  rw [BitVec.toNat_ofInt]
  have := toUnsigned_nonneg a
  simp only [toUnsigned, modulus] at *
  omega

end PocketMips.Alu
