/-!
Binary floating-point numbers of 64 bits as exact data: the bits, the dyadic rational they stand for,
and rounding of an exact quotient to the nearest of them with ties to the even significand.
-/
namespace PocketMips.Number

/-- A binary floating-point number, held as its interchange bits. -/
structure Binary64 where
  bits : BitVec 64
  deriving DecidableEq, Repr

namespace Binary64

/-- What the bits of a number stand for. -/
inductive Content
  /-- No number. -/
  | nan
  /-- An infinity. -/
  | infinite (negative : Bool)
  /-- The number `±significand * 2 ^ exponent`. -/
  | finite (negative : Bool) (significand : Nat) (exponent : Int)
  deriving DecidableEq, Repr

/-- The sign bit. -/
def negative (x : Binary64) : Bool := x.bits.msb

/-- Reads the fields of a number. -/
def content (x : Binary64) : Content :=
  let fraction := (x.bits.setWidth 52).toNat
  let biased := ((x.bits >>> 52).setWidth 11).toNat
  if biased = 2047 then
    if fraction = 0 then .infinite x.negative else .nan
  else if biased = 0 then .finite x.negative fraction (-1074)
  else .finite x.negative (1 <<< 52 + fraction) (biased - 1075)

/-- The bits of the infinity without its sign. -/
def infinityBits : Nat := 2047 <<< 52

/-- The bits of what is no number, without a sign. -/
def nanBits : Nat := 4095 <<< 51

/-- The number with given sign and remaining bits. -/
def ofSignBits (negative : Bool) (magnitude : Nat) : Binary64 :=
  ⟨BitVec.ofNat 64 ((if negative then 1 <<< 63 else 0) + magnitude)⟩

/-- Zero. -/
def zero : Binary64 := ⟨0⟩

instance : Inhabited Binary64 := ⟨zero⟩

/-- The quotient rounded to an integer, ties to the even one. -/
def roundEven (num den : Nat) : Nat :=
  let q := num / den
  let r := num % den
  if 2 * r < den then q
  else if den < 2 * r then q + 1
  else q + q % 2

/-- The quotient `num / (den * 2 ^ e)` as a pair of naturals. -/
def scaled (num den : Nat) (e : Int) : Nat × Nat :=
  if 0 ≤ e then (num, den <<< e.toNat) else (num <<< (-e).toNat, den)

/-- The exponent at which a positive quotient has a significand of 53 bits, or the least exponent. -/
def exponentFor (num den : Nat) : Int :=
  let guess : Int := (num.log2 : Int) - (den.log2 : Int) - 52
  let (n, d) := scaled num den guess
  max (if n / d < 1 <<< 52 then guess - 1 else guess) (-1074)

/-- The magnitude bits of the number nearest to a quotient; one past the infinity if too large. -/
def magnitudeBits (num den : Nat) : Nat :=
  if num = 0 then 0
  else
    let e := exponentFor num den
    let (n, d) := scaled num den e
    min ((e + 1074).toNat <<< 52 + roundEven n d) infinityBits

/-- The number nearest to `±num / den`, an infinity if the magnitude is too large. -/
def nearest (negative : Bool) (num den : Nat) : Binary64 :=
  ofSignBits negative (magnitudeBits num den)

/-- The number nearest to a quotient of integers with a positive divisor, if one is near enough. -/
def ofQuotient? (num : Int) (den : Nat) : Option Binary64 :=
  if magnitudeBits num.natAbs den = infinityBits then none
  else some (nearest (num < 0) num.natAbs den)

/-- The number nearest to an integer, if one is near enough. -/
def ofInt? (i : Int) : Option Binary64 := ofQuotient? i 1

/-- The exact value of a finite number as a quotient of naturals. -/
def fraction (significand : Nat) (exponent : Int) : Nat × Nat :=
  if 0 ≤ exponent then (significand <<< exponent.toNat, 1) else (significand, 1 <<< (-exponent).toNat)

/-- The product with an exact positive natural number, rounded. -/
def scale (x : Binary64) (factor : Nat) : Binary64 :=
  match x.content with
  | .finite neg m e =>
    let (n, d) := fraction m e
    nearest neg (n * factor) d
  | _ => x

/-- What is no number, with the given sign bit. -/
def nan (negative : Bool) : Binary64 := ofSignBits negative nanBits

/-- A finite number as a multiple of a power of two. -/
def signed (negative : Bool) (significand : Nat) : Int :=
  if negative then -significand else significand

/-- The sum, rounded. -/
def add (x y : Binary64) : Binary64 :=
  match x.content, y.content with
  | .nan, _ => x
  | _, .nan => y
  | .infinite a, .infinite b => if a = b then x else nan true
  | .infinite _, _ => x
  | _, .infinite _ => y
  | .finite a m e, .finite b n f =>
    let low := min e f
    let sum := signed a (m <<< (e - low).toNat) + signed b (n <<< (f - low).toNat)
    if sum = 0 then ofSignBits (a && b) 0
    else
      let (num, den) := fraction sum.natAbs low
      nearest (sum < 0) num den

/-- The product, rounded. -/
def mul (x y : Binary64) : Binary64 :=
  let negative := x.negative != y.negative
  match x.content, y.content with
  | .nan, _ => x
  | _, .nan => y
  | .infinite _, .finite _ n _ => if n = 0 then nan true else ofSignBits negative infinityBits
  | .finite _ m _, .infinite _ => if m = 0 then nan true else ofSignBits negative infinityBits
  | .infinite _, .infinite _ => ofSignBits negative infinityBits
  | .finite _ m e, .finite _ n f =>
    let (num, den) := fraction (m * n) (e + f)
    nearest negative num den

/-- Whether it is no number. -/
def isNan (x : Binary64) : Bool := x.content = .nan

/-- Whether a number is less than zero. -/
def isNegative (x : Binary64) : Bool :=
  match x.content with
  | .nan => false
  | .infinite negative => negative
  | .finite negative m _ => negative && m ≠ 0

/-- Whether a number is a natural number or more than it. -/
def atLeast (x : Binary64) (n : Nat) : Bool :=
  match x.content with
  | .nan => false
  | .infinite negative => !negative
  | .finite negative m e =>
    let (num, den) := fraction m e
    if negative then n = 0 && m = 0 else n * den ≤ num

/-- The integer that a number is, if it is one. -/
def integer? (x : Binary64) : Option Int :=
  match x.content with
  | .finite negative m e =>
    let (num, den) := fraction m e
    if num % den = 0 then some (signed negative (num / den)) else none
  | _ => none

/-- One over the number, rounded; nothing for zero, infinities and what is no number. -/
def inverse? (x : Binary64) : Option Binary64 :=
  match x.content with
  | .finite neg m e =>
    if m = 0 then none
    else
      let (n, d) := fraction m e
      some (nearest neg d n)
  | _ => none

/-- Whether the number is less than a positive finite one. -/
def ltPositive (x bound : Binary64) : Bool :=
  match x.content with
  | .nan => false
  | .infinite neg => neg
  | .finite neg _ _ => neg || x.bits.toNat < bound.bits.toNat

end Binary64

end PocketMips.Number
