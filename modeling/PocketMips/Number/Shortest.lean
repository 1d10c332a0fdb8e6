import PocketMips.Number.Binary64
import PocketMips.Number.Radix

/-!
The shortest decimal of a floating-point number: the fewest digits that read back as the number, and
of those the nearest to it. Positional notation serves the exponents from -4 to 15.
-/
namespace PocketMips.Number.Binary64

/-- A decimal `digits * 10 ^ scale`. -/
structure Decimal where
  digits : Nat
  scale : Int
  deriving DecidableEq, Repr

/-- The value of a decimal as a quotient of naturals. -/
def Decimal.fraction (d : Decimal) : Nat × Nat :=
  if 0 ≤ d.scale then (d.digits * tens d.scale.toNat, 1) else (d.digits, tens (-d.scale).toNat)

/-- The number nearest to a decimal. -/
def ofDecimal (negative : Bool) (d : Decimal) : Binary64 :=
  let (n, m) := d.fraction
  nearest negative n m

/-- The number nearest to a decimal; far scales need no arithmetic. -/
def ofScaled (negative : Bool) (d : Decimal) : Binary64 :=
  let place := d.scale + (Nat.toDigits 10 d.digits).length
  if d.digits = 0 ∨ place < -400 then ofSignBits negative 0
  else if 400 < place then ofSignBits negative infinityBits
  else ofDecimal negative d

/-- The exponent of ten of the first digit of a positive quotient. -/
def leadingPlace (num den : Nat) : Int :=
  let digits : Nat → Int := fun n => (Nat.toDigits 10 n).length
  let guess := digits num - digits den
  let reached := if 0 ≤ guess then den * tens guess.toNat ≤ num else den ≤ num * tens (-guess).toNat
  if reached then guess else guess - 1

/-- The decimal of a given count of digits that reads back as a positive quotient: of the two next to
it, the nearer one if that reads back, else the other one. -/
def candidate? (num den count : Nat) : Option Decimal :=
  let scale : Int := leadingPlace num den - count + 1
  let (n, d) := if 0 ≤ scale then (num, den * tens scale.toNat) else (num * tens (-scale).toNat, den)
  let near := roundEven n d
  let far := if near = n / d then near + 1 else n / d
  [near, far].findSome? fun units =>
    let (a, b) := Decimal.fraction ⟨units, scale⟩
    if magnitudeBits a b = magnitudeBits num den then some ⟨units, scale⟩ else none

/-- The shortest decimal of a positive quotient. -/
def shortestOf (num den : Nat) : Decimal :=
  ((List.range 17).findSome? fun i => candidate? num den (i + 1)).getD ⟨num / den, 0⟩

/-- Digits in positional notation, the first one standing at the place `place` of ten. -/
def positional (ds : List Char) (place : Int) : List Char :=
  if place < 0 then '0' :: '.' :: List.replicate (-place - 1).toNat '0' ++ ds
  else
    let whole := place.toNat + 1
    let filled := ds ++ List.replicate (whole - ds.length) '0'
    let tail := filled.drop whole
    filled.take whole ++ '.' :: (if tail = [] then ['0'] else tail)

/-- Digits with an exponent of at least two digits. -/
def exponential (ds : List Char) (place : Int) : List Char :=
  let head := ds.take 1 ++ (if ds.length ≤ 1 then [] else '.' :: ds.drop 1)
  head ++ 'e' :: (if place < 0 then '-' else '+') :: zeroFill 2 (Nat.toDigits 10 place.natAbs)

/-- The shortest text of a number. -/
def shortest (x : Binary64) : List Char :=
  match x.content with
  | .nan => ['n', 'a', 'n']
  | .infinite neg => (if neg then ['-'] else []) ++ ['i', 'n', 'f']
  | .finite neg m e =>
    let sign := if neg then ['-'] else []
    if m = 0 then sign ++ ['0', '.', '0']
    else
      let (num, den) := fraction m e
      let d := shortestOf num den
      let all := Nat.toDigits 10 d.digits
      let place := d.scale + all.length - 1
      let ds := (all.reverse.dropWhile (· = '0')).reverse
      sign ++ (if -4 ≤ place ∧ place < 16 then positional ds place else exponential ds place)

end PocketMips.Number.Binary64
