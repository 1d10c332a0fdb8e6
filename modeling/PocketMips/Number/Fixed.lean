import PocketMips.Number.Binary64
import PocketMips.Number.Radix

/-!
Floating-point numbers with a fixed count of decimal places: the exact value is rounded, ties to even.
-/
namespace PocketMips.Number.Binary64

/-- The digits of a count of decimal units, with the point before the last `places` of them. -/
def pointed (places units : Nat) : List Char :=
  let ds := zeroFill (places + 1) (Nat.toDigits 10 units)
  ds.take (ds.length - places) ++ '.' :: ds.drop (ds.length - places)

/-- A number with one or more decimal places. -/
def fixed (places : Nat) (x : Binary64) : List Char :=
  match x.content with
  | .nan => ['n', 'a', 'n']
  | .infinite neg => (if neg then ['-'] else []) ++ ['i', 'n', 'f']
  | .finite neg m e =>
    let (n, d) := fraction m e
    (if neg then ['-'] else []) ++ pointed places (roundEven (n * tens places) d)

end PocketMips.Number.Binary64
