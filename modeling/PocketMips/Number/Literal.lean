import PocketMips.Text.Blank
import PocketMips.Text.Digit
import PocketMips.Text.Letter
import PocketMips.Text.Quoted
import PocketMips.Number.Shortest

/-!
Number literals: optional blanks, one sign, a radix mark where the radix allows it, digits with single
underscores between them, optional blanks. Decimal digits of every script count, and a decimal integer
may have at most 4300 digits. A floating-point literal may have a fraction and an exponent.
-/
namespace PocketMips.Number

open PocketMips.Text

/-- How the radix of a literal is fixed. -/
inductive Radix
  /-- A mark chooses it; without a mark it is ten, and only zero may start with a zero. -/
  | byMark
  /-- It is two, with or without a mark. -/
  | two
  /-- It is eight, with or without a mark. -/
  | eight
  /-- It is ten. -/
  | ten
  /-- It is sixteen, with or without a mark. -/
  | sixteen
  deriving DecidableEq, Repr

/-- The number that stands for the rule in messages. -/
def Radix.shown : Radix → Nat
  | .byMark => 0
  | .two => 2
  | .eight => 8
  | .ten => 10
  | .sixteen => 16

/-- Why a text is no integer literal. -/
inductive LiteralError
  | malformed (radix : Radix) (text : List Char)
  | tooLong (digits : Nat)
  deriving DecidableEq, Repr

/-- The longest decimal literal. -/
def maxDigits : Nat := 4300

def LiteralError.message : LiteralError → String
  | .malformed radix text =>
    s!"invalid literal for int() with base {radix.shown}: " ++ String.ofList ((quoted text).take 200)
  | .tooLong digits =>
    s!"Exceeds the limit ({maxDigits} digits) for integer string conversion: value has " ++
      s!"{digits} digits; use sys.set_int_max_str_digits() to increase the limit"

/-- The blanks allowed around a literal. -/
def isMargin (c : Char) : Bool :=
  isBlank c && !(0x1C ≤ c.toNat && c.toNat ≤ 0x1F)

/-- The value of a digit, letters counting from ten. -/
def digitValue? (c : Char) : Option Nat :=
  let n := c.toNat
  if 0x61 ≤ n ∧ n ≤ 0x7A then some (n - 0x61 + 10)
  else if 0x41 ≤ n ∧ n ≤ 0x5A then some (n - 0x41 + 10)
  else decimalValue? c

/-- The value of a character as a digit of a radix. -/
def digitIn? (radix : Nat) (c : Char) : Option Nat :=
  (digitValue? c).filter (· < radix)

/-- Reads digits with single underscores between them; every underscore has a digit after it. -/
def digitRun? (radix : Nat) : List Char → Option (List Nat)
  | [] => some []
  | '_' :: cs =>
    match cs with
    | [] => none
    | c :: cs => do
      let d ← digitIn? radix c
      let ds ← digitRun? radix cs
      return d :: ds
  | c :: cs => do
    let d ← digitIn? radix c
    let ds ← digitRun? radix cs
    return d :: ds

/-- The number that digits stand for, the most significant first. -/
def ofDigits (radix : Nat) (ds : List Nat) : Nat :=
  ds.foldl (fun n d => radix * n + d) 0

/-- The mark of a radix at the front of a text: a zero of any script and a letter. -/
def markedRadix? : List Char → Option Nat
  | z :: c :: _ =>
    if decimalValue? z ≠ some 0 then none
    else if c = 'x' ∨ c = 'X' then some 16
    else if c = 'o' ∨ c = 'O' then some 8
    else if c = 'b' ∨ c = 'B' then some 2
    else none
  | _ => none

/-- The radix of an unsigned literal, and its text without the mark and one underscore after it. -/
def unmark (radix : Radix) (cs : List Char) : Nat × List Char :=
  let bare := match cs.drop 2 with
    | '_' :: r => r
    | r => r
  match radix, markedRadix? cs with
  | .byMark, some r => (r, bare)
  | .byMark, none => (10, cs)
  | fixed, marked => if marked = some fixed.shown then (fixed.shown, bare) else (fixed.shown, cs)

/-- Splits the sign off a literal. -/
def unsign : List Char → Bool × List Char
  | '-' :: cs => (true, cs)
  | '+' :: cs => (false, cs)
  | cs => (false, cs)

/-- Reads an integer literal. -/
def literal (radix : Radix) (text : List Char) : Except LiteralError Int :=
  let malformed := Except.error (LiteralError.malformed radix text)
  let (negative, unsigned) := unsign (text.dropWhile isMargin)
  let (base, body) := unmark radix unsigned
  let isDigitPart := fun c => c = '_' || (digitIn? base c).isSome
  let run := body.takeWhile isDigitPart
  let rest := body.dropWhile isDigitPart
  match run.head?, digitRun? base run with
  | some c, some ds =>
    if c = '_' then malformed
    else if base = 10 ∧ maxDigits < ds.length then .error (.tooLong ds.length)
    else if rest.any (!isMargin ·) then malformed
    else
      let n := ofDigits base ds
      if radix = .byMark ∧ base = 10 ∧ ds.head? = some 0 ∧ n ≠ 0 then malformed
      else .ok (if negative then -n else n)
  | _, _ => malformed

/-- The number of a run of digits; of no digits it is zero. -/
def runValue? (cs : List Char) : Option Nat :=
  if cs.head? = some '_' then none else (digitRun? 10 cs).map (ofDigits 10)

/-- The digits of a text. -/
def digitCount (cs : List Char) : Nat := cs.countP (· ≠ '_')

/-- The exponent of a literal, which has digits if it is there. -/
def exponent? : Option (List Char) → Option Int
  | none => some 0
  | some cs => do
    let (negative, ds) := unsign cs
    guard (ds ≠ [])
    let n ← runValue? ds
    return if negative then -n else n

/-- Reads a decimal or special floating-point literal. -/
def floatLiteral? (text : List Char) : Option Binary64 := do
  let (negative, body) := unsign (dropEnd isMargin (text.dropWhile isMargin))
  let word := body.map Char.toLower
  if word = "inf".toList ∨ word = "infinity".toList then
    return Binary64.ofSignBits negative Binary64.infinityBits
  else if word = "nan".toList then
    return Binary64.ofSignBits negative Binary64.nanBits
  else
    let (mantissa, exponent) := cut 'e' word
    let (whole, fraction) := cut '.' mantissa
    let fraction := fraction.getD []
    guard (whole ≠ [] ∨ fraction ≠ [])
    let n ← runValue? whole
    let f ← runValue? fraction
    let e ← exponent? exponent
    let places := digitCount fraction
    return Binary64.ofScaled negative ⟨n * tens places + f, e - places⟩

end PocketMips.Number
