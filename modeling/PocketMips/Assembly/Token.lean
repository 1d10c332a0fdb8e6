import PocketMips.Assembly.Error
import PocketMips.Register

/-!
Tokens of an instruction line: register operands, numbers and label names.
-/
namespace PocketMips.Assembly

open Number Text

/-- The token without one register mark. -/
def unmarked : List Char → List Char
  | '$' :: cs => cs
  | cs => cs

/-- The register of an operand: a name or a number, with or without the mark. -/
def register (token : List Char) : Except Error Register :=
  let name := fold (unmarked (trim token))
  if name ≠ [] ∧ name.all isDigit then
    match literal .ten name with
    | .ok n => if n < 32 then .ok (BitVec.ofInt 5 n) else reject (.registerOutOfRange token)
    | .error e => .error (.literal e)
  else
    match Register.ofName? name with
    | some r => .ok r
    | none => reject (.invalidRegister token)

/-- The number of a token: decimal digits, or hexadecimal ones behind their mark, after an optional
sign. -/
def number (token : List Char) : Except Error Int :=
  let (negative, body) := unsign (fold (trim token))
  let value := match body with
    | '0' :: 'x' :: digits => (literal .sixteen digits).toOption
    | digits => if digits ≠ [] ∧ digits.all isDigit then (literal .ten digits).toOption else none
  match value with
  | some n => .ok (if negative then -n else n)
  | none => reject (.invalidNumber token)

/-- Letters of label names. -/
def isLabelStart (c : Char) : Bool := c.isAlpha || c = '_' || c = '.'

/-- Letters and digits of label names. -/
def isLabelPart (c : Char) : Bool := isLabelStart c || c.isDigit

/-- Whether a text is a label name. -/
def isLabel : List Char → Bool
  | [] => false
  | c :: cs => isLabelStart c && cs.all isLabelPart

/-- The offset and base of a memory operand `offset(base)`. -/
def addressParts? (operand : List Char) : Option (List Char × List Char) :=
  match cut '(' operand with
  | (_, none) => none
  | (offset, some rest) =>
    match cut ')' rest with
    | (base, some []) =>
      if base ≠ [] ∧ '(' ∉ base ∧ ')' ∉ offset then some (offset, base) else none
    | _ => none

end PocketMips.Assembly
