import PocketMips.Number.Literal
import PocketMips.Text.Quoted

/-!
What can be wrong with an assembly text.
-/
namespace PocketMips.Assembly

open Number Text

/-- The cause of a rejection. -/
inductive Cause
  | unknownInstruction (name : List Char)
  | operandCount (name : String) (expected got : Nat)
  | malformedAddress (operand : List Char)
  | undefinedLabel (label : List Char)
  | duplicateLabel (label : List Char)
  | invalidLabel (label : List Char)
  | invalidNumber (token : List Char)
  | invalidRegister (token : List Char)
  | registerOutOfRange (token : List Char)
  | malformedWord
  | wideWord
  deriving DecidableEq, Repr

def Cause.message : Cause → String
  | .unknownInstruction name => "unknown instruction: " ++ String.ofList name
  | .operandCount name expected got => s!"{name} expects {expected} operand(s), got {got}"
  | .malformedAddress operand =>
    "malformed memory operand, expected offset(base): " ++ String.ofList operand
  | .undefinedLabel label => "undefined label: " ++ String.ofList label
  | .duplicateLabel label => "duplicate label: " ++ String.ofList label
  | .invalidLabel label => "invalid label: " ++ String.ofList (quoted label)
  | .invalidNumber token => "invalid number: " ++ String.ofList token
  | .invalidRegister token => "invalid register: " ++ String.ofList token
  | .registerOutOfRange token => "register number out of range: " ++ String.ofList token
  | .malformedWord => "expected 32-bit binary or 0x hex word"
  | .wideWord => "word wider than 32 bits"

/-- Where a text was rejected: the number of the line, counted from one, and its text. -/
structure Place where
  number : Nat
  line : List Char
  deriving DecidableEq, Repr

/-- Why a text is not assembled. -/
inductive Error
  /-- The text is rejected, at a line once the line is known. -/
  | rejected (cause : Cause) (place : Option Place)
  /-- A register number is made of digits that are no literal. -/
  | literal (e : LiteralError)
  deriving DecidableEq, Repr

namespace Error

/-- The message of a cause at a place. -/
def messageAt (cause : Cause) : Option Place → String
  | none => cause.message
  | some p => s!"line {p.number}: {cause.message} (" ++ String.ofList (quoted p.line) ++ ")"

def message : Error → String
  | rejected cause place => messageAt cause place
  | literal e => e.message

/-- The error with its rejection placed at a line. -/
def locate (p : Place) : Error → Error
  | rejected cause _ => rejected cause (some p)
  | literal e => literal e

end Error

/-- A rejection whose line is not known. -/
def reject {α : Type} (cause : Cause) : Except Error α := .error (.rejected cause none)

end PocketMips.Assembly
