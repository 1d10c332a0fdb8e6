import PocketMips.Number.Literal
import PocketMips.Value.Calendar

/-!
What can be wrong with a YAML text.
-/
namespace PocketMips.Value.Yaml

open Number

/-- Why a YAML text has no value. -/
inductive Error
  /-- The text breaks a rule of the grammar, or a node has no value of its type. -/
  | malformed
  /-- The text ends where it has to go on. -/
  | unfinished
  /-- Collections lie too deep in one another. -/
  | tooDeep
  /-- An escape gives the number of no character. -/
  | badCharacter (code : Nat)
  /-- A scalar is no integer, though it has the type or the look of one. -/
  | literal (e : LiteralError)
  /-- A scalar of floating-point type is no number. -/
  | notFloat (written : List Char)
  /-- A scalar of a number's type is empty. -/
  | emptyNumber
  /-- A scalar of boolean type is no truth value. -/
  | notBoolean
  /-- A scalar with the type of a day or moment is none. -/
  | notTime
  | calendar (e : Calendar.Error)
  deriving DecidableEq, Repr

def Error.message : Error → String
  | badCharacter _ => "chr() arg not in range(0x110000)"
  | literal e => e.message
  | notFloat written =>
    "could not convert string to float: " ++ String.ofList (Text.quoted written)
  | calendar e => e.message
  | malformed | unfinished | tooDeep | emptyNumber | notBoolean | notTime => ""

end PocketMips.Value.Yaml
