import PocketMips.Assembly.Error
import PocketMips.Number.Literal
import PocketMips.Text.Lines
import PocketMips.Word

/-!
Machine code as text: one word a line, as 32 binary digits or in hexadecimal behind its mark. A `#` starts
a comment, and lines without a word are skipped.
-/
namespace PocketMips.CodeText

open Assembly Number Text

/-- The line without its comment and the blanks around it. -/
def clean (line : List Char) : List Char := trim (cut '#' line).1

/-- Whether a line is a word in binary. -/
def isBinary (line : List Char) : Bool :=
  line.length = 32 && line.all fun c => c = '0' || c = '1'

/-- The number that a line stands for. -/
def number? (line : List Char) : Option Int :=
  if fold (line.take 2) = ['0', 'x'] then (literal .sixteen line).toOption
  else if isBinary line then some (ofDigits 2 (line.map fun c => if c = '1' then 1 else 0))
  else none

/-- The word that a line stands for. -/
def word (line : List Char) : Except Cause Word :=
  match number? line with
  | none => .error .malformedWord
  | some n => if n ≤ 0xFFFFFFFF then .ok (BitVec.ofInt 32 n) else .error .wideWord

/-- The words of lines, the first of which has the given number. -/
def wordsFrom (number : Nat) : List (List Char) → Except Error (List Word)
  | [] => .ok []
  | line :: lines =>
    let text := clean line
    if text = [] then wordsFrom (number + 1) lines
    else
      match word text with
      | .error cause => .error (.rejected cause (some ⟨number, text⟩))
      | .ok w => (wordsFrom (number + 1) lines).map (w :: ·)

/-- The words of a text. -/
def words (text : List Char) : Except Error (List Word) :=
  wordsFrom 1 (pieces (· = '\n') text)

/-- How words are written. -/
inductive Style
  | binary
  | hexadecimal
  deriving DecidableEq, Repr

/-- A word as a line shows it. -/
def line (style : Style) (w : Int) : List Char :=
  match style with
  | .binary => padded 2 32 w
  | .hexadecimal => hex 8 w

/-- Words as text. -/
def ofWords (style : Style) (ws : List Int) : List Char :=
  ws.flatMap fun w => line style w ++ ['\n']

end PocketMips.CodeText
