import PocketMips.Assembly.Encode
import PocketMips.Text.Lines

/-!
Assembly in two passes: labels are bound to addresses, then every instruction line becomes a word.
-/
namespace PocketMips.Assembly

open Text

/-- Encodes the lines from an index and an address on under a complete label map. -/
def encodeFrom (labels : Labels) (index : Nat) (address : Int) :
    List (List Char) → Except Error (List Word)
  | [] => .ok []
  | line :: lines =>
    let text := clean line
    if text = [] then encodeFrom labels (index + 1) address lines
    else
      match splitLabel text with
      | .error e => .error (e.locate (placeOf index line))
      | .ok (_, []) => encodeFrom labels (index + 1) address lines
      | .ok (_, rest) =>
        match encode labels address rest with
        | .error e => .error (e.locate (placeOf index line))
        | .ok w =>
          match encodeFrom labels (index + 1) (address + 4) lines with
          | .error e => .error e
          | .ok ws => .ok (w :: ws)

/-- Assembles lines at a base address; the label map stays also if the assembly fails. -/
def assembleLines (base : Int) (lines : List (List Char)) : Labels × Except Error (List Word) :=
  match bindLabels base lines with
  | (labels, .error e) => (labels, .error e)
  | (labels, .ok ()) => (labels, encodeFrom labels 0 base lines)

/-- The text of a program: one text, or its lines. -/
inductive Source
  | text (cs : List Char)
  | lines (ls : List (List Char))
  deriving DecidableEq, Repr

/-- The lines of a program text. -/
def Source.toLines : Source → List (List Char)
  | .text cs => Text.lines cs
  | .lines ls => ls

/-- Assembles a program at a base address. -/
def assemble (base : Int) (source : Source) : Labels × Except Error (List Word) :=
  assembleLines base source.toLines

end PocketMips.Assembly
