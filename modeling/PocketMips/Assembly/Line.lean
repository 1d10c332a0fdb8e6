import PocketMips.Assembly.Token

/-!
Source lines: the comment behind its mark, the label before its colon, and the instruction.
-/
namespace PocketMips.Assembly

open Text

/-- The line without its comment and the blanks around it. -/
def clean (line : List Char) : List Char := trim (cut '#' line).1

/-- The label at the front of a line, if there is one, and the text after it. -/
def splitLabel (line : List Char) : Except Error (Option (List Char) × List Char) :=
  match cut ':' line with
  | (_, none) => .ok (none, line)
  | (before, some rest) =>
    let label := trim before
    if isLabel label then .ok (some label, trim rest) else reject (.invalidLabel label)

/-- Label names with their addresses, in the order in which they were bound. -/
abbrev Labels := List (List Char × Int)

/-- The address of a label. -/
def Labels.address? (labels : Labels) (name : List Char) : Option Int :=
  (labels.find? (·.1 = name)).map (·.2)

/-- The place of the line with an index. -/
def placeOf (index : Nat) (line : List Char) : Place := ⟨index + 1, trim line⟩

/-- Binds the labels of the lines from an index and an address on; an error leaves the labels bound
before it. -/
def bindFrom (labels : Labels) (index : Nat) (address : Int) :
    List (List Char) → Labels × Except Error Unit
  | [] => (labels, .ok ())
  | line :: lines =>
    let text := clean line
    if text = [] then bindFrom labels (index + 1) address lines
    else
      match splitLabel text with
      | .error e => (labels, .error (e.locate (placeOf index line)))
      | .ok (label, rest) =>
        let next := if rest = [] then address else address + 4
        match label with
        | none => bindFrom labels (index + 1) next lines
        | some name =>
          if (labels.address? name).isSome then
            (labels, .error (.rejected (.duplicateLabel name) (some (placeOf index line))))
          else bindFrom (labels ++ [(name, address)]) (index + 1) next lines

/-- Binds the labels of the lines of a program placed at a base address. -/
def bindLabels (base : Int) (lines : List (List Char)) : Labels × Except Error Unit :=
  bindFrom [] 0 base lines

end PocketMips.Assembly
