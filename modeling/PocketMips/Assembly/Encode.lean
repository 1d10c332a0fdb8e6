import PocketMips.Assembly.Line
import PocketMips.Instruction

/-!
Instruction lines encoded as words.
-/
namespace PocketMips.Assembly

open Text

/-- The count of operands of an operation. -/
def operandCount : Operation → Nat
  | .r .jr => 1
  | .r _ => 3
  | .i op => if op.isMemory then 2 else 3
  | .j _ => 1

/-- The operands of an operation, an address written in pieces being put together. -/
def joinAddress (op : Operation) (operands : List (List Char)) : List (List Char) :=
  match op, operands with
  | .i iop, first :: second :: third :: more =>
    if iop.isMemory then [first, (second :: third :: more).flatten] else operands
  | _, _ => operands

/-- A register-class instruction. -/
def encodeR (op : ROp) (operands : List (List Char)) : Except Error Word :=
  match op, operands with
  | .jr, [a] => do
    let rs ← register a
    return Instruction.encodeR rs.toNat 0 0 0 op.funct.toNat 0
  | _, [a, b, c] => do
    let rd ← register a
    if op.isShift then
      let rt ← register b
      let shamt ← number c
      return Instruction.encodeR 0 rt.toNat rd.toNat shamt op.funct.toNat 0
    else
      let rs ← register b
      let rt ← register c
      return Instruction.encodeR rs.toNat rt.toNat rd.toNat 0 op.funct.toNat 0
  | _, _ => reject (.operandCount op.name (operandCount (.r op)) operands.length)

/-- A load or a store. -/
def encodeAddress (op : IOp) (a b : List Char) : Except Error Word := do
  let rt ← register a
  match addressParts? b with
  | none => reject (.malformedAddress b)
  | some (offset, base) =>
    let offset := trim offset
    let offset ← if offset = [] then pure 0 else number offset
    let rs ← register base
    return Instruction.encodeI op.opcode.toNat rs.toNat rt.toNat offset

/-- What the target of a branch or jump stands for: a label's address or a number. -/
def target (labels : Labels) (token : List Char) (ofAddress : Int → Int) : Except Error Int :=
  match labels.address? token with
  | some a => .ok (ofAddress a)
  | none => if isLabel token then reject (.undefinedLabel token) else number token

/-- An immediate-class instruction at an address. Branch offsets count words from the next
instruction. -/
def encodeI (labels : Labels) (address : Int) (op : IOp) (operands : List (List Char)) :
    Except Error Word :=
  match operands with
  | [a, b] =>
    if op.isMemory then encodeAddress op a b
    else reject (.operandCount op.name (operandCount (.i op)) operands.length)
  | [a, b, c] => do
    if op.isBranch then
      let rs ← register a
      let rt ← register b
      let offset ← target labels c fun l => (l - (address + 4)) / 4
      return Instruction.encodeI op.opcode.toNat rs.toNat rt.toNat offset
    else
      let rt ← register a
      let rs ← register b
      let immediate ← number c
      return Instruction.encodeI op.opcode.toNat rs.toNat rt.toNat immediate
  | _ => reject (.operandCount op.name (operandCount (.i op)) operands.length)

/-- A jump-class instruction. -/
def encodeJ (labels : Labels) (op : JOp) (operands : List (List Char)) : Except Error Word :=
  match operands with
  | [a] => do
    let field ← target labels a fun l => l / 4
    return Instruction.encodeJ op.opcode.toNat field
  | _ => reject (.operandCount op.name (operandCount (.j op)) operands.length)

/-- The first word of an instruction text, and the operands after it. -/
def tokens (text : List Char) : List Char × List (List Char) :=
  let name := text.takeWhile (!isBlank ·)
  (name, fields (fun c => isBlank c || c = ',') (text.drop name.length))

/-- The word of an instruction text at an address. -/
def encode (labels : Labels) (address : Int) (text : List Char) : Except Error Word :=
  let (name, operands) := tokens text
  match Operation.ofName? (fold name) with
  | none => reject (.unknownInstruction name)
  | some op =>
    let operands := joinAddress op operands
    if operands.length ≠ operandCount op then
      reject (.operandCount op.name (operandCount op) operands.length)
    else
      match op with
      | .r op => encodeR op operands
      | .i op => encodeI labels address op operands
      | .j op => encodeJ labels op operands

end PocketMips.Assembly
