import PocketMips.Assembly
import PocketMips.Proofs.Outcome

/-!
# Encoding instruction texts

An instruction text is encoded if it names an operation, has as many operands as the operation takes and
the operands have a word.
-/
namespace PocketMips.Assembly

open Text

variable {labels : Labels} {address l : Int} {text : List Char} {w : Word} {op : Operation}
  {operands : List (List Char)}

/-- What stands between operands. -/
def isSeparator (c : Char) : Bool := isBlank c || c = ','

/-- The tokens of a text are its first word and the fields behind it. -/
theorem tokens_eq (text : List Char) :
    tokens text = (text.takeWhile (!isBlank ·), fields isSeparator (text.dropWhile (!isBlank ·))) := by
  have rest : text.drop (text.takeWhile (!isBlank ·)).length = text.dropWhile (!isBlank ·) :=
    (congrArg (List.drop _) List.takeWhile_append_dropWhile.symm).trans List.drop_left
  rw [← rest]
  rfl

/-- The operation that an instruction text names, with its operands. -/
def instruction? (text : List Char) : Option (Operation × List (List Char)) :=
  (Operation.ofName? (fold (tokens text).1)).map fun op => (op, joinAddress op (tokens text).2)

/-- The word of the operands of an operation. -/
def encodeOperands (labels : Labels) (address : Int) (op : Operation) (operands : List (List Char)) :
    Except Error Word :=
  match op with
  | .r op => encodeR op operands
  | .i op => encodeI labels address op operands
  | .j op => encodeJ labels op operands

theorem encode_eq (labels : Labels) (address : Int) (text : List Char) : encode labels address text =
    match instruction? text with
    | none => reject (.unknownInstruction (tokens text).1)
    | some (op, operands) =>
      if operands.length ≠ operandCount op then
        reject (.operandCount op.name (operandCount op) operands.length)
      else encodeOperands labels address op operands := by
  cases named : Operation.ofName? (fold (tokens text).1) with
  | none => simp only [encode, instruction?, named, Option.map_none]
  | some op =>
    simp only [encode, instruction?, named, Option.map_some]
    cases op <;> rfl

theorem encode_of_instruction? (h : instruction? text = some (op, operands))
    (count : operands.length = operandCount op) :
    encode labels address text = encodeOperands labels address op operands := by
  rw [encode_eq, h]
  exact if_neg fun ne => ne count

theorem encode_eq_ok (h : encode labels address text = .ok w) :
    ∃ op operands, instruction? text = some (op, operands) ∧ operands.length = operandCount op ∧
      encodeOperands labels address op operands = .ok w := by
  rw [encode_eq] at h
  split at h
  · cases h
  · rename_i op operands instr
    split at h
    · cases h
    · rename_i count
      exact ⟨op, operands, instr, Decidable.of_not_not count, h⟩

theorem encodeR_three (op : ROp) (a b c : List Char) : encodeR op [a, b, c] =
    register a >>= fun rd =>
      if op.isShift then register b >>= fun rt => number c >>= fun shamt =>
        .ok (Instruction.encodeR 0 rt.toNat rd.toNat shamt op.funct.toNat 0)
      else register b >>= fun rs => register c >>= fun rt =>
        .ok (Instruction.encodeR rs.toNat rt.toNat rd.toNat 0 op.funct.toNat 0) := by
  cases op <;> rfl

/-! ## Operands that are labels -/

theorem target_of_label {name : List Char} (bound : labels.address? name = some l)
    (ofAddress : Int → Int) : target labels name ofAddress = .ok (ofAddress l) := by
  rw [target, bound]

/-- A branch to a label holds the distance to it from the next instruction, in words. -/
theorem encodeI_label {op : IOp} (branch : op.isBranch = true) {s t name : List Char}
    (bound : labels.address? name = some l) (made : encodeI labels address op [s, t, name] = .ok w) :
    ∃ rs rt : Register, register s = .ok rs ∧ register t = .ok rt ∧
      w = Instruction.encodeI op.opcode.toNat rs.toNat rt.toNat ((l - (address + 4)) / 4) := by
  rw [encodeI, if_pos branch] at made
  obtain ⟨rs, first, made⟩ := bind_eq_ok.mp made
  obtain ⟨rt, second, made⟩ := bind_eq_ok.mp made
  obtain ⟨offset, third, made⟩ := bind_eq_ok.mp made
  rw [target_of_label bound] at third
  cases third
  exact ⟨rs, rt, first, second, (pure_eq_ok.mp made).symm⟩

/-- A jump to a label holds its address, in words. -/
theorem encodeJ_label {op : JOp} {name : List Char} (bound : labels.address? name = some l)
    (made : encodeJ labels op [name] = .ok w) : w = Instruction.encodeJ op.opcode.toNat (l / 4) := by
  rw [encodeJ] at made
  obtain ⟨field, first, made⟩ := bind_eq_ok.mp made
  rw [target_of_label bound] at first
  cases first
  exact (pure_eq_ok.mp made).symm

end PocketMips.Assembly
