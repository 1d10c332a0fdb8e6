import PocketMips.Proofs.Encode
import PocketMips.Proofs.Instruction

/-!
# Words without unused fields

An instruction is canonical if it has an operation and zeros in the fields that its listing leaves out.
The assembler makes words of canonical instructions only.
-/
namespace PocketMips

namespace Instruction

/-- The instruction with zeros in the fields that its listing does not show. -/
def canonical : Instruction → Instruction
  | .r rs rt rd shamt funct =>
    match ROp.ofFunct? funct.toNat with
    | some .jr => .r rs 0 0 0 funct
    | op =>
      if (op.map ROp.isShift).getD false then .r 0 rt rd shamt funct else .r rs rt rd 0 funct
  | instr => instr

/-- Nothing but what the listing shows, of an operation that there is. -/
def IsCanonical (instr : Instruction) : Prop :=
  instr.operation?.isSome = true ∧ instr.canonical = instr

end Instruction

namespace Assembly

open Instruction

variable {labels : Labels} {address : Int} {w : Word}

theorem isCanonical_encodeR {op : ROp} {operands : List (List Char)}
    (count : operands.length = operandCount (.r op)) (made : encodeR op operands = .ok w) :
    (decode w).IsCanonical := by
  unfold encodeR at made
  split at made
  · obtain ⟨rs, -, made⟩ := bind_eq_ok.mp made
    cases pure_eq_ok.mp made
    rw [decode_encodeR]
    exact ⟨rfl, rfl⟩
  · obtain ⟨rd, -, made⟩ := bind_eq_ok.mp made
    cases shift : op.isShift with
    | true =>
      rw [shift, if_pos rfl] at made
      obtain ⟨rt, -, made⟩ := bind_eq_ok.mp made
      obtain ⟨shamt, -, made⟩ := bind_eq_ok.mp made
      cases pure_eq_ok.mp made
      rw [decode_encodeR]
      cases op with
      | sll | srl => exact ⟨rfl, rfl⟩
      | _ => cases shift
    | false =>
      rw [shift] at made
      obtain ⟨rs, -, made⟩ := bind_eq_ok.mp made
      obtain ⟨rt, -, made⟩ := bind_eq_ok.mp made
      cases pure_eq_ok.mp made
      rw [decode_encodeR]
      cases op with
      | jr => cases count
      | sll | srl => cases shift
      | _ => exact ⟨rfl, rfl⟩
  · cases made

theorem isCanonical_i (op : IOp) (rs rt : Register) (immediate : Int) :
    (decode (Instruction.encodeI op.opcode.toNat rs.toNat rt.toNat immediate)).IsCanonical := by
  rw [decode_encodeI op.kind_opcode]
  exact ⟨by rw [operation?, IOp.ofOpcode?_opcode]; rfl, rfl⟩

theorem isCanonical_encodeI {op : IOp} {operands : List (List Char)}
    (made : encodeI labels address op operands = .ok w) : (decode w).IsCanonical := by
  unfold encodeI at made
  split at made
  · split at made
    · obtain ⟨rt, -, made⟩ := bind_eq_ok.mp made
      split at made
      · cases made
      · simp only at made
        split at made
        all_goals
          obtain ⟨offset, -, made⟩ := bind_eq_ok.mp made
          obtain ⟨rs, -, made⟩ := bind_eq_ok.mp made
          cases pure_eq_ok.mp made
          exact isCanonical_i op rs rt offset
    · cases made
  · split at made
    · obtain ⟨rs, -, made⟩ := bind_eq_ok.mp made
      obtain ⟨rt, -, made⟩ := bind_eq_ok.mp made
      obtain ⟨offset, -, made⟩ := bind_eq_ok.mp made
      cases pure_eq_ok.mp made
      exact isCanonical_i op rs rt offset
    · obtain ⟨rt, -, made⟩ := bind_eq_ok.mp made
      obtain ⟨rs, -, made⟩ := bind_eq_ok.mp made
      obtain ⟨immediate, -, made⟩ := bind_eq_ok.mp made
      cases pure_eq_ok.mp made
      exact isCanonical_i op rs rt immediate
  · cases made

theorem isCanonical_encodeJ {op : JOp} {operands : List (List Char)}
    (made : encodeJ labels op operands = .ok w) : (decode w).IsCanonical := by
  unfold encodeJ at made
  split at made
  · obtain ⟨field, -, made⟩ := bind_eq_ok.mp made
    cases pure_eq_ok.mp made
    rw [decode_encodeJ op.kind_opcode]
    exact ⟨by rw [operation?, JOp.ofOpcode?_opcode]; rfl, rfl⟩
  · cases made

/-- The assembler makes supported words, and leaves the fields zero that their listings do not show. -/
theorem isCanonical_of_encode {text : List Char} (made : encode labels address text = .ok w) :
    (decode w).IsCanonical := by
  obtain ⟨op, operands, -, count, made⟩ := encode_eq_ok made
  cases op with
  | r op => exact isCanonical_encodeR count made
  | i op => exact isCanonical_encodeI made
  | j op => exact isCanonical_encodeJ made

end Assembly

end PocketMips
