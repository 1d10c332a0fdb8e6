import PocketMips.Instruction
import PocketMips.Number.Radix

/-!
Instructions as assembly text.
-/
namespace PocketMips.Instruction

open Number

/-- An operation with its operands. -/
def line (name : String) (operands : List (List Char)) : List Char :=
  name.toList ++ ' ' :: [',', ' '].intercalate operands

/-- The text of an instruction. -/
def listing (instr : Instruction) : List Char :=
  let reg := fun r : Register => r.name.toList
  match instr with
  | .r rs rt rd shamt funct =>
    match ROp.ofFunct? funct.toNat with
    | some .jr => line ROp.jr.name [reg rs]
    | op =>
      if (op.map ROp.isShift).getD false then
        line instr.mnemonic [reg rd, reg rt, decimal shamt.toNat]
      else line instr.mnemonic [reg rd, reg rs, reg rt]
  | .i opcode rs rt immediate =>
    let op := IOp.ofOpcode? opcode.toNat
    let number := decimal (signed immediate)
    if (op.map IOp.isMemory).getD false then
      line instr.mnemonic [reg rt, number ++ '(' :: reg rs ++ [')']]
    else if (op.map IOp.isBranch).getD false then line instr.mnemonic [reg rs, reg rt, number]
    else if (op.map IOp.isZeroExtended).getD false then
      line instr.mnemonic [reg rt, reg rs, decimal immediate.toNat]
    else line instr.mnemonic [reg rt, reg rs, number]
  | .j _ target => line instr.mnemonic [hex 7 target.toNat]

/-- The text of a word. -/
def disassemble (w : Word) : List Char := (decode w).listing

/-- The word of an instruction in hexadecimal. -/
def hexText (instr : Instruction) : String := hexWord instr.toWord.toNat

end PocketMips.Instruction
