import PocketMips.Alu
import PocketMips.Instruction.Set
import PocketMips.Register

/-!
Instructions as the fields of their words. Every word has an instruction: an opcode or function code
outside the instruction set leaves an instruction without an operation.
-/
namespace PocketMips

/-- An instruction, by class, with the fields its class has. -/
inductive Instruction
  | r (rs rt rd : Register) (shamt : BitVec 5) (funct : BitVec 6)
  | i (opcode : BitVec 6) (rs rt : Register) (immediate : BitVec 16)
  | j (opcode : BitVec 6) (target : BitVec 26)
  deriving DecidableEq, Repr

namespace Instruction

/-- The word of register-class fields; every argument is cut to its field. -/
def encodeR (rs rt rd shamt funct opcode : Int) : Word :=
  BitVec.ofInt 6 opcode ++ BitVec.ofInt 5 rs ++ BitVec.ofInt 5 rt ++ BitVec.ofInt 5 rd ++
    BitVec.ofInt 5 shamt ++ BitVec.ofInt 6 funct

/-- The word of immediate-class fields; every argument is cut to its field. -/
def encodeI (opcode rs rt immediate : Int) : Word :=
  BitVec.ofInt 6 opcode ++ BitVec.ofInt 5 rs ++ BitVec.ofInt 5 rt ++ BitVec.ofInt 16 immediate

/-- The word of jump-class fields; every argument is cut to its field. -/
def encodeJ (opcode target : Int) : Word :=
  BitVec.ofInt 6 opcode ++ BitVec.ofInt 26 target

/-- The opcode of a word. -/
def opcodeOf (w : Word) : BitVec 6 := w.extractLsb' 26 6

/-- The function code of a word. -/
def functOf (w : Word) : BitVec 6 := w.extractLsb' 0 6

/-- The instruction of a word. -/
def decode (w : Word) : Instruction :=
  let opcode := opcodeOf w
  match Kind.ofOpcode opcode.toNat with
  | .r => .r (w.extractLsb' 21 5) (w.extractLsb' 16 5) (w.extractLsb' 11 5) (w.extractLsb' 6 5)
      (functOf w)
  | .j => .j opcode (w.extractLsb' 0 26)
  | .i => .i opcode (w.extractLsb' 21 5) (w.extractLsb' 16 5) (w.extractLsb' 0 16)

/-- The word of an instruction. -/
def toWord : Instruction → Word
  | .r rs rt rd shamt funct =>
    encodeR rs.toNat rt.toNat rd.toNat shamt.toNat funct.toNat 0
  | .i opcode rs rt immediate => encodeI opcode.toNat rs.toNat rt.toNat immediate.toNat
  | .j opcode target => encodeJ opcode.toNat target.toNat

def kind : Instruction → Kind
  | .r .. => .r
  | .i .. => .i
  | .j .. => .j

/-- The opcode field; it is zero in the register class. -/
def opcode : Instruction → BitVec 6
  | .r .. => 0
  | .i opcode .. => opcode
  | .j opcode _ => opcode

/-- The operation, if the code has one. -/
def operation? : Instruction → Option Operation
  | .r _ _ _ _ funct => (ROp.ofFunct? funct.toNat).map .r
  | .i opcode .. => (IOp.ofOpcode? opcode.toNat).map .i
  | .j opcode _ => (JOp.ofOpcode? opcode.toNat).map .j

/-- The name of the operation. -/
def mnemonic (instr : Instruction) : String :=
  match instr.operation? with
  | some op => op.name
  | none => unknownName

/-- Whether a word has an operation, read off its codes. -/
def isSupported (w : Word) : Bool :=
  match Kind.ofOpcode (opcodeOf w).toNat with
  | .r => (ROp.ofFunct? (functOf w).toNat).isSome
  | .j => (JOp.ofOpcode? (opcodeOf w).toNat).isSome
  | .i => (IOp.ofOpcode? (opcodeOf w).toNat).isSome

/-- A jump sets the program counter without a condition. -/
def isJump : Instruction → Bool
  | .r _ _ _ _ funct => ROp.ofFunct? funct.toNat = some .jr
  | .i .. => false
  | .j .. => true

/-- A branch sets the program counter under a condition. -/
def isBranch : Instruction → Bool
  | .i opcode .. => ((IOp.ofOpcode? opcode.toNat).map IOp.isBranch).getD false
  | _ => false

/-- The immediate field as a number in two's complement. -/
def signed (immediate : BitVec 16) : Int := Alu.toSigned (Alu.signExtend 16 immediate.toNat)

end Instruction

end PocketMips
