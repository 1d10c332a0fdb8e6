/-!
The instruction set: the three classes of instructions and the operations of each, with their names
and codes.
-/
namespace PocketMips

/-- The class of an instruction. -/
inductive Kind
  /-- Operands in registers, chosen by the function code. -/
  | r
  /-- One operand in the instruction word. -/
  | i
  /-- A jump target in the instruction word. -/
  | j
  deriving DecidableEq, Repr

namespace Kind

/-- The class of an opcode; every opcode has one. -/
def ofOpcode (opcode : Int) : Kind :=
  if opcode = 0 then .r else if opcode = 2 ∨ opcode = 3 then .j else .i

/-- The letter of a class. -/
def letter : Kind → String
  | .r => "R"
  | .i => "I"
  | .j => "J"

/-- The class of a letter. -/
def ofLetter? (s : String) : Option Kind :=
  [r, i, j].find? (·.letter = s)

end Kind

/-- Operations on registers. -/
inductive ROp
  | add | sub | and | or | nor | sll | srl | slt | sltu | jr
  deriving DecidableEq, Repr

/-- Operations with an immediate operand. -/
inductive IOp
  | addi | andi | ori | slti | sltiu | lw | lh | lb | lhu | sw | sh | sb | beq | bne
  deriving DecidableEq, Repr

/-- Jumps to a target in the instruction word. -/
inductive JOp
  | j | jal
  deriving DecidableEq, Repr

namespace ROp

def all : List ROp := [add, sub, and, or, nor, sll, srl, slt, sltu, jr]

/-- The function code. -/
def funct : ROp → BitVec 6
  | add => 0x20
  | sub => 0x22
  | and => 0x24
  | or => 0x25
  | nor => 0x27
  | sll => 0x00
  | srl => 0x02
  | slt => 0x2A
  | sltu => 0x2B
  | jr => 0x08

def name : ROp → String
  | add => "add"
  | sub => "sub"
  | and => "and"
  | or => "or"
  | nor => "nor"
  | sll => "sll"
  | srl => "srl"
  | slt => "slt"
  | sltu => "sltu"
  | jr => "jr"

/-- The operation of a function code. -/
def ofFunct? (funct : Int) : Option ROp := all.find? fun op => (op.funct.toNat : Int) = funct

/-- The operation of a name. -/
def ofName? (cs : List Char) : Option ROp := all.find? (·.name.toList = cs)

/-- Shifts take their amount from the instruction word. -/
def isShift : ROp → Bool
  | sll | srl => true
  | _ => false

end ROp

/-- What an operation with an immediate operand does. -/
inductive IOp.Form
  /-- Combines a register with the immediate. -/
  | compute
  /-- Loads bytes, possibly as a signed number. -/
  | load (width : Nat) (signed : Bool)
  /-- Stores the low bytes of a register. -/
  | store (width : Nat)
  /-- Branches if two registers are equal, or if they are not. -/
  | branch (onEqual : Bool)
  deriving DecidableEq, Repr

namespace IOp

def all : List IOp := [addi, andi, ori, slti, sltiu, lw, lh, lb, lhu, sw, sh, sb, beq, bne]

def opcode : IOp → BitVec 6
  | addi => 0x08
  | andi => 0x0C
  | ori => 0x0D
  | slti => 0x0A
  | sltiu => 0x0B
  | lw => 0x23
  | lh => 0x21
  | lb => 0x20
  | lhu => 0x25
  | sw => 0x2B
  | sh => 0x29
  | sb => 0x28
  | beq => 0x04
  | bne => 0x05

def name : IOp → String
  | addi => "addi"
  | andi => "andi"
  | ori => "ori"
  | slti => "slti"
  | sltiu => "sltiu"
  | lw => "lw"
  | lh => "lh"
  | lb => "lb"
  | lhu => "lhu"
  | sw => "sw"
  | sh => "sh"
  | sb => "sb"
  | beq => "beq"
  | bne => "bne"

/-- The operation of an opcode. -/
def ofOpcode? (opcode : Int) : Option IOp := all.find? fun op => (op.opcode.toNat : Int) = opcode

/-- The operation of a name. -/
def ofName? (cs : List Char) : Option IOp := all.find? (·.name.toList = cs)

def form : IOp → Form
  | lw => .load 4 false
  | lh => .load 2 true
  | lb => .load 1 true
  | lhu => .load 2 false
  | sw => .store 4
  | sh => .store 2
  | sb => .store 1
  | beq => .branch true
  | bne => .branch false
  | _ => .compute

/-- Whether the operand is an address written as an offset and a base register. -/
def isMemory (op : IOp) : Bool :=
  match op.form with
  | .load _ _ | .store _ => true
  | _ => false

def isBranch (op : IOp) : Bool :=
  match op.form with
  | .branch _ => true
  | _ => false

/-- Whether the immediate is a bit pattern and not a signed number. -/
def isZeroExtended : IOp → Bool
  | andi | ori => true
  | _ => false

end IOp

namespace JOp

def all : List JOp := [j, jal]

def opcode : JOp → BitVec 6
  | j => 0x02
  | jal => 0x03

def name : JOp → String
  | j => "j"
  | jal => "jal"

/-- The operation of an opcode. -/
def ofOpcode? (opcode : Int) : Option JOp := all.find? fun op => (op.opcode.toNat : Int) = opcode

/-- The operation of a name. -/
def ofName? (cs : List Char) : Option JOp := all.find? (·.name.toList = cs)

end JOp

/-- An operation of any class. -/
inductive Operation
  | r (op : ROp)
  | i (op : IOp)
  | j (op : JOp)
  deriving DecidableEq, Repr

namespace Operation

/-- The operation of a name. -/
def ofName? (cs : List Char) : Option Operation :=
  ((ROp.ofName? cs).map .r).or (((IOp.ofName? cs).map .i).or ((JOp.ofName? cs).map .j))

def name : Operation → String
  | .r op => op.name
  | .i op => op.name
  | .j op => op.name

end Operation

/-- The name shown for a code without an operation. -/
def unknownName : String := "unknown"

theorem ROp.mem_all (op : ROp) : op ∈ ROp.all := by cases op <;> decide

theorem IOp.mem_all (op : IOp) : op ∈ IOp.all := by cases op <;> decide

theorem JOp.mem_all (op : JOp) : op ∈ JOp.all := by cases op <;> decide

theorem ROp.ofFunct?_funct (op : ROp) : ROp.ofFunct? op.funct.toNat = some op := by
  cases op <;> decide

theorem IOp.ofOpcode?_opcode (op : IOp) : IOp.ofOpcode? op.opcode.toNat = some op := by
  cases op <;> decide

theorem JOp.ofOpcode?_opcode (op : JOp) : JOp.ofOpcode? op.opcode.toNat = some op := by
  cases op <;> decide

end PocketMips
