import PocketMips.Image
import PocketMips.Instruction.Listing
import PocketMips.Memory

/-!
The machine: registers, program counter and memory, and the cycle that fetches, decodes and executes one
instruction. The program counter is an integer, since it may be set to any; every cycle leaves a residue
modulo 2 ^ 32 in it.
-/
namespace PocketMips

open Number

/-- The state of the machine; the code of the loaded program lies from `start` up to `stop`. -/
structure Machine where
  registers : RegisterFile
  pc : Int
  memory : Memory
  start : Int
  stop : Int

namespace Machine

/-- Why a cycle fails. -/
inductive Fault
  | memory (f : Memory.Fault)
  | unsupported (word : Word) (pc : Int)
  deriving DecidableEq, Repr

/-- The code that an unsupported word is told by. -/
def codeText (w : Word) : String :=
  if Instruction.opcodeOf w = 0 then
    "funct=" ++ String.ofList (hex 2 (Instruction.functOf w).toNat)
  else "opcode=" ++ String.ofList (hex 2 (Instruction.opcodeOf w).toNat)

def Fault.message : Fault → String
  | .memory f => f.message
  | .unsupported w pc =>
    s!"unsupported instruction {hexWord w.toNat} ({codeText w}) at PC {hexWord pc}"

/-- A machine without a program over a memory. -/
def ofMemory (memory : Memory) : Machine := ⟨.cleared, 0, memory, 0, 0⟩

/-- Clears the registers and returns to the start of the program. -/
def reset (m : Machine) : Machine := { m with registers := .cleared, pc := m.start }

/-- An access to the memory as a step of the machine. -/
def liftMemory {α : Type} (x : Except Memory.Fault α) : Except Fault α :=
  x.mapError .memory

/-- Installs a program image at an address of a cleared memory, with cleared registers and the program
counter at its start. -/
def load (m : Machine) (image : List Byte) (start : Int) : Except Fault Machine := do
  if image ≠ [] then
    liftMemory (m.memory.checkRange start image.length)
  let cleared ← liftMemory m.memory.clear
  let memory ← liftMemory (cleared.writeBytes start image)
  return ⟨.cleared, start, memory, start, start + image.length⟩

/-- Whether the program counter has left the loaded code. -/
def hasFinished (m : Machine) : Bool := !(m.start ≤ m.pc && m.pc < m.stop)

/-- The word at the program counter. -/
def fetch (m : Machine) : Except Fault Word :=
  (liftMemory (m.memory.readWord m.pc)).map (BitVec.ofNat 32)

/-- The number in a register. -/
def get (m : Machine) (r : Register) : Int := (m.registers.get r).toNat

/-- Writes a number to a register. -/
def set (m : Machine) (r : Register) (v : Int) : Machine :=
  { m with registers := m.registers.set r v }

/-- One or zero. -/
def flag (b : Bool) : Int := if b then 1 else 0

/-- The number that a register operation computes; a jump to a register computes none. -/
def rValue (a b : Int) (shamt : Nat) : ROp → Option Int
  | .add => some (Alu.add a b)
  | .sub => some (Alu.subtract a b)
  | .and => some (Alu.and a b)
  | .or => some (Alu.or a b)
  | .nor => some (Alu.nor a b)
  | .sll => some (Alu.shiftLeft b shamt)
  | .srl => some (Alu.shiftRight b shamt)
  | .slt => some (flag (Alu.lessThan a b))
  | .sltu => some (flag (Alu.lessThanUnsigned a b))
  | .jr => none

/-- The number that an operation computes from a register and an immediate. -/
def iValue (a : Int) (immediate : BitVec 16) : IOp → Int
  | .andi => Alu.and a (Alu.zeroExtend 16 immediate.toNat)
  | .ori => Alu.or a (Alu.zeroExtend 16 immediate.toNat)
  | .slti => flag (Alu.lessThan a (Alu.signExtend 16 immediate.toNat))
  | .sltiu => flag (Alu.lessThanUnsigned a (Alu.signExtend 16 immediate.toNat))
  | _ => Alu.add a (Alu.signExtend 16 immediate.toNat)

/-- The number that a load puts into its register. -/
def extended (width : Nat) (signed : Bool) (v : Int) : Int :=
  if signed then Alu.signExtend (width * 8) v else v

/-- Executes a register-class instruction. -/
def executeR (m : Machine) (rs rt rd : Register) (shamt : BitVec 5) (funct : BitVec 6) :
    Except Fault Machine :=
  match ROp.ofFunct? funct.toNat with
  | none => .error (.unsupported (Instruction.r rs rt rd shamt funct).toWord m.pc)
  | some op =>
    match rValue (m.get rs) (m.get rt) shamt.toNat op with
    | some v => .ok (m.set rd v)
    | none => .ok { m with pc := m.get rs }

/-- Executes an immediate-class instruction. -/
def executeI (m : Machine) (opcode : BitVec 6) (rs rt : Register) (immediate : BitVec 16) :
    Except Fault Machine :=
  let offset := Alu.signExtend 16 immediate.toNat
  match IOp.ofOpcode? opcode.toNat with
  | none => .error (.unsupported (Instruction.i opcode rs rt immediate).toWord m.pc)
  | some op =>
    match op.form with
    | .compute => .ok (m.set rt (iValue (m.get rs) immediate op))
    | .load width signed => do
      let v ← liftMemory (m.memory.readNumber width (Alu.add (m.get rs) offset))
      return m.set rt (extended width signed v)
    | .store width => do
      let memory ← liftMemory (m.memory.writeNumber width (Alu.add (m.get rs) offset) (m.get rt))
      return { m with memory }
    | .branch onEqual =>
      let next := Alu.add m.pc 4
      let taken := Alu.equal (m.get rs) (m.get rt) == onEqual
      .ok { m with pc := if taken then Alu.add next (Alu.shiftLeft offset 2) else next }

/-- Executes a jump-class instruction; the target stays in the region of the program counter. -/
def executeJ (m : Machine) (opcode : BitVec 6) (target : BitVec 26) : Except Fault Machine :=
  let pc := Alu.or (Alu.and m.pc 0xF0000000) (target.toNat * 4)
  match JOp.ofOpcode? opcode.toNat with
  | none => .error (.unsupported (Instruction.j opcode target).toWord m.pc)
  | some .j => .ok { m with pc }
  | some .jal => .ok { m.set Register.ra (Alu.add m.pc 4) with pc }

/-- Executes an instruction without moving on to the next one. -/
def execute (m : Machine) : Instruction → Except Fault Machine
  | .r rs rt rd shamt funct => m.executeR rs rt rd shamt funct
  | .i opcode rs rt immediate => m.executeI opcode rs rt immediate
  | .j opcode target => m.executeJ opcode target

/-- Moves on to the next instruction, unless the executed one has set the program counter. -/
def advance (m : Machine) (instr : Instruction) : Machine :=
  if instr.isJump || instr.isBranch then m else { m with pc := Alu.add m.pc 4 }

/-- One cycle: the instruction at the program counter and the machine after it. -/
def cycle (m : Machine) : Except Fault (Instruction × Machine) := do
  let w ← m.fetch
  let instr := Instruction.decode w
  if Instruction.isSupported w then
    let next ← m.execute instr
    return (instr, next.advance instr)
  else .error (.unsupported w m.pc)

/-- Runs cycles until the program has finished, the limit is reached or a cycle fails; the count is
that of the cycles that succeeded. -/
def run : Nat → Machine → Nat × Machine × Option Fault
  | 0, m => (0, m, none)
  | limit + 1, m =>
    if m.hasFinished then (0, m, none)
    else
      match m.cycle with
      | .error f => (0, m, some f)
      | .ok (_, next) =>
        let (n, last, f) := run limit next
        (n + 1, last, f)

/-- The word about to be executed, if the program has not finished and the word can be fetched. -/
def current? (m : Machine) : Option Word :=
  if m.hasFinished then none else m.fetch.toOption

end Machine

end PocketMips
