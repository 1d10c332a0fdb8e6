import PocketMips.Register

/-!
# The machine of words

The instruction set by its codes, over 32-bit words alone: every operation is one of the words, the
program counter is a word, and a load or a store takes the bytes from its address on, the least
significant first.
-/
namespace PocketMips

/-- Registers, program counter and cells of memory. -/
@[ext]
structure WordMachine where
  registers : Register → Word
  pc : Word
  cells : Nat → Byte
  /-- Whether the address after the last word is the first one again. -/
  wraps : Bool

namespace WordMachine

variable (s : WordMachine)

/-- Register zero reads zero. -/
def read (r : Register) : Word := if r = 0 then 0 else s.registers r

/-- A result for register zero is dropped. -/
def write (r : Register) (v : Word) : WordMachine :=
  { s with registers := fun q => if q = r ∧ r ≠ 0 then v else s.registers q }

/-- Goes on to the next instruction. -/
def next : WordMachine := { s with pc := s.pc + 4 }

/-- Goes on to the next instruction with a result in a register. -/
def result (r : Register) (v : Word) : Option WordMachine := some (s.write r v).next

/-- The cell `k` places after an address. -/
def cellOf (a : Word) (k : Nat) : Nat := if s.wraps then (a.toNat + k) % 0x100000000 else a.toNat + k

/-- The byte `k` places after an address. -/
def byte (a : Word) (k : Nat) : Byte := s.cells (s.cellOf a k)

def half (a : Word) : BitVec 16 := s.byte a 1 ++ s.byte a 0

def word (a : Word) : Word := s.byte a 3 ++ s.byte a 2 ++ s.byte a 1 ++ s.byte a 0

/-- Puts the low bytes of a word into memory from an address on. -/
def store (a v : Word) : Nat → WordMachine
  | 0 => s
  | k + 1 =>
    let t := store a v k
    { t with cells := fun i => if s.cellOf a k = i then v.extractLsb' (8 * k) 8 else t.cells i }

/-- One or zero. -/
def bit (b : Bool) : Word := if b then 1 else 0

/-- Takes a branch, counting words from the next instruction, or goes on. -/
def branch (taken : Bool) (immediate : BitVec 16) : WordMachine :=
  { s with pc := if taken then s.pc + 4 + 4 * immediate.signExtend 32 else s.pc + 4 }

/-- The target of a jump, in the region of the program counter. -/
def jumpTarget (target : BitVec 26) : Word := s.pc &&& 0xF0000000 ||| target.setWidth 32 * 4

/-- Executes a register-class instruction by its function code. -/
def executeR (rs rt rd : Register) (shamt : BitVec 5) : BitVec 6 → Option WordMachine
  | 0x20#6 => s.result rd (s.read rs + s.read rt)
  | 0x22#6 => s.result rd (s.read rs - s.read rt)
  | 0x24#6 => s.result rd (s.read rs &&& s.read rt)
  | 0x25#6 => s.result rd (s.read rs ||| s.read rt)
  | 0x27#6 => s.result rd (~~~(s.read rs ||| s.read rt))
  | 0x00#6 => s.result rd (s.read rt <<< shamt.toNat)
  | 0x02#6 => s.result rd (s.read rt >>> shamt.toNat)
  | 0x2A#6 => s.result rd (bit ((s.read rs).slt (s.read rt)))
  | 0x2B#6 => s.result rd (bit ((s.read rs).ult (s.read rt)))
  | 0x08#6 => some { s with pc := s.read rs }
  | _ => none

/-- The address of a load or a store. -/
def address (rs : Register) (immediate : BitVec 16) : Word :=
  s.read rs + immediate.signExtend 32

/-- Executes an immediate-class instruction by its opcode. -/
def executeI (rs rt : Register) (immediate : BitVec 16) : BitVec 6 → Option WordMachine
  | 0x08#6 => s.result rt (s.read rs + immediate.signExtend 32)
  | 0x0C#6 => s.result rt (s.read rs &&& immediate.setWidth 32)
  | 0x0D#6 => s.result rt (s.read rs ||| immediate.setWidth 32)
  | 0x0A#6 => s.result rt (bit ((s.read rs).slt (immediate.signExtend 32)))
  | 0x0B#6 => s.result rt (bit ((s.read rs).ult (immediate.signExtend 32)))
  | 0x23#6 => s.result rt (s.word (s.address rs immediate))
  | 0x21#6 => s.result rt ((s.half (s.address rs immediate)).signExtend 32)
  | 0x20#6 => s.result rt ((s.byte (s.address rs immediate) 0).signExtend 32)
  | 0x25#6 => s.result rt ((s.half (s.address rs immediate)).setWidth 32)
  | 0x2B#6 => some (s.store (s.address rs immediate) (s.read rt) 4).next
  | 0x29#6 => some (s.store (s.address rs immediate) (s.read rt) 2).next
  | 0x28#6 => some (s.store (s.address rs immediate) (s.read rt) 1).next
  | 0x04#6 => some (s.branch (s.read rs == s.read rt) immediate)
  | 0x05#6 => some (s.branch (s.read rs != s.read rt) immediate)
  | _ => none

/-- The number of bytes that an opcode loads or stores. -/
def accessWidth? : BitVec 6 → Option Nat
  | 0x23#6 | 0x2B#6 => some 4
  | 0x21#6 | 0x25#6 | 0x29#6 => some 2
  | 0x20#6 | 0x28#6 => some 1
  | _ => none

/-- Executes the instruction of a word; a word outside the instruction set has none. -/
def execute (w : Word) : Option WordMachine :=
  let rs := w.extractLsb' 21 5
  let rt := w.extractLsb' 16 5
  match w.extractLsb' 26 6 with
  | 0x00#6 => s.executeR rs rt (w.extractLsb' 11 5) (w.extractLsb' 6 5) (w.extractLsb' 0 6)
  | 0x02#6 => some { s with pc := s.jumpTarget (w.extractLsb' 0 26) }
  | 0x03#6 => some { s.write 31 (s.pc + 4) with pc := s.jumpTarget (w.extractLsb' 0 26) }
  | opcode => s.executeI rs rt (w.extractLsb' 0 16) opcode

/-- The word at the program counter. -/
def fetch : Word := s.word s.pc

/-- One cycle. -/
def step : Option WordMachine := s.execute s.fetch

/-- The address and the number of the bytes that the instruction at the program counter loads or
stores. -/
def access? : Option (Word × Nat) :=
  let w := s.fetch
  (accessWidth? (w.extractLsb' 26 6)).map
    ((s.address (w.extractLsb' 21 5) (w.extractLsb' 0 16)), ·)

end WordMachine

end PocketMips
