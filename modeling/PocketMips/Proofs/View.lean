import PocketMips.Proofs.Cycle
import PocketMips.Proofs.Memory
import PocketMips.Proofs.WordMachine

/-!
# The machine as a machine of words

The view of a machine keeps its registers, its program counter and its memory. In a state that a run can
be in, the operations of the machine are those of its view.
-/
namespace PocketMips

/-- The machine as a machine of words. -/
def Machine.view (m : Machine) : WordMachine where
  registers := m.registers.get
  pc := BitVec.ofInt 32 m.pc
  cells := m.memory.cell
  wraps := m.memory.extent = .sparse

/-- Register zero holds zero and the program counter is an address. -/
structure Machine.Regular (m : Machine) : Prop where
  zero : m.registers.get 0 = 0
  pc_nonneg : 0 ≤ m.pc
  pc_lt : m.pc < 0x100000000

/-- The loaded program and the extent of the memory, which no cycle changes. -/
structure Machine.SameProgram (m n : Machine) : Prop where
  start : n.start = m.start
  stop : n.stop = m.stop
  extent : n.memory.extent = m.memory.extent

namespace Machine

variable {m : Machine}

/-! ## Registers and program counter -/

theorem Regular.read (h : m.Regular) (r : Register) : m.view.read r = m.registers.get r := by
  unfold WordMachine.read
  by_cases zero : r = 0
  · rw [if_pos zero, zero, h.zero]
  · rw [if_neg zero]
    rfl

/-- The number in a register is that of the word that the view reads. -/
theorem Regular.get (h : m.Regular) (r : Register) : m.get r = (m.view.read r).toNat := by
  rw [h.read, Machine.get]

theorem Regular.pc_eq (h : m.Regular) : m.pc = m.view.pc.toNat := by
  have lo := h.pc_nonneg
  have hi := h.pc_lt
  simp only [view, BitVec.toNat_ofInt]
  omega

theorem view_set (r : Register) (v : Int) :
    (m.set r v).view = m.view.write r (BitVec.ofInt 32 v) := by
  refine WordMachine.ext (funext fun q => ?_) rfl rfl rfl
  simp only [view, set, WordMachine.write, RegisterFile.get_set, eq_comm]

theorem view_pc (m : Machine) (v : Int) :
    { m with pc := v }.view = { m.view with pc := BitVec.ofInt 32 v } := rfl

theorem get_zero_set (h : m.registers.get 0 = 0) (r : Register) (v : Int) :
    (m.set r v).registers.get 0 = 0 := by
  simp only [set, RegisterFile.get_set]
  rw [if_neg, h]
  rintro ⟨rfl, nonzero⟩
  exact nonzero rfl

/-- A program counter that the arithmetic unit computes is an address. -/
theorem regular_of_pc {n : Machine} (zero : n.registers.get 0 = 0) {w : Word} (pc : n.pc = w.toNat) :
    n.Regular := by
  have := w.isLt
  exact ⟨zero, by omega, by omega⟩

/-! ## Bytes of memory -/

theorem slot_eq (a : Word) (k : Nat) : m.memory.slot (a.toNat + k) = m.view.cellOf a k := by
  unfold Memory.slot Memory.wrap WordMachine.cellOf view
  cases m.memory.extent with
  | fixed | unbacked =>
    simp only [reduceCtorEq, decide_false, Bool.false_eq_true, ↓reduceIte]
    omega
  | sparse =>
    simp only [decide_true, ↓reduceIte]
    omega

theorem byteAt_eq (a : Word) (k : Nat) : m.memory.byteAt (a.toNat + k) = m.view.byte a k := by
  rw [Memory.byteAt, slot_eq]
  rfl

theorem toNat_append_byte {width : Nat} (x : BitVec width) (b : Byte) :
    (x ++ b).toNat = b.toNat + 256 * x.toNat := by
  rw [BitVec.toNat_append, ← Nat.shiftLeft_add_eq_or_of_lt b.isLt, Nat.shiftLeft_eq]
  omega

theorem readByte_eq {a : Word} (h : m.memory.Holds a.toNat 1) :
    m.memory.readNumber 1 a.toNat = .ok (m.view.byte a 0).toNat := by
  rw [Memory.readNumber_of_holds h]
  simp only [byteAt_eq]
  rfl

theorem readHalf_eq {a : Word} (h : m.memory.Holds a.toNat 2) :
    m.memory.readNumber 2 a.toNat = .ok (m.view.half a).toNat := by
  rw [Memory.readNumber_of_holds h, WordMachine.half, toNat_append_byte]
  simp only [byteAt_eq]
  rfl

theorem readWord_eq {a : Word} (h : m.memory.Holds a.toNat 4) :
    m.memory.readNumber 4 a.toNat = .ok (m.view.word a).toNat := by
  rw [Memory.readNumber_of_holds h, WordMachine.word, toNat_append_byte, toNat_append_byte,
    toNat_append_byte]
  simp only [byteAt_eq]
  rfl

theorem Regular.fetch_eq (h : m.Regular) (holds : m.memory.Holds m.pc 4) :
    m.fetch = .ok m.view.fetch := by
  apply fetch_of_readWord
  rw [h.pc_eq] at holds ⊢
  exact readWord_eq holds

theorem byte_of_word (v : Word) (k : Nat) :
    BitVec.ofInt 8 ((v.toNat : Int) >>> (8 * k)) = v.extractLsb' (8 * k) 8 := by
  have shifted : (v.toNat : Int) >>> (8 * k) = ((v.toNat >>> (8 * k) : Nat) : Int) := rfl
  apply BitVec.eq_of_toNat_eq
  rw [shifted, BitVec.ofInt_natCast, BitVec.toNat_ofNat, BitVec.extractLsb'_toNat]

theorem view_store (a v : Word) (width : Nat) :
    { m with memory := { m.memory with
        cells := Memory.setCells m.memory.slot a.toNat (toBytes width v.toNat) m.memory.cells } }.view =
      m.view.store a v width := by
  induction width with
  | zero => rfl
  | succ k ih =>
    rw [WordMachine.store, ← ih]
    refine WordMachine.ext rfl rfl ?_ rfl
    funext i
    simp only [view, Memory.cell, Memory.getD_setCells_toBytes_succ, slot_eq, byte_of_word]
    rfl

end Machine

end PocketMips
