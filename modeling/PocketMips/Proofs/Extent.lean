import PocketMips.Memory.Access
import PocketMips.Proofs.Load
import PocketMips.Proofs.View

/-!
# The extent of the memory

Neither accesses nor cycles change where a memory keeps cells, and cycles leave the bounds of the program
alone. A load sees nothing but the extent: what can be loaded once can be loaded again at any time, and
becomes the same machine. A memory that keeps cells refuses nothing but what lies outside of its extent.
-/
namespace PocketMips

namespace Memory

variable {m n : Memory} {a : Int}

theorem extent_of_writeBytes {bs : List Byte} (h : m.writeBytes a bs = .ok n) :
    n.extent = m.extent := by
  unfold writeBytes at h
  split at h
  · cases h
  · split at h
    · cases h
      rfl
    · obtain ⟨_, -, same⟩ := bind_eq_ok.mp h
      cases pure_eq_ok.mp same
      rfl

theorem extent_of_clear (h : m.clear = .ok n) : n.extent = m.extent := by
  unfold clear at h
  split at h
  · cases h
  · cases h
    rfl

theorem extent_of_perform {access : Access} {answer : Answer}
    (h : m.perform access = .ok (answer, n)) : n.extent = m.extent := by
  cases access with
  | writeByte | writeHalfWord | writeWord | writeBytes =>
    obtain ⟨written, done, same⟩ := map_eq_ok.mp h
    cases same
    exact extent_of_writeBytes done
  | clear =>
    obtain ⟨cleared, done, same⟩ := map_eq_ok.mp h
    cases same
    exact extent_of_clear done
  | _ =>
    obtain ⟨_, -, same⟩ := map_eq_ok.mp h
    cases same
    rfl

theorem checkRange_congr (h : n.extent = m.extent) (width : Int) :
    n.checkRange a width = m.checkRange a width := by
  rw [checkRange, h, checkRange]

theorem clear_congr (h : n.extent = m.extent) : n.clear = m.clear := by
  rw [clear, h, clear]

end Memory

namespace Machine

variable {m n : Machine}

theorem sameProgram_of_execute {instr : Instruction} (h : m.execute instr = .ok n) : m.SameProgram n := by
  cases instr with
  | r rs rt rd shamt funct =>
    replace h : m.executeR rs rt rd shamt funct = .ok n := h
    unfold executeR at h
    split at h
    · cases h
    · split at h <;> (cases h; exact ⟨rfl, rfl, rfl⟩)
  | i opcode rs rt immediate =>
    replace h : m.executeI opcode rs rt immediate = .ok n := h
    unfold executeI at h
    dsimp only at h
    split at h
    · cases h
    · split at h
      · cases h
        exact ⟨rfl, rfl, rfl⟩
      · obtain ⟨v, -, same⟩ := bind_eq_ok.mp h
        cases pure_eq_ok.mp same
        exact ⟨rfl, rfl, rfl⟩
      · obtain ⟨memory, lifted, same⟩ := bind_eq_ok.mp h
        cases pure_eq_ok.mp same
        exact ⟨rfl, rfl, Memory.extent_of_writeBytes (mapError_eq_ok.mp lifted)⟩
      · cases h
        exact ⟨rfl, rfl, rfl⟩
  | j opcode target =>
    replace h : m.executeJ opcode target = .ok n := h
    unfold executeJ at h
    dsimp only at h
    split at h <;> cases h <;> exact ⟨rfl, rfl, rfl⟩

theorem sameProgram_of_cycle {instr : Instruction} (h : m.cycle = .ok (instr, n)) : m.SameProgram n := by
  obtain ⟨w, k, -, -, -, executed, rfl⟩ := cycle_eq_ok h
  have ⟨start, stop, extent⟩ := sameProgram_of_execute executed
  unfold advance
  split <;> exact ⟨start, stop, extent⟩

theorem bounds_of_cycles {k : Nat} {instrs : List Instruction} (h : m.cycles k = .ok (instrs, n)) :
    n.start = m.start ∧ n.stop = m.stop := by
  induction k generalizing m instrs with
  | zero =>
    cases h
    exact ⟨rfl, rfl⟩
  | succ k ih =>
    obtain ⟨instr, next, rest, cycled, others, -⟩ := cycles_succ_eq_ok h
    have same := sameProgram_of_cycle cycled
    rw [← same.start, ← same.stop]
    exact ih others

/-- A load depends on the extent of the memory only. -/
theorem load_congr (h : n.memory.extent = m.memory.extent) (image : List Byte) (start : Int) :
    n.load image start = m.load image start := by
  rw [load, load, Memory.checkRange_congr h, Memory.clear_congr h]

theorem extent_of_load {image : List Byte} {start : Int} (h : m.load image start = .ok n) :
    n.memory.extent = m.memory.extent := by
  obtain ⟨cleared, memory, clear, written, rfl⟩ := load_eq_ok h
  exact (Memory.extent_of_writeBytes written).trans (Memory.extent_of_clear clear)

end Machine

end PocketMips
