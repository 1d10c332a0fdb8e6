import PocketMips.Proofs.Cycle
import PocketMips.Proofs.Load
import PocketMips.Proofs.Memory

/-!
# Fixed and sparse memory give the same machine

A machine over a fixed memory and one over a sparse memory agree if they differ in nothing but the extent
of their memories, the sparse one holding zeros beyond the capacity of the other. Loading the same program
makes them agree, and a cycle that succeeds over the fixed memory keeps them in agreement.
-/
namespace PocketMips

/-- The same bytes below the capacity of the fixed memory, and zeros above it. -/
structure Memory.Agree (capacity : Nat) (f s : Memory) : Prop where
  fixed : f.extent = .fixed capacity
  sparse : s.extent = .sparse
  below : ∀ i, i < capacity → s.cell i = f.cell i
  above : ∀ i, capacity ≤ i → s.cell i = 0

/-- The same registers, program counter and program, over memories that agree. -/
structure Machine.Agree (capacity : Nat) (f s : Machine) : Prop where
  registers : s.registers = f.registers
  pc : s.pc = f.pc
  start : s.start = f.start
  stop : s.stop = f.stop
  memory : Memory.Agree capacity f.memory s.memory

namespace Memory

variable {capacity : Nat} {f s : Memory} {a : Int} {width : Nat} {bs : List Byte}

/-! ## Memories -/

theorem holds_of_sparse (sparse : s.extent = .sparse) : s.Holds a width := by
  simp only [Holds, sparse]

theorem Holds.bounds (fixed : f.extent = .fixed capacity) (h : f.Holds a width) :
    0 ≤ a ∧ a + width ≤ capacity := by
  simpa only [Holds, fixed] using h

/-- Addresses that a fixed memory holds have the same cells in a sparse one. -/
theorem Agree.slot_eq (h : Agree capacity f s) (le : capacity ≤ 0x100000000) (holds : f.Holds a width)
    {k : Nat} (lt : k < width) : s.slot (a + k) = f.slot (a + k) ∧ f.slot (a + k) < capacity := by
  have bounds := holds.bounds h.fixed
  simp only [slot, h.fixed, h.sparse, wrap]
  omega

theorem Agree.readNumber (h : Agree capacity f s) (le : capacity ≤ 0x100000000) {v : Nat}
    (read : f.readNumber width a = .ok v) : s.readNumber width a = .ok v := by
  obtain ⟨bs, bytes, -⟩ := map_eq_ok.mp read
  have holds := holds_of_readBytes bytes
  rw [readNumber_of_holds holds] at read
  rw [readNumber_of_holds (holds_of_sparse h.sparse), ← read]
  congr 2
  apply List.map_congr_left
  intro k mem
  obtain ⟨same, inside⟩ := h.slot_eq le holds (List.mem_range.mp mem)
  rw [byteAt, byteAt, same, h.below _ inside]

/-- Writing the same bytes to the same cells keeps what two memories hold in a cell the same. -/
theorem getD_setCells_congr {at_ at_' : Int → Nat} {cells cells' : Std.TreeMap Nat Byte} {i : Nat}
    (slots : ∀ k : Nat, k < bs.length → at_ (a + k) = at_' (a + k))
    (same : cells.getD i 0 = cells'.getD i 0) :
    (setCells at_ a bs cells).getD i 0 = (setCells at_' a bs cells').getD i 0 := by
  induction bs generalizing a cells cells' with
  | nil => exact same
  | cons b bs ih =>
    apply ih
    · intro k lt
      have := slots (k + 1) (by simpa using lt)
      rwa [Int.natCast_add, Int.natCast_one, Int.add_comm (k : Int) 1, ← Int.add_assoc] at this
    · have first := slots 0 (by simp)
      rw [Int.natCast_zero, Int.add_zero] at first
      rw [Std.TreeMap.getD_insert, Std.TreeMap.getD_insert, first, same]

theorem Agree.writeBytes (h : Agree capacity f s) (le : capacity ≤ 0x100000000) (some : bs ≠ [])
    {f' : Memory} (written : f.writeBytes a bs = .ok f') :
    ∃ s', s.writeBytes a bs = .ok s' ∧ Agree capacity f' s' := by
  have holds := holds_of_writeBytes some written
  rw [writeBytes_of_holds holds] at written
  cases written
  refine ⟨_, writeBytes_of_holds (holds_of_sparse h.sparse), h.fixed, h.sparse, ?_, ?_⟩
  · intro i lt
    exact getD_setCells_congr (fun k lt => (h.slot_eq le holds lt).1) (h.below i lt)
  · intro i ge
    rw [cell, getD_setCells]
    · exact h.above i ge
    · intro k lt
      obtain ⟨same, inside⟩ := h.slot_eq le holds lt
      omega

theorem Agree.writeNumber (h : Agree capacity f s) (le : capacity ≤ 0x100000000) (pos : 0 < width) {v : Int}
    {f' : Memory} (written : f.writeNumber width a v = .ok f') :
    ∃ s', s.writeNumber width a v = .ok s' ∧ Agree capacity f' s' := by
  refine h.writeBytes le ?_ written
  intro empty
  have := length_toBytes width v
  rw [empty, List.length_nil] at this
  omega

theorem agree_blank (capacity : Nat) : Agree capacity (blank (.fixed capacity)) (blank .sparse) :=
  ⟨rfl, rfl, fun _ _ => rfl, fun _ _ => cell_blank _ _⟩

/-! ## Failing accesses to a fixed memory -/

theorem checkRange_eq_error (fixed : f.extent = .fixed capacity) {w : Int} {g : Fault}
    (h : f.checkRange a w = .error g) : g = .outOfRange a w capacity := by
  simp only [checkRange, fixed] at h
  split at h <;> cases h
  rfl

theorem readNumber_eq_error (fixed : f.extent = .fixed capacity) {g : Fault}
    (h : f.readNumber width a = .error g) : g = .outOfRange a width capacity := by
  have failed := map_eq_error.mp h
  simp only [readBytes, fixed] at failed
  rcases bind_eq_error.mp failed with checked | ⟨_, -, h⟩
  · exact checkRange_eq_error fixed checked
  · cases h

theorem writeNumber_eq_error (fixed : f.extent = .fixed capacity) {v : Int} {g : Fault}
    (h : f.writeNumber width a v = .error g) : g = .outOfRange a width capacity := by
  simp only [Memory.writeNumber, Memory.writeBytes, fixed] at h
  split at h
  · cases h
  · rw [length_toBytes] at h
    rcases bind_eq_error.mp h with checked | ⟨_, -, h⟩
    · exact checkRange_eq_error fixed checked
    · cases h

end Memory

namespace Machine

variable {capacity : Nat} {f s f' : Machine} {image : List Byte} {start : Int}

/-! ## Machines -/

theorem Agree.get (h : Agree capacity f s) (r : Register) : s.get r = f.get r := by
  rw [Machine.get, h.registers, Machine.get]

theorem Agree.set (h : Agree capacity f s) (r : Register) (v : Int) :
    Agree capacity (f.set r v) (s.set r v) :=
  ⟨congrArg (·.set r v) h.registers, h.pc, h.start, h.stop, h.memory⟩

theorem Agree.setPc (h : Agree capacity f s) (pc : Int) :
    Agree capacity { f with pc } { s with pc } :=
  ⟨h.registers, rfl, h.start, h.stop, h.memory⟩

theorem Agree.advance (h : Agree capacity f s) (instr : Instruction) :
    Agree capacity (f.advance instr) (s.advance instr) := by
  unfold Machine.advance
  split
  · exact h
  · rw [h.pc]
    exact h.setPc _

theorem Agree.hasFinished (h : Agree capacity f s) : s.hasFinished = f.hasFinished := by
  rw [Machine.hasFinished, h.start, h.pc, h.stop, Machine.hasFinished]

theorem Agree.fetch (h : Agree capacity f s) (le : capacity ≤ 0x100000000) {w : Word}
    (fetched : f.fetch = .ok w) : s.fetch = .ok w := by
  obtain ⟨v, lifted, word⟩ := map_eq_ok.mp fetched
  have read := h.memory.readNumber le (mapError_eq_ok.mp lifted)
  rw [← h.pc] at read
  exact map_eq_ok.mpr ⟨v, mapError_eq_ok.mpr read, word⟩

theorem Agree.executeR (h : Agree capacity f s) {rs rt rd : Register} {shamt : BitVec 5}
    {funct : BitVec 6} (executed : f.executeR rs rt rd shamt funct = .ok f') :
    ∃ s', s.executeR rs rt rd shamt funct = .ok s' ∧ Agree capacity f' s' := by
  simp only [Machine.executeR, h.get] at executed ⊢
  split at executed
  · cases executed
  · split at executed <;> cases executed
    · exact ⟨_, rfl, h.set _ _⟩
    · exact ⟨_, rfl, h.setPc _⟩

theorem Agree.executeJ (h : Agree capacity f s) {opcode : BitVec 6} {target : BitVec 26}
    (executed : f.executeJ opcode target = .ok f') :
    ∃ s', s.executeJ opcode target = .ok s' ∧ Agree capacity f' s' := by
  simp only [Machine.executeJ, h.pc] at executed ⊢
  split at executed <;> cases executed
  · exact ⟨_, rfl, h.setPc _⟩
  · exact ⟨_, rfl, (h.set _ _).setPc _⟩

theorem Agree.executeI (h : Agree capacity f s) (le : capacity ≤ 0x100000000) {opcode : BitVec 6}
    {rs rt : Register} {immediate : BitVec 16}
    (executed : f.executeI opcode rs rt immediate = .ok f') :
    ∃ s', s.executeI opcode rs rt immediate = .ok s' ∧ Agree capacity f' s' := by
  simp only [Machine.executeI, h.get, h.pc] at executed ⊢
  split at executed
  · cases executed
  · rename_i op _
    split at executed
    · cases executed
      exact ⟨_, rfl, h.set _ _⟩
    · obtain ⟨v, lifted, executed⟩ := bind_eq_ok.mp executed
      cases pure_eq_ok.mp executed
      have read := h.memory.readNumber le (mapError_eq_ok.mp lifted)
      exact ⟨_, bind_eq_ok.mpr ⟨v, mapError_eq_ok.mpr read, rfl⟩, h.set _ _⟩
    · rename_i width form
      have pos : 0 < width := by cases op <;> cases form <;> decide
      obtain ⟨memory, lifted, executed⟩ := bind_eq_ok.mp executed
      cases pure_eq_ok.mp executed
      obtain ⟨memory', written, agree⟩ := h.memory.writeNumber le pos (mapError_eq_ok.mp lifted)
      exact ⟨_, bind_eq_ok.mpr ⟨memory', mapError_eq_ok.mpr written, rfl⟩, h.registers, rfl, h.start,
        h.stop, agree⟩
    · cases executed
      exact ⟨_, rfl, h.setPc _⟩

theorem Agree.execute (h : Agree capacity f s) (le : capacity ≤ 0x100000000) {instr : Instruction}
    (executed : f.execute instr = .ok f') :
    ∃ s', s.execute instr = .ok s' ∧ Agree capacity f' s' := by
  cases instr with
  | r => exact h.executeR executed
  | i => exact h.executeI le executed
  | j => exact h.executeJ executed

/-! ## Cycles -/

/-- A cycle that succeeds over the fixed memory succeeds over the sparse one. -/
theorem Agree.cycle (h : Agree capacity f s) (le : capacity ≤ 0x100000000) {instr : Instruction}
    (ran : f.cycle = .ok (instr, f')) : ∃ s', s.cycle = .ok (instr, s') ∧ Agree capacity f' s' := by
  obtain ⟨w, k, fetched, supported, rfl, executed, rfl⟩ := cycle_eq_ok ran
  obtain ⟨l, executed', agree⟩ := h.execute le executed
  exact ⟨_, cycle_of_execute (h.fetch le fetched) supported executed', agree.advance _⟩

theorem Agree.cycles (h : Agree capacity f s) (le : capacity ≤ 0x100000000) {n : Nat}
    {instrs : List Instruction} (ran : f.cycles n = .ok (instrs, f')) :
    ∃ s', s.cycles n = .ok (instrs, s') ∧ Agree capacity f' s' := by
  induction n generalizing f s instrs with
  | zero =>
    cases ran
    exact ⟨s, rfl, h⟩
  | succ n ih =>
    obtain ⟨instr, next, rest, first, others, rfl⟩ := cycles_succ_eq_ok ran
    obtain ⟨next', first', agree⟩ := h.cycle le first
    obtain ⟨s', others', last⟩ := ih agree others
    exact ⟨s', cycles_succ_of_cycle first' others', last⟩

/-- A cycle that fails over the fixed memory has left it, or fails over the sparse one in the same way. -/
theorem Agree.cycle_eq_error (h : Agree capacity f s) (le : capacity ≤ 0x100000000) {e : Fault}
    (failed : f.cycle = .error e) :
    (∃ a width, e = .memory (.outOfRange a width capacity)) ∨
      (∃ w, e = .unsupported w f.pc) ∧ s.cycle = .error e := by
  cases fetched : f.fetch with
  | error g =>
    left
    rw [cycle_of_fetch_error fetched] at failed
    cases failed
    obtain ⟨g', read, rfl⟩ := mapError_eq_error.mp (map_eq_error.mp fetched)
    exact ⟨_, _, congrArg Fault.memory (Memory.readNumber_eq_error h.memory.fixed read)⟩
  | ok w =>
    cases supported : Instruction.isSupported w with
    | false =>
      right
      rw [cycle_of_unsupported fetched supported] at failed
      cases failed
      exact ⟨⟨w, rfl⟩, by rw [cycle_of_unsupported (h.fetch le fetched) supported, h.pc]⟩
    | true =>
      left
      cases executed : f.execute (Instruction.decode w) with
      | error g =>
        rw [cycle_of_execute_error fetched supported executed] at failed
        cases failed
        obtain ⟨g, a, width, rfl, read | ⟨v, written⟩⟩ := execute_eq_error supported executed
        · exact ⟨_, _, congrArg Fault.memory (Memory.readNumber_eq_error h.memory.fixed read)⟩
        · exact ⟨_, _, congrArg Fault.memory (Memory.writeNumber_eq_error h.memory.fixed written)⟩
      | ok k =>
        rw [cycle_of_execute fetched supported executed] at failed
        cases failed

theorem Agree.unsupported_iff (h : Agree capacity f s) (le : capacity ≤ 0x100000000)
    (inside : ∀ a width c, f.cycle ≠ .error (.memory (.outOfRange a width c))) (w : Word) (pc : Int) :
    f.cycle = .error (.unsupported w pc) ↔ s.cycle = .error (.unsupported w pc) := by
  cases ran : f.cycle with
  | ok p =>
    obtain ⟨instr, f'⟩ := p
    obtain ⟨s', ran', -⟩ := h.cycle le ran
    rw [ran']
    constructor <;> intro e <;> cases e
  | error e =>
    rcases h.cycle_eq_error le ran with ⟨a, width, rfl⟩ | ⟨-, failed⟩
    · exact absurd ran (inside a width capacity)
    · rw [failed]

/-! ## Programs -/

theorem load_of_sparse (sparse : s.memory.extent = .sparse) {memory : Memory}
    (written : (Memory.blank .sparse).writeBytes start image = .ok memory) :
    s.load image start = .ok ⟨.cleared, start, memory, start, start + image.length⟩ := by
  have cleared : s.memory.clear = .ok (Memory.blank .sparse) := by rw [Memory.clear, sparse]
  exact load_of_writeBytes (Memory.checkRange_of_holds (Memory.holds_of_sparse sparse)) cleared written

theorem agree_of_load (fixed : f.memory.extent = .fixed capacity) (sparse : s.memory.extent = .sparse)
    (le : capacity ≤ 0x100000000) (loaded : f.load image start = .ok f') :
    ∃ s', s.load image start = .ok s' ∧ Agree capacity f' s' := by
  obtain ⟨blank, memory, cleared, written, rfl⟩ := load_eq_ok loaded
  rw [Memory.clear, fixed] at cleared
  cases cleared
  by_cases empty : image = []
  · subst empty
    cases written
    exact ⟨_, load_of_sparse sparse rfl, rfl, rfl, rfl, rfl, Memory.agree_blank capacity⟩
  · obtain ⟨memory', written', agree⟩ := (Memory.agree_blank capacity).writeBytes le empty written
    exact ⟨_, load_of_sparse sparse written', rfl, rfl, rfl, rfl, agree⟩

/-- **Fixed and sparse memory.** A program that a fixed memory of at most `2 ^ 32` bytes accepts can be
loaded over a sparse one. As long as the cycles over the fixed memory succeed, those over the sparse
memory execute the same instructions and leave machines that agree; the next one then meets an
unsupported word in both or in none, unless it leaves the fixed memory. -/
theorem sparse_runs_as_fixed (fixed : f.memory.extent = .fixed capacity)
    (sparse : s.memory.extent = .sparse) (le : capacity ≤ 0x100000000) {f₀ fₙ : Machine}
    (loaded : f.load image start = .ok f₀) {n : Nat} {instrs : List Instruction}
    (ran : f₀.cycles n = .ok (instrs, fₙ)) :
    ∃ s₀ sₙ, s.load image start = .ok s₀ ∧ s₀.cycles n = .ok (instrs, sₙ) ∧
      (∀ k ≤ n, ∃ fₖ sₖ, f₀.cycles k = .ok (instrs.take k, fₖ) ∧
        s₀.cycles k = .ok (instrs.take k, sₖ) ∧ Agree capacity fₖ sₖ ∧
        sₖ.hasFinished = fₖ.hasFinished) ∧
      ((∀ a width c, fₙ.cycle ≠ .error (.memory (.outOfRange a width c))) →
        ∀ w pc, fₙ.cycle = .error (.unsupported w pc) ↔ sₙ.cycle = .error (.unsupported w pc)) := by
  obtain ⟨s₀, loaded', agree⟩ := agree_of_load fixed sparse le loaded
  obtain ⟨sₙ, ran', agreeₙ⟩ := agree.cycles le ran
  refine ⟨s₀, sₙ, loaded', ran', ?_, fun inside => agreeₙ.unsupported_iff le inside⟩
  -- After fewer cycles the machines agree because the shorter run has succeeded as well.
  intro k small
  obtain ⟨fₖ, begun⟩ := cycles_of_le small ran
  obtain ⟨sₖ, begun', agreeₖ⟩ := agree.cycles le begun
  exact ⟨fₖ, sₖ, begun, begun', agreeₖ, agreeₖ.hasFinished⟩

/-- Stores its last word over its fourth before running it, and ends at an unsupported one. -/
def overwriting : List Byte :=
  Image.ofWords [0x8C080014, 0xAC08000C, 0x00000020, 0x00000000, 0xFFFFFFFF, 0x20020007]

theorem overwriting_runs_as_fixed : ∃ f₀ fₙ s₀ sₙ instrs,
    (ofMemory (.blank (.fixed 24))).load overwriting 0 = .ok f₀ ∧ f₀.cycles 4 = .ok (instrs, fₙ) ∧
      (ofMemory (.blank .sparse)).load overwriting 0 = .ok s₀ ∧ s₀.cycles 4 = .ok (instrs, sₙ) ∧
      instrs = [0x8C080014, 0xAC08000C, 0x00000020, 0x20020007].map Instruction.decode ∧
      Agree 24 fₙ sₙ ∧ sₙ.cycle = .error (.unsupported 0xFFFFFFFF 16) := by
  have runs : ((ofMemory (.blank (.fixed 24))).load overwriting 0 >>= fun f₀ =>
      (f₀.cycles 4).map fun p => (p.1, p.2.cycle.map (·.1))) =
        .ok ([0x8C080014, 0xAC08000C, 0x00000020, 0x20020007].map Instruction.decode,
          .error (.unsupported 0xFFFFFFFF 16)) := by
    decide +kernel
  obtain ⟨f₀, loaded, ran⟩ := bind_eq_ok.mp runs
  obtain ⟨⟨instrs, fₙ⟩, ran, result⟩ := map_eq_ok.mp ran
  have decoded : instrs = _ := congrArg Prod.fst result
  have next : fₙ.cycle.map (·.1) = _ := congrArg Prod.snd result
  have failed : fₙ.cycle = .error (.unsupported 0xFFFFFFFF 16) := by
    cases cycle : fₙ.cycle with
    | ok p => simp [cycle, Except.map] at next
    | error e => simpa [cycle, Except.map] using next
  obtain ⟨s₀, sₙ, loaded', ran', along, last⟩ :=
    sparse_runs_as_fixed (s := ofMemory (.blank .sparse)) rfl rfl (by decide) loaded ran
  obtain ⟨fₖ, sₖ, run, run', agree, -⟩ := along 4 (Nat.le_refl 4)
  rw [List.take_of_length_le (by rw [decoded]; decide)] at run run'
  rw [ran] at run
  rw [ran'] at run'
  cases run
  cases run'
  have inside : ∀ a width c, fₙ.cycle ≠ .error (.memory (.outOfRange a width c)) := by
    intro a width c h
    rw [failed] at h
    cases h
  exact ⟨f₀, fₙ, s₀, sₙ, instrs, loaded, ran, loaded', ran', decoded, agree,
    (last inside _ _).mp failed⟩

end Machine

end PocketMips
