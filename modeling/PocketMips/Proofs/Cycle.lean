import PocketMips.Machine
import PocketMips.Proofs.Instruction
import PocketMips.Proofs.Outcome

/-!
# What cycles do

A cycle fetches a word, refuses it if it is not supported, executes its instruction and goes on. These are
all the ways in which it ends, and what a number of cycles in a row does.
-/
namespace PocketMips.Machine

/-- Runs a number of cycles, also beyond the end of the program, and collects their instructions. -/
def cycles : Nat → Machine → Except Fault (List Instruction × Machine)
  | 0, m => .ok ([], m)
  | n + 1, m => do
    let (instr, next) ← m.cycle
    let (rest, last) ← cycles n next
    return (instr :: rest, last)

variable {m n : Machine} {w : Word}

/-! ## One cycle -/

theorem fetch_of_readWord (read : m.memory.readWord m.pc = .ok w.toNat) : m.fetch = .ok w := by
  rw [fetch, read]
  simp only [liftMemory, Except.mapError, Except.map, BitVec.ofNat_toNat, BitVec.setWidth_eq]

theorem cycle_of_execute (fetched : m.fetch = .ok w) (supported : Instruction.isSupported w = true)
    (executed : m.execute (Instruction.decode w) = .ok n) :
    m.cycle = .ok (Instruction.decode w, n.advance (Instruction.decode w)) := by
  simp only [cycle, fetched, bind, Except.bind, supported, ↓reduceIte, executed]
  rfl

theorem cycle_of_unsupported (fetched : m.fetch = .ok w)
    (unsupported : Instruction.isSupported w = false) :
    m.cycle = .error (.unsupported w m.pc) := by
  simp only [cycle, fetched, bind, Except.bind, unsupported, Bool.false_eq_true, ↓reduceIte]

theorem cycle_of_fetch_error {f : Fault} (failed : m.fetch = .error f) : m.cycle = .error f := by
  simp only [cycle, failed, bind, Except.bind]

theorem cycle_of_execute_error {f : Fault} (fetched : m.fetch = .ok w)
    (supported : Instruction.isSupported w = true)
    (failed : m.execute (Instruction.decode w) = .error f) : m.cycle = .error f := by
  simp only [cycle, fetched, bind, Except.bind, supported, ↓reduceIte, failed]

/-- A cycle that succeeds has fetched and executed a supported word. -/
theorem cycle_eq_ok {instr : Instruction} (h : m.cycle = .ok (instr, n)) :
    ∃ w k, m.fetch = .ok w ∧ Instruction.isSupported w = true ∧ instr = Instruction.decode w ∧
      m.execute instr = .ok k ∧ n = k.advance instr := by
  obtain ⟨w, fetched, h⟩ := bind_eq_ok.mp h
  cases supported : Instruction.isSupported w with
  | false =>
    simp only [supported] at h
    cases h
  | true =>
    rw [supported, if_pos rfl] at h
    obtain ⟨k, executed, h⟩ := bind_eq_ok.mp h
    cases pure_eq_ok.mp h
    exact ⟨w, k, fetched, supported, rfl, executed, rfl⟩

/-- Only an access to the memory makes a supported instruction fail. -/
theorem execute_eq_error (supported : Instruction.isSupported w = true) {f : Fault}
    (h : m.execute (Instruction.decode w) = .error f) :
    ∃ g a width, f = .memory g ∧
      (m.memory.readNumber width a = .error g ∨ ∃ v, m.memory.writeNumber width a v = .error g) := by
  rcases Instruction.codes_of_isSupported supported with
    ⟨opcode, op, funct⟩ | ⟨op, opcode⟩ | ⟨op, opcode⟩
  · rw [Instruction.decode_r opcode, funct] at h
    simp only [execute, executeR, ROp.ofFunct?_funct] at h
    split at h <;> cases h
  · rw [Instruction.decode_i opcode] at h
    simp only [execute, executeI, IOp.ofOpcode?_opcode] at h
    split at h
    · cases h
    · rcases bind_eq_error.mp h with failed | ⟨v, -, h⟩
      · obtain ⟨g, read, rfl⟩ := mapError_eq_error.mp failed
        exact ⟨g, _, _, rfl, Or.inl read⟩
      · cases h
    · rcases bind_eq_error.mp h with failed | ⟨memory, -, h⟩
      · obtain ⟨g, written, rfl⟩ := mapError_eq_error.mp failed
        exact ⟨g, _, _, rfl, Or.inr ⟨_, written⟩⟩
      · cases h
    · cases h
  · rw [Instruction.decode_j opcode] at h
    simp only [execute, executeJ, JOp.ofOpcode?_opcode] at h
    cases op <;> cases h

/-! ## Cycles in a row -/

theorem cycles_succ_eq_ok {k : Nat} {instrs : List Instruction}
    (h : m.cycles (k + 1) = .ok (instrs, n)) :
    ∃ instr next rest, m.cycle = .ok (instr, next) ∧ next.cycles k = .ok (rest, n) ∧
      instrs = instr :: rest := by
  obtain ⟨⟨instr, next⟩, first, h⟩ := bind_eq_ok.mp h
  obtain ⟨⟨rest, last⟩, others, h⟩ := bind_eq_ok.mp h
  cases pure_eq_ok.mp h
  exact ⟨instr, next, rest, first, others, rfl⟩

theorem cycles_succ_of_cycle {k : Nat} {instr : Instruction} {next : Machine}
    {rest : List Instruction} (first : m.cycle = .ok (instr, next))
    (others : next.cycles k = .ok (rest, n)) : m.cycles (k + 1) = .ok (instr :: rest, n) := by
  simp only [cycles, first, bind, Except.bind, others]
  rfl

/-- A run goes on from where it has come to. -/
theorem cycles_concat {k : Nat} {instrs : List Instruction} {instr : Instruction} {next : Machine}
    (begun : m.cycles k = .ok (instrs, n)) (last : n.cycle = .ok (instr, next)) :
    m.cycles (k + 1) = .ok (instrs ++ [instr], next) := by
  induction k generalizing m instrs with
  | zero =>
    cases begun
    exact cycles_succ_of_cycle last rfl
  | succ k ih =>
    obtain ⟨first, m', rest, cycled, others, rfl⟩ := cycles_succ_eq_ok begun
    exact cycles_succ_of_cycle cycled (ih others)

/-- A run of some length goes through the runs of every smaller length. -/
theorem cycles_of_le {k l : Nat} {instrs : List Instruction} (le : k ≤ l)
    (h : m.cycles l = .ok (instrs, n)) : ∃ last, m.cycles k = .ok (instrs.take k, last) := by
  induction k generalizing m l instrs with
  | zero => exact ⟨m, rfl⟩
  | succ k ih =>
    obtain ⟨l, rfl⟩ := Nat.exists_eq_add_of_le' (Nat.lt_of_lt_of_le (Nat.succ_pos k) le)
    obtain ⟨instr, next, rest, first, others, rfl⟩ := cycles_succ_eq_ok h
    obtain ⟨last, begun⟩ := ih (by omega) others
    exact ⟨last, cycles_succ_of_cycle first begun⟩

end PocketMips.Machine
