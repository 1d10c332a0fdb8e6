import PocketMips.Proofs.InPlace

/-!
# Failing cycles

A cycle fails for three reasons: the word at the program counter is not all in the memory, the word is not
supported, or a supported load or store is not all in the memory. Whatever the reason, nothing has been
changed then.
-/
namespace PocketMips

namespace Memory

variable {m : Memory} {capacity width : Nat} {a v : Int} {f : Fault}

/-- One of the bytes from an address on is outside of a memory of the capacity. -/
def Outside (capacity : Nat) (a : Int) (width : Nat) : Prop :=
  ∃ k : Nat, k < width ∧ (a + k < 0 ∨ (capacity : Int) ≤ a + k)

/-- The first and the last byte decide. -/
theorem outside_iff (pos : 0 < width) :
    Outside capacity a width ↔ a < 0 ∨ (capacity : Int) ≤ a + width - 1 := by
  constructor
  · rintro ⟨k, lt, below | above⟩
    · exact .inl (by omega)
    · exact .inr (by omega)
  · rintro (below | above)
    · exact ⟨0, pos, .inl (by omega)⟩
    · exact ⟨width - 1, by omega, .inr (by omega)⟩

theorem checkRange_eq_error_iff (pos : 0 < width) :
    m.checkRange a width = .error f ↔
      ∃ capacity, m.extent = .fixed capacity ∧ Outside capacity a width ∧
        f = .outOfRange a width capacity := by
  obtain ⟨extent, cells⟩ := m
  cases extent with
  | fixed capacity =>
    simp only [checkRange, Extent.fixed.injEq, exists_eq_left', outside_iff pos]
    split
    · rename_i outside
      rw [Except.error.injEq, and_iff_right outside, eq_comm]
    · rename_i inside
      refine iff_of_false (fun refused => ?_) fun why => inside why.1
      cases refused
  | sparse | unbacked => simp [checkRange]

theorem readNumber_eq_error_iff (backed : m.extent ≠ .unbacked) :
    m.readNumber width a = .error f ↔ m.checkRange a width = .error f := by
  rw [readNumber, map_eq_error]
  obtain ⟨extent, cells⟩ := m
  cases extent with
  | fixed capacity =>
    simp only [readBytes]
    cases checkRange _ a width <;> simp [bind, Except.bind, pure, Except.pure]
  | sparse => simp [readBytes, checkRange]
  | unbacked => exact absurd rfl backed

theorem writeNumber_eq_error_iff (backed : m.extent ≠ .unbacked) (pos : 0 < width) :
    m.writeNumber width a v = .error f ↔ m.checkRange a width = .error f := by
  have some : toBytes width v ≠ [] := List.ne_nil_of_length_pos (by rwa [length_toBytes])
  rw [writeNumber]
  obtain ⟨extent, cells⟩ := m
  cases extent with
  | fixed capacity | sparse =>
    simp only [writeBytes, if_neg some, length_toBytes]
    cases checkRange _ a width <;> simp [bind, Except.bind, pure, Except.pure]
  | unbacked => exact absurd rfl backed

end Memory

namespace Machine

open Memory (Outside)

variable {m n : Machine} {w : Word} {f : Fault} {a : Int} {width : Nat}

/-- The address and the width of the access of a load or a store. -/
def access? (m : Machine) : Instruction → Option (Int × Nat)
  | .i opcode rs _ immediate =>
    match (IOp.ofOpcode? opcode.toNat).map IOp.form with
    | some (.load width _) | some (.store width) =>
      some (Alu.add (m.get rs) (Alu.signExtend 16 immediate.toNat), width)
    | _ => none
  | _ => none

theorem access?_pos {instr : Instruction} (h : m.access? instr = some (a, width)) : 0 < width := by
  unfold access? at h
  split at h
  · rename_i opcode _ _ _
    cases found : IOp.ofOpcode? opcode.toNat with
    | none =>
      rw [found] at h
      cases h
    | some op =>
      rw [found] at h
      cases op <;> cases h <;> decide
  · cases h

/-- An access that is followed by changes alone fails if it is refused. -/
theorem liftMemory_eq_error_iff {α : Type} {x : Except Memory.Fault α} {next : α → Machine} :
    (do return next (← liftMemory x)) = .error f ↔ ∃ g, x = .error g ∧ f = .memory g := by
  cases x with
  | error g =>
    rw [show (do return next (← liftMemory (.error g))) = Except.error (.memory g) from rfl]
    simp [eq_comm]
  | ok b => exact iff_of_false nofun nofun

/-- A supported instruction fails if its access is refused. -/
theorem execute_eq_error_iff (backed : m.memory.extent ≠ .unbacked)
    (supported : Instruction.isSupported w = true) :
    m.execute (Instruction.decode w) = .error f ↔
      ∃ a width, m.access? (Instruction.decode w) = some (a, width) ∧
        ∃ g, m.memory.checkRange a width = .error g ∧ f = .memory g := by
  rcases Instruction.codes_of_isSupported supported with
    ⟨opcode, op, funct⟩ | ⟨op, opcode⟩ | ⟨op, opcode⟩
  · rw [Instruction.decode_r opcode, funct]
    simp only [execute, executeR, ROp.ofFunct?_funct]
    split <;> simp [access?]
  · rw [Instruction.decode_i opcode]
    have pos (width : Nat) (form : op.form = .store width) : 0 < width := by
      cases op <;> cases form <;> decide
    simp only [execute, executeI, access?, IOp.ofOpcode?_opcode, Option.map_some]
    cases form : op.form with
    | compute | branch => simp
    | load width signed =>
      refine liftMemory_eq_error_iff.trans ?_
      simp [Memory.readNumber_eq_error_iff backed]
    | store width =>
      refine liftMemory_eq_error_iff.trans ?_
      simp [Memory.writeNumber_eq_error_iff backed (pos width form)]
  · rw [Instruction.decode_j opcode]
    simp only [execute, executeJ, JOp.ofOpcode?_opcode]
    cases op <;> simp [access?]

/-- Why a cycle fails. -/
inductive Fails (m : Machine) : Fault → Prop
  /-- The word at the program counter is not all in the memory. -/
  | fetch {capacity : Nat} : m.memory.extent = .fixed capacity → Outside capacity m.pc 4 →
    Fails m (.memory (.outOfRange m.pc 4 capacity))
  /-- The word is not supported. -/
  | unsupported {w : Word} : m.fetch = .ok w → Instruction.isSupported w = false →
    Fails m (.unsupported w m.pc)
  /-- A load or store is not all in the memory. -/
  | access {w : Word} {a : Int} {width capacity : Nat} : m.fetch = .ok w →
    Instruction.isSupported w = true → m.access? (Instruction.decode w) = some (a, width) →
    m.memory.extent = .fixed capacity → Outside capacity a width →
    Fails m (.memory (.outOfRange a width capacity))

theorem fetch_eq_error_iff (backed : m.memory.extent ≠ .unbacked) :
    m.fetch = .error f ↔ ∃ g, m.memory.checkRange m.pc 4 = .error g ∧ f = .memory g := by
  rw [fetch, map_eq_error, liftMemory, mapError_eq_error]
  exact exists_congr fun g => and_congr (Memory.readNumber_eq_error_iff backed) eq_comm

theorem cycle_eq_error_iff (backed : m.memory.extent ≠ .unbacked) : m.cycle = .error f ↔ m.Fails f := by
  constructor
  · intro failed
    cases fetched : m.fetch with
    | error g =>
      rw [cycle_of_fetch_error fetched] at failed
      cases failed
      obtain ⟨g, refused, rfl⟩ := (fetch_eq_error_iff backed).mp fetched
      obtain ⟨capacity, fixed, outside, rfl⟩ := (Memory.checkRange_eq_error_iff (by decide)).mp refused
      exact .fetch fixed outside
    | ok w =>
      cases supported : Instruction.isSupported w with
      | false =>
        rw [cycle_of_unsupported fetched supported] at failed
        cases failed
        exact .unsupported fetched supported
      | true =>
        cases executed : m.execute (Instruction.decode w) with
        | error g =>
          rw [cycle_of_execute_error fetched supported executed] at failed
          cases failed
          obtain ⟨a, width, access, g, refused, rfl⟩ := (execute_eq_error_iff backed supported).mp executed
          obtain ⟨capacity, fixed, outside, rfl⟩ :=
            (Memory.checkRange_eq_error_iff (access?_pos access)).mp refused
          exact .access fetched supported access fixed outside
        | ok n =>
          rw [cycle_of_execute fetched supported executed] at failed
          cases failed
  · rintro (⟨fixed, outside⟩ | ⟨fetched, supported⟩ | ⟨fetched, supported, access, fixed, outside⟩)
    · have refused := (Memory.checkRange_eq_error_iff (by decide)).mpr ⟨_, fixed, outside, rfl⟩
      exact cycle_of_fetch_error ((fetch_eq_error_iff backed).mpr ⟨_, refused, rfl⟩)
    · exact cycle_of_unsupported fetched supported
    · have refused := (Memory.checkRange_eq_error_iff (access?_pos access)).mpr ⟨_, fixed, outside, rfl⟩
      exact cycle_of_execute_error fetched supported
        ((execute_eq_error_iff backed supported).mpr ⟨_, _, access, _, refused, rfl⟩)

/-- A cycle in place that fails leaves the machine as it was. -/
theorem run_eq_error_iff (backed : m.memory.extent ≠ .unbacked) :
    cycleInPlace.run m = .error f n ↔ m.Fails f ∧ n = m := by
  rw [run_cycleInPlace, attempt_eq_error, cycle_eq_error_iff backed]

/-- **A failed cycle changes nothing.** A cycle in place does what the cycle does, and one that fails leaves
the machine as it was: its registers, its program counter, its memory and the bounds of its program. It
fails at an unsupported word, told with the program counter, if that word is fetched there, and no supported
instruction is refused as unsupported when it is executed. It fails at an address if the memory is fixed
and does not have all the bytes of the word at the program counter, or all the bytes of the load or store
that a supported word asks for. -/
theorem failed_cycle_changes_nothing (m : Machine) (backed : m.memory.extent ≠ .unbacked) :
    cycleInPlace.run m = attempt m m.cycle ∧
      (∀ f n, cycleInPlace.run m = .error f n → n = m ∧
        ((∃ w pc, f = .unsupported w pc) ∨
          ∃ a width capacity, f = .memory (.outOfRange a width capacity))) ∧
      (∀ w pc, (∃ n, cycleInPlace.run m = .error (.unsupported w pc) n) ↔
        m.fetch = .ok w ∧ Instruction.isSupported w = false ∧ pc = m.pc) ∧
      (∀ w, Instruction.isSupported w = true → ∀ n k w' pc,
        (executeInPlace (Instruction.decode w)).run n ≠ .error (.unsupported w' pc) k) ∧
      ∀ a width capacity,
        (∃ n, cycleInPlace.run m = .error (.memory (.outOfRange a width capacity)) n) ↔
          m.memory.extent = .fixed capacity ∧
            ((a = m.pc ∧ width = 4 ∧ Outside capacity m.pc 4) ∨
              ∃ w k, m.fetch = .ok w ∧ Instruction.isSupported w = true ∧
                m.access? (Instruction.decode w) = some (a, k) ∧ width = k ∧ Outside capacity a k) := by
  have fails (f : Fault) : (∃ n, cycleInPlace.run m = .error f n) ↔ m.Fails f := by
    simp only [run_eq_error_iff backed, exists_and_left, exists_eq, and_true]
  refine ⟨run_cycleInPlace m, ?_, ?_, ?_, ?_⟩
  · intro f n failed
    obtain ⟨why, same⟩ := (run_eq_error_iff backed).mp failed
    refine ⟨same, ?_⟩
    cases why with
    | fetch | access => exact .inr ⟨_, _, _, rfl⟩
    | unsupported => exact .inl ⟨_, _, rfl⟩
  · intro w pc
    rw [fails]
    constructor
    · rintro ⟨⟩
      exact ⟨‹_›, ‹_›, rfl⟩
    · rintro ⟨fetched, unsupported, rfl⟩
      exact .unsupported fetched unsupported
  · intro w supported n k w' pc failed
    rw [run_executeInPlace, attempt_eq_error, map_eq_error] at failed
    obtain ⟨g, -, -, isMemory, -⟩ := execute_eq_error supported failed.1
    cases isMemory
  · intro a width capacity
    rw [fails]
    constructor
    · rintro ⟨⟩
      · exact ⟨‹_›, .inl ⟨rfl, rfl, ‹_›⟩⟩
      · exact ⟨‹_›, .inr ⟨_, _, ‹_›, ‹_›, ‹_›, rfl, ‹_›⟩⟩
    · rintro ⟨fixed, ⟨rfl, rfl, outside⟩ | ⟨w, k, fetched, supported, access, rfl, outside⟩⟩
      · exact .fetch fixed outside
      · exact .access fetched supported access fixed outside

/-- A store of a word over the end of its memory, and an unsupported word. -/
def spilling : Machine :=
  ⟨.cleared, 0,
    ⟨.fixed 8, Memory.setCells Int.toNat 0 (Image.ofWords [0xAC000006, 0xFFFFFFFF]) ∅⟩, 0, 8⟩

theorem spilling_changes_nothing :
    cycleInPlace.run spilling = .error (.memory (.outOfRange 6 4 8)) spilling ∧
      cycleInPlace.run { spilling with pc := 4 } =
        .error (.unsupported 0xFFFFFFFF 4) { spilling with pc := 4 } ∧
      cycleInPlace.run { spilling with pc := -1 } =
        .error (.memory (.outOfRange (-1) 4 8)) { spilling with pc := -1 } := by
  have store : spilling.fetch = .ok 0xAC000006 := by decide +kernel
  have unknown : Machine.fetch { spilling with pc := 4 } = .ok 0xFFFFFFFF := by decide +kernel
  have access : spilling.access? (Instruction.decode 0xAC000006) = some (6, 4) := by decide +kernel
  obtain ⟨-, same, -, -, outside⟩ := failed_cycle_changes_nothing spilling nofun
  obtain ⟨-, same₄, unsupported, -, -⟩ := failed_cycle_changes_nothing { spilling with pc := 4 } nofun
  obtain ⟨-, same₁, -, -, before⟩ := failed_cycle_changes_nothing { spilling with pc := -1 } nofun
  refine ⟨?_, ?_, ?_⟩
  · obtain ⟨n, failed⟩ := (outside 6 4 8).mpr
      ⟨rfl, .inr ⟨_, 4, store, by decide, access, rfl, 2, by decide, .inr (by decide)⟩⟩
    obtain ⟨rfl, -⟩ := same _ _ failed
    exact failed
  · obtain ⟨n, failed⟩ := (unsupported 0xFFFFFFFF 4).mpr ⟨unknown, by decide, rfl⟩
    obtain ⟨rfl, -⟩ := same₄ _ _ failed
    exact failed
  · obtain ⟨n, failed⟩ := (before (-1) 4 8).mpr ⟨rfl, .inl ⟨rfl, rfl, 0, by decide, .inl (by decide)⟩⟩
    obtain ⟨rfl, -⟩ := same₁ _ _ failed
    exact failed

end Machine

end PocketMips
