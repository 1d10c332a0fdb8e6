import PocketMips.Proofs.Faults
import PocketMips.Proofs.Refinement
import PocketMips.Proofs.Rounding
import PocketMips.Proofs.Splitting

/-!
# Straight-line programs

A program without jumps, branches and stores runs from its first word to its last one, whatever its registers
hold. It stops before that only at a load from outside of the memory, or where the time becomes too large for
a number.
-/
namespace PocketMips

namespace Instruction

/-- A store writes to the memory. -/
def isStore : Instruction → Bool
  | .i opcode .. =>
    match (IOp.ofOpcode? opcode.toNat).map IOp.form with
    | some (.store _) => true
    | _ => false
  | _ => false

/-- A supported word that neither jumps nor branches nor stores. -/
structure Plain (w : Word) : Prop where
  supported : isSupported w = true
  noJump : (decode w).isJump = false
  noBranch : (decode w).isBranch = false
  noStore : (decode w).isStore = false

instance (w : Word) : Decidable (Plain w) :=
  decidable_of_iff (isSupported w = true ∧ (decode w).isJump = false ∧ (decode w).isBranch = false ∧
      (decode w).isStore = false)
    ⟨fun ⟨a, b, c, d⟩ => ⟨a, b, c, d⟩, fun ⟨a, b, c, d⟩ => ⟨a, b, c, d⟩⟩

theorem kind_ne_j_of_noJump {instr : Instruction} (h : instr.isJump = false) : instr.kind ≠ .j := by
  cases instr with
  | r | i => nofun
  | j => cases h

end Instruction

namespace Machine

open Instruction (Plain)
open Memory (Outside)

variable {m n fresh : Machine} {w : Word} {instr : Instruction} {program : List Word} {capacity k : Nat}
  {start : Int} {registers : RegisterFile}

/-! ## One word -/

/-- An instruction that neither jumps nor branches nor stores changes registers at most. -/
theorem registers_of_execute (noJump : instr.isJump = false) (noBranch : instr.isBranch = false)
    (noStore : instr.isStore = false) (h : m.execute instr = .ok n) :
    ∃ registers, n = { m with registers } := by
  cases instr with
  | r rs rt rd shamt funct =>
    replace h : m.executeR rs rt rd shamt funct = .ok n := h
    unfold executeR at h
    split at h
    · cases h
    · rename_i op named
      split at h
      · cases h
        exact ⟨_, rfl⟩
      · have jr : op = .jr := by cases op <;> simp_all [rValue]
        simp [Instruction.isJump, named, jr] at noJump
  | i opcode rs rt immediate =>
    replace h : m.executeI opcode rs rt immediate = .ok n := h
    unfold executeI at h
    dsimp only at h
    split at h
    · cases h
    · rename_i op named
      split at h
      · cases h
        exact ⟨_, rfl⟩
      · obtain ⟨v, -, same⟩ := bind_eq_ok.mp h
        cases pure_eq_ok.mp same
        exact ⟨_, rfl⟩
      · rename_i form
        simp [Instruction.isStore, named, form] at noStore
      · rename_i form
        simp [Instruction.isBranch, named, IOp.isBranch, form] at noBranch
  | j => cases noJump

/-- A machine that has come to a word of its program with nothing changed but registers. -/
def atWord (fresh : Machine) (registers : RegisterFile) (k : Nat) : Machine :=
  { fresh with registers, pc := fresh.start + 4 * k }

/-- A program of plain words is in a fixed memory, from the start of a freshly loaded machine on. -/
structure Lined (fresh : Machine) (program : List Word) (capacity : Nat) : Prop where
  stop : fresh.stop = fresh.start + 4 * program.length
  extent : fresh.memory.extent = .fixed capacity
  plain : ∀ w ∈ program, Plain w
  words : ∀ (k : Nat) w, program[k]? = some w → fresh.memory.readWord (fresh.start + 4 * k) = .ok w.toNat
  bounds : program ≠ [] → 0 ≤ fresh.start ∧ fresh.stop < 0x100000000

/-- What a load leaves is at the first word. -/
theorem lined_of_load (small : capacity < 0x100000000) (fixed : m.memory.extent = .fixed capacity)
    (plain : ∀ w ∈ program, Plain w)
    (loaded : m.load (Image.ofWords (program.map fun w => w.toNat)) start = .ok fresh) :
    fresh.start = start ∧ fresh.Lined program capacity ∧ fresh = fresh.atWord .cleared 0 := by
  have extent := (extent_of_load loaded).trans fixed
  have length : (Image.ofWords (program.map fun w => (w.toNat : Int))).length = 4 * program.length := by
    rw [Image.length_ofWords, List.length_map]
  have inside (nonempty : program ≠ []) : 0 ≤ start ∧ start + 4 * program.length ≤ capacity := by
    obtain ⟨cleared, memory, clear, written, rfl⟩ := load_eq_ok loaded
    have pos := List.length_pos_of_ne_nil nonempty
    have holds := Memory.holds_of_writeBytes (List.ne_nil_of_length_pos (by omega)) written
    rw [Memory.Holds, (Memory.extent_of_clear clear).trans fixed] at holds
    dsimp only at holds
    omega
  have words (k : Nat) (w : Word) (found : program[k]? = some w) :
      fresh.memory.readWord (start + 4 * k) = .ok w.toNat := by
    have nonempty : program ≠ [] := by
      rintro rfl
      cases found
    obtain ⟨nonneg, le⟩ := inside nonempty
    have placed : (program.map fun w => (w.toNat : Int))[k]? = some (w.toNat : Int) := by
      rw [List.getElem?_map, found, Option.map_some]
    have read := readWord_of_load loaded (by rw [List.length_map]; omega) placed
    rwa [BitVec.ofInt_natCast, BitVec.ofNat_toNat, BitVec.setWidth_eq] at read
  obtain ⟨_, _, -, -, rfl⟩ := load_eq_ok loaded
  refine ⟨rfl, ⟨by rw [length]; rfl, extent, plain, words, fun nonempty => ?_⟩, ?_⟩
  · obtain ⟨nonneg, le⟩ := inside nonempty
    exact ⟨nonneg, by dsimp only; omega⟩
  · simp [atWord]

namespace Lined

/-- The program has finished behind its last word, and not before. -/
theorem hasFinished_iff (h : fresh.Lined program capacity) :
    (fresh.atWord registers k).hasFinished = true ↔ program.length ≤ k := by
  simp only [hasFinished, atWord, h.stop, Bool.not_eq_true', Bool.and_eq_false_iff,
    decide_eq_false_iff_not]
  omega

/-- A cycle at a word executes it and comes to the next one, or it is a load from outside of the memory. -/
theorem cycle_cases (h : fresh.Lined program capacity) (registers : RegisterFile)
    (found : program[k]? = some w) :
    (∃ registers', (fresh.atWord registers k).cycle =
      .ok (Instruction.decode w, fresh.atWord registers' (k + 1))) ∨
    ∃ a width, (fresh.atWord registers k).access? (Instruction.decode w) = some (a, width) ∧
      Outside capacity a width ∧
      (fresh.atWord registers k).cycle = .error (.memory (.outOfRange a width capacity)) := by
  have plain := h.plain w (List.mem_of_getElem? found)
  have fetched : (fresh.atWord registers k).fetch = .ok w := fetch_of_readWord (h.words k w found)
  cases executed : (fresh.atWord registers k).execute (Instruction.decode w) with
  | ok n =>
    obtain ⟨registers', rfl⟩ := registers_of_execute plain.noJump plain.noBranch plain.noStore executed
    refine .inl ⟨registers', (cycle_of_execute fetched plain.supported executed).trans ?_⟩
    obtain ⟨inside, -⟩ := List.getElem?_eq_some_iff.mp found
    obtain ⟨nonneg, small⟩ := h.bounds (List.ne_nil_of_length_pos (by omega))
    have stop := h.stop
    -- the program ends within the address space, so that the program counter does not wrap
    have next : Alu.add (fresh.start + 4 * k) 4 = fresh.start + 4 * (k + 1 : Nat) := by
      simp only [Alu.add, Alu.toUnsigned, Alu.modulus]
      omega
    rw [advance_of_sequential (by rw [plain.noJump, plain.noBranch]; rfl)]
    simp only [atWord, next]
  | error f =>
    have backed : (fresh.atWord registers k).memory.extent ≠ .unbacked := by
      rw [show (fresh.atWord registers k).memory = fresh.memory from rfl, h.extent]
      intro same
      cases same
    obtain ⟨a, width, access, g, refused, rfl⟩ := (execute_eq_error_iff backed plain.supported).mp executed
    obtain ⟨capacity', fixed, outside, rfl⟩ := (Memory.checkRange_eq_error_iff (access?_pos access)).mp refused
    cases h.extent.symm.trans fixed
    exact .inr ⟨a, width, access, outside, cycle_of_execute_error fetched plain.supported executed⟩

end Lined

end Machine

namespace Simulator

open Instruction (Plain)

namespace Controller

/-- From a freshly loaded controller on, the first words of the program have been executed in their order and
counted. Nothing has changed in the machine but registers and the program counter, which is at the next
word. -/
structure Passed (c : Controller) (program : List Word) (k : Nat) (d : Controller) : Prop where
  cycles : c.machine.cycles k = .ok ((program.take k).map Instruction.decode, d.machine)
  machine : ∃ registers, d.machine = c.machine.atWord registers k
  counts : ∀ kind, d.statistics.countOf kind =
    (program.take k).countP fun w => (Instruction.decode w).kind = kind
  noJumps : d.statistics.jCount = 0
  clock : d.clock = c.clock

/-- How a run of a straight-line program ends. -/
inductive Ends (c : Controller) (program : List Word) (capacity : Nat) :
    Except Failure Reply → Controller → Prop
  /-- All words have been executed. -/
  | finished {d : Controller} : c.Passed program program.length d → d.machine.hasFinished = true →
    Ends c program capacity (.ok (.snapshot d.stored)) d
  /-- The words before a load have been executed, and not all bytes of the load are in the memory. -/
  | refused {d : Controller} {k : Nat} {w : Word} {a : Int} {width : Nat} : program[k]? = some w →
    c.Passed program k d → d.machine.access? (Instruction.decode w) = some (a, width) →
    Memory.Outside capacity a width →
    Ends c program capacity (.error (.machine (.memory (.outOfRange a width capacity)))) d
  /-- A word has been executed and counted whose time is too large for a number. -/
  | overflow {d : Controller} {k : Nat} : k < program.length → c.Passed program (k + 1) d →
    d.statistics.timeUnder? c.clock = none → Ends c program capacity (.error .overflow) d

variable {c d : Controller} {program : List Word} {w : Word} {capacity k : Nat}

/-- One more word has been executed and counted. -/
theorem Passed.next {d' : Controller} (passed : c.Passed program k d) (plain : Plain w)
    (found : program[k]? = some w) (cycle : d.machine.cycle = .ok (Instruction.decode w, d'.machine))
    (machine : ∃ registers, d'.machine = c.machine.atWord registers (k + 1))
    (count : ∀ kind, d'.statistics.countOf kind =
      d.statistics.countOf kind + if kind = (Instruction.decode w).kind then 1 else 0)
    (clock : d'.clock = d.clock) : c.Passed program (k + 1) d' := by
  have taken : program.take (k + 1) = program.take k ++ [w] := by
    rw [List.take_add_one, found]
    rfl
  refine ⟨?_, machine, fun kind => ?_, ?_, clock.trans passed.clock⟩
  · rw [taken, List.map_append]
    exact Machine.cycles_concat passed.cycles cycle
  · rw [count, passed.counts, taken, List.countP_append, List.countP_singleton]
    simp only [decide_eq_true_eq, @eq_comm _ kind]
  · have noJump := Instruction.kind_ne_j_of_noJump plain.noJump
    exact (count .j).trans (by rw [if_neg noJump.symm]; exact passed.noJumps)

theorem Passed.hasFinished_iff (passed : c.Passed program k d)
    (lined : c.machine.Lined program capacity) : d.machine.hasFinished = true ↔ program.length ≤ k := by
  obtain ⟨registers, here⟩ := passed.machine
  rw [here]
  exact lined.hasFinished_iff

/-- The next word is executed, or it is a load from outside of the memory, or its time is too large. -/
theorem Passed.executeNext_cases (passed : c.Passed program k d)
    (lined : c.machine.Lined program capacity) (found : program[k]? = some w) :
    (∃ finished, d.executeNext.1 = .stepped finished ∧ c.Passed program (k + 1) d.executeNext.2) ∨
    (∃ (a : Int) (width : Nat), d.executeNext.1 = .failed (.memory (.outOfRange a width capacity)) ∧
      d.machine.access? (Instruction.decode w) = some (a, width) ∧ Memory.Outside capacity a width ∧
      c.Passed program k d.executeNext.2 ∧ d.executeNext.2.machine = d.machine) ∨
    (d.executeNext.1 = .overflow ∧ c.Passed program (k + 1) d.executeNext.2 ∧
      d.executeNext.2.statistics.timeUnder? c.clock = none) := by
  have plain := lined.plain w (List.mem_of_getElem? found)
  have clock : d.executeNext.2.clock = d.clock := by
    obtain ⟨_, _, _, _, _, _, fields⟩ := d.executeNext_fields
    rw [fields]
  have going : d.machine.hasFinished = false := by
    obtain ⟨inside, -⟩ := List.getElem?_eq_some_iff.mp found
    exact eq_false_of_ne_true fun finished => absurd ((passed.hasFinished_iff lined).mp finished) (by omega)
  obtain ⟨registers, here⟩ := passed.machine
  -- the machine decides what is next, and what comes of that is one of the four cases of a controller
  rcases lined.cycle_cases registers found with
    ⟨registers', cycled⟩ | ⟨a, width, access, outside, failed⟩
  · rw [← here] at cycled
    rcases d.executeNext_cases with ⟨-, finished, -⟩ | ⟨instr, finished, outcome, executes⟩ |
      ⟨f, -, failed, -⟩ | ⟨instr, outcome, overruns⟩
    · rw [going] at finished
      cases finished
    · obtain ⟨rfl, same⟩ := Prod.mk.inj (Except.ok.inj (executes.cycle.symm.trans cycled))
      exact .inl ⟨finished, outcome, passed.next plain found executes.cycle ⟨registers', same⟩
        executes.count clock⟩
    · cases cycled.symm.trans failed
    · obtain ⟨rfl, same⟩ := Prod.mk.inj (Except.ok.inj (overruns.cycle.symm.trans cycled))
      refine .inr (.inr ⟨outcome, passed.next plain found overruns.cycle ⟨registers', same⟩
        (fun kind => ?_) clock, ?_⟩)
      · rw [overruns.statistics]
        exact d.statistics.countOf_count _ _ kind
      · rw [overruns.statistics, ← passed.clock]
        exact overruns.time
  · rw [← here] at access failed
    rcases d.executeNext_cases with ⟨-, finished, -⟩ | ⟨instr, -, -, executes⟩ |
      ⟨f, outcome, failed', stays⟩ | ⟨instr, -, overruns⟩
    · rw [going] at finished
      cases finished
    · cases failed.symm.trans executes.cycle
    · cases failed.symm.trans failed'
      refine .inr (.inl ⟨a, width, outcome, access, outside, ⟨?_, ?_, ?_, ?_, clock.trans passed.clock⟩,
        stays.machine⟩)
      · rw [stays.machine]
        exact passed.cycles
      · rw [stays.machine]
        exact passed.machine
      · rw [stays.statistics]
        exact passed.counts
      · rw [stays.statistics]
        exact passed.noJumps
    · cases failed.symm.trans overruns.cycle

/-- A load puts the program in place with nothing executed. -/
theorem Passed.of_place {d : Controller} {labels : Assembly.Labels} (small : capacity < 0x100000000)
    (fixed : c.machine.memory.extent = .fixed capacity) (plain : ∀ w ∈ program, Plain w)
    (placed : c.place program labels = (.ok (), d)) :
    c.setup.loadAddress.Serves d.machine.start program ∧ d.machine.Lined program capacity ∧
      d.Passed program 0 d ∧ d.status = c.status ∧ d.lost = c.lost := by
  obtain ⟨start, after, serves, installed, same⟩ := place_eq_ok placed
  obtain ⟨fresh, loaded, rfl⟩ := reinstall_eq_ok_iff.mp installed
  obtain ⟨rfl, lined, first⟩ := Machine.lined_of_load small fixed plain loaded
  have passed {d : Controller} (machine : d.machine = fresh) (statistics : d.statistics = {}) :
      d.Passed program 0 d := by
    refine ⟨rfl, ⟨.cleared, ?_⟩, fun kind => ?_, ?_, rfl⟩
    · rw [machine]
      exact first
    · rw [statistics]
      cases kind <;> rfl
    · rw [statistics]
  rcases same with rfl | ⟨v, rfl⟩
  · exact ⟨serves, lined, passed rfl rfl, rfl, rfl⟩
  · exact ⟨serves, lined, passed rfl rfl, rfl, rfl⟩

/-- The counts of the first words are no more than these. -/
theorem Passed.few (passed : c.Passed program k d) (le : k ≤ program.length) :
    d.statistics.rCount * c.clock.rCycles + d.statistics.iCount * c.clock.iCycles +
      d.statistics.jCount * c.clock.jCycles ≤ program.length * max c.clock.rCycles c.clock.iCycles := by
  have total : d.statistics.rCount + d.statistics.iCount ≤ program.length := by
    have split := (program.take k).length_eq_countP_add_countP fun w => (Instruction.decode w).kind = .r
    have others : d.statistics.iCount ≤
        (program.take k).countP fun w => ¬decide ((Instruction.decode w).kind = .r) = true := by
      refine (passed.counts .i).le.trans (List.countP_mono_left fun w _ is => ?_)
      simp [of_decide_eq_true is]
    rw [List.length_take_of_le le, ← passed.counts .r] at split
    have r : d.statistics.countOf .r = d.statistics.rCount := rfl
    omega
  rw [passed.noJumps, Nat.zero_mul, Nat.add_zero]
  calc d.statistics.rCount * c.clock.rCycles + d.statistics.iCount * c.clock.iCycles
      ≤ d.statistics.rCount * max c.clock.rCycles c.clock.iCycles +
          d.statistics.iCount * max c.clock.rCycles c.clock.iCycles :=
        Nat.add_le_add (Nat.mul_le_mul_left _ (Nat.le_max_left ..)) (Nat.mul_le_mul_left _ (Nat.le_max_right ..))
    _ = (d.statistics.rCount + d.statistics.iCount) * max c.clock.rCycles c.clock.iCycles :=
        (Nat.add_mul ..).symm
    _ ≤ program.length * max c.clock.rCycles c.clock.iCycles := Nat.mul_le_mul_right _ total

end Controller

namespace Session

open Controller (Passed Ends)

variable {s t : Session} {c : Controller} {program : List Word} {depth turns capacity limit k : Nat}

/-- A run to completion goes on from a word to the end of the program, or it is stopped. -/
theorem Ready.complete_ends (depth turns : Nat) (ready : s.Ready) (lined : c.machine.Lined program capacity)
    (passed : c.Passed program k s.controller) (le : k ≤ program.length)
    (enough : program.length ≤ k + limit) : ∃ r u,
      complete (perform (depth + 1) turns) limit s.controller.stored s = some (r, u) ∧
        Ends c program capacity (r.map .snapshot) u.controller := by
  -- the limit goes down as the words before the end become fewer
  induction limit generalizing s k with
  | zero =>
    obtain rfl : k = program.length := by omega
    exact ⟨_, s, rfl, .finished passed ((passed.hasFinished_iff lined).mpr le)⟩
  | succ limit ih =>
    rcases Nat.eq_or_lt_of_le le with rfl | lt
    · have finished := (passed.hasFinished_iff lined).mpr le
      exact ⟨_, s, complete_of_finished finished _ _, .finished passed finished⟩
    have going : s.controller.machine.hasFinished ≠ true := fun finished =>
      absurd ((passed.hasFinished_iff lined).mp finished) (by omega)
    have found : program[k]? = some program[k] := List.getElem?_eq_getElem lt
    rcases passed.executeNext_cases lined found with ⟨finished, outcome, next⟩ |
      ⟨a, width, outcome, access, outside, same, machine⟩ | ⟨outcome, next, large⟩
    · obtain ⟨v, completes, after, only, idle, -⟩ :=
        exists_complete_step depth turns limit ready.kept ready.only ready.idle outcome
      obtain ⟨_, _, _, _, _, _, fields⟩ := s.controller.executeNext_fields
      have kept : v.controller.lost = false := by
        rw [after, fields]
        exact ready.kept
      rw [completes]
      rw [← after] at next
      exact ih ⟨idle, kept, only⟩ next lt (by omega)
    · obtain ⟨v, advanced, after, -⟩ := exists_advance depth turns .caller ready.kept ready.only
      rw [outcome] at advanced
      rw [← machine, ← after] at access
      rw [← after] at same
      refine ⟨_, v, by rw [complete, if_neg going, advanced]; rfl, ?_⟩
      have told : failureOf v.controller (.memory (.outOfRange a width capacity)) =
          .machine (.memory (.outOfRange a width capacity)) := by
        unfold failureOf
        split
        · contradiction
        · rfl
      show Ends c program capacity (.error (failureOf v.controller _)) v.controller
      rw [told]
      exact .refused found same access outside
    · obtain ⟨v, advanced, after, -⟩ := exists_advance depth turns .caller ready.kept ready.only
      rw [outcome] at advanced
      rw [← after] at next large
      exact ⟨_, v, by rw [complete, if_neg going, advanced]; rfl, .overflow lt next large⟩

/-- **A straight-line program runs for exactly its length.** While observers only watch, a load has put a program
without jumps, branches and stores into a fixed memory, at any address and under any clock. A run to completion
whose limit is not less than the length of the program then comes to an end. It has executed all of its words in
their order, once each, has counted them by their classes and has changed nothing but registers; or it fails at
the first load from outside of the memory, with the words before it executed and counted. The one exception is a
word whose time is too large for a number: it is executed and counted as well, but the run fails. That takes a
clock under which the words last `2 ^ 1023` cycles. -/
theorem straight_line_run_ends (depth turns : Nat) {call : Call} {depth' turns' : Nat}
    (kept : s.controller.lost = false) (only : s.Only Call.Watches)
    (fixed : s.controller.machine.memory.extent = .fixed capacity)
    (small : capacity < 0x100000000) (plain : ∀ w ∈ program, Plain w) (loads : call.Loads)
    (loaded : perform depth' turns' call s = some (.ok (.words program), t))
    (enough : program.length ≤ limit) :
    s.controller.setup.loadAddress.Serves t.controller.machine.start program ∧ ∃ r u,
      perform (depth + 2) turns (.runToCompletion limit) t = some (r, u) ∧
      Ends t.controller program capacity r u.controller ∧
      (r = .error .overflow → 1 <<< 1023 ≤
        program.length * max t.controller.clock.rCycles t.controller.clock.iCycles) := by
  obtain ⟨_, labels, ⟨⟩, idle, placed, only⟩ := place_of_load loads only loaded
  obtain ⟨serves, lined, passed, status, lost⟩ := Passed.of_place small fixed plain placed
  have ready : t.Ready := ⟨status.trans idle, lost.trans kept, only⟩
  have room : program.length ≤ 0 + limit := by rwa [Nat.zero_add]
  obtain ⟨r, u, completed, ends⟩ := ready.complete_ends depth turns lined passed (Nat.zero_le _) room
  refine ⟨serves, _, u, by rw [ready.perform_eq, completed]; rfl, ends, fun overflow => ?_⟩
  generalize r.map Reply.snapshot = answer at ends overflow
  cases ends with
  | finished | refused => cases overflow
  | overflow lt passed large =>
    refine Nat.not_lt.mp fun less => ?_
    obtain ⟨time, fits⟩ := u.controller.statistics.exists_timeUnder? t.controller.clock
      ((passed.few lt).trans_lt less)
    rw [large] at fits
    cases fits

/-- A session that loads programs at the second word of a small memory. -/
def cramped : Session := create (.create (.blank (.fixed 24)) .standard { loadAddress := .whole 4 }) false

/-- The first load is inside of the memory, and the second one begins at its end: it is refused, and the three
words before it have been executed. -/
theorem cramped_run_ends : ∃ s t e a, ∃ width : Nat,
    perform 3 3 (.loadWords [0x2008000A, 0x8D090000, 0x01284820, 0x810A000E]) cramped =
        some (.ok (.words [0x2008000A, 0x8D090000, 0x01284820, 0x810A000E]), s) ∧
      perform 3 3 (.runToCompletion 4) s = some (.error e, t) ∧
      e = .machine (.memory (.outOfRange a width 24)) ∧ Memory.Outside 24 a width ∧
      s.controller.Passed [0x2008000A, 0x8D090000, 0x01284820, 0x810A000E] 3 t.controller ∧
      t.controller.machine.pc = 16 ∧ t.controller.statistics.rCount = 1 ∧
      t.controller.statistics.iCount = 2 := by
  have lived : (do
      let loaded ← succeeds 3 3 (.loadWords [0x2008000A, 0x8D090000, 0x01284820, 0x810A000E]) cramped
      let refused ← fails 3 3 (.runToCompletion 4) loaded.2
      let c := refused.2.controller
      return (programOf? loaded.1, refused.1.ofRun?.isNone, c.machine.pc,
        [c.statistics.rCount, c.statistics.iCount])) =
          some (some [0x2008000A, 0x8D090000, 0x01284820, 0x810A000E], true, 16, [1, 2]) := by
    decide +kernel
  obtain ⟨⟨loaded, s⟩, installed, lived⟩ := Option.bind_eq_some_iff.mp lived
  obtain ⟨⟨e, t⟩, refused, lived⟩ := Option.bind_eq_some_iff.mp lived
  replace installed := perform_of_succeeds installed
  replace refused := perform_of_fails refused
  have parts := Option.some.inj lived
  simp only [Prod.mk.injEq, List.cons.injEq, and_true] at parts
  obtain ⟨replied, ofMachine, pc, r, i⟩ := parts
  cases eq_of_programOf? replied
  have fixed : cramped.controller.machine.memory.extent = .fixed 24 := rfl
  have plain : ∀ w ∈ ([0x2008000A, 0x8D090000, 0x01284820, 0x810A000E] : List Word), Plain w := by
    rw [← List.forall_iff_forall_mem]
    decide +kernel
  obtain ⟨serves, answer, u, ran, ends, -⟩ := straight_line_run_ends 1 3 rfl (only_create _ _)
    fixed (by decide) plain (by trivial) installed (Nat.le_refl 4)
  cases refused.symm.trans ran
  cases ends with
  | @refused _ k w a width found passed access outside =>
    obtain ⟨registers, here⟩ := passed.machine
    have start : s.controller.machine.start = 4 := serves
    have place : (16 : Int) = s.controller.machine.start + 4 * k := pc.symm.trans (congrArg Machine.pc here)
    obtain rfl : k = 3 := by omega
    exact ⟨s, t, _, a, width, installed, refused, rfl, outside, passed, pc, r, i⟩
  | overflow => cases ofMachine

/-- A simulator with a small memory and the clock of the one that is late. -/
def lateCramped : Session :=
  create (.create (.blank (.fixed 24)) late.controller.clock {}) false

/-- A run fails though its program has no load. -/
theorem late_straight_line_fails : ∃ s t e,
    perform 3 3 (.loadWords [0x2008000A]) lateCramped = some (.ok (.words [0x2008000A]), s) ∧
      Plain 0x2008000A ∧ s.controller.machine.access? (Instruction.decode 0x2008000A) = none ∧
      perform 3 3 (.runToCompletion 1) s = some (.error e, t) ∧ ∀ f, e ≠ .machine f := by
  have lived : (do
      let loaded ← succeeds 3 3 (.loadWords [0x2008000A]) lateCramped
      let failed ← fails 3 3 (.runToCompletion 1) loaded.2
      return (programOf? loaded.1, failed.1.ofRun?.isSome,
        loaded.2.controller.machine.access? (Instruction.decode 0x2008000A))) =
          some (some [0x2008000A], true, none) := by
    decide +kernel
  obtain ⟨⟨loaded, s⟩, installed, lived⟩ := Option.bind_eq_some_iff.mp lived
  obtain ⟨⟨e, t⟩, failed, lived⟩ := Option.bind_eq_some_iff.mp lived
  have parts := Option.some.inj lived
  simp only [Prod.mk.injEq] at parts
  obtain ⟨replied, notMachine, noLoad⟩ := parts
  cases eq_of_programOf? replied
  refine ⟨s, t, e, perform_of_succeeds installed, by decide, noLoad, perform_of_fails failed, fun f is => ?_⟩
  rw [is] at notMachine
  cases notMachine

end Session

end Simulator

end PocketMips
