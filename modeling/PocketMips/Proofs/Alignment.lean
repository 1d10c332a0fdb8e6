import PocketMips.Proofs.Following
import PocketMips.Proofs.Transfer

/-!
# Execution inside the program

A program is executed as long as the program counter is inside it. As long as every jump leads to a whole
number of words from the start of the program, the word there is inside it as well.
-/
namespace PocketMips

namespace Machine

variable {m n : Machine} {instr : Instruction} {instrs : List Instruction} {k : Nat}

/-- The program counter is a whole number of words from the start of the program. -/
def Aligned (m : Machine) : Prop := (m.pc - m.start) % 4 = 0

/-- The instruction jumps to what is no whole number of words from the start of the program: to such a
number in a register, or to any word of the memory if the program starts between two of them. -/
def Strays (m : Machine) : Instruction → Prop
  | .r rs _ _ _ funct => ROp.ofFunct? funct.toNat = some .jr ∧ (m.get rs - m.start) % 4 ≠ 0
  | .i .. => False
  | .j .. => m.start % 4 ≠ 0

/-- None of the first cycles executes an instruction that strays. -/
def Straight (m : Machine) (k : Nat) : Prop :=
  ∀ i < k, ∀ instrs n instr next, m.cycles i = .ok (instrs, n) → n.cycle = .ok (instr, next) →
    ¬n.Strays instr

instance (m : Machine) (instr : Instruction) : Decidable (m.Strays instr) :=
  match instr with
  | .r rs _ _ _ funct =>
    inferInstanceAs (Decidable (ROp.ofFunct? funct.toNat = some .jr ∧ (m.get rs - m.start) % 4 ≠ 0))
  | .i .. => .isFalse id
  | .j .. => inferInstanceAs (Decidable (m.start % 4 ≠ 0))

instance (m : Machine) (k : Nat) : Decidable (m.Straight k) :=
  decidable_of_iff (∀ i < k, ∀ p ∈ (m.cycles i).toOption, ∀ q ∈ p.2.cycle.toOption, ¬p.2.Strays q.1) <| by
    simp only [mem_toOption_iff, Prod.forall, Straight]
    exact ⟨fun h i lt instrs n instr next run => h i lt instrs n run instr next,
      fun h i lt instrs n run instr next => h i lt instrs n instr next run⟩

/-! ## One cycle -/

theorem jumpTarget_aligned (pc : Int) (target : BitVec 26) :
    Alu.or (Alu.and pc 0xF0000000) (target.toNat * 4) % 4 = 0 := by
  have residue : Alu.and pc 0xF0000000 = Alu.and (pc % 0x100000000) 0xF0000000 := by
    simp [Alu.and, Alu.toUnsigned, Alu.modulus]
  rw [residue, jumpTarget_of_lt (by omega) (by omega)]
  omega

namespace Aligned

theorem execute (aligned : m.Aligned) (straight : ¬m.Strays instr) (h : m.execute instr = .ok n) :
    n.Aligned := by
  unfold Aligned at aligned ⊢
  rw [(sameProgram_of_execute h).start]
  cases instr with
  | r rs rt rd shamt funct =>
    replace h : m.executeR rs rt rd shamt funct = .ok n := h
    unfold executeR at h
    split at h
    · cases h
    · rename_i op named
      split at h
      · cases h
        exact aligned
      · rename_i jumps
        cases h
        have jr : op = .jr := by cases op <;> simp_all [rValue]
        simpa [Strays, named, jr] using straight
  | i opcode rs rt immediate =>
    replace h : m.executeI opcode rs rt immediate = .ok n := h
    unfold executeI at h
    dsimp only at h
    split at h
    · cases h
    · split at h
      · cases h
        exact aligned
      · obtain ⟨v, -, same⟩ := bind_eq_ok.mp h
        cases pure_eq_ok.mp same
        exact aligned
      · obtain ⟨memory, -, same⟩ := bind_eq_ok.mp h
        cases pure_eq_ok.mp same
        exact aligned
      · cases h
        dsimp only
        rw [branchTarget_eq]
        simp only [Alu.add, Alu.toUnsigned, Alu.modulus]
        split <;> omega
  | j opcode target =>
    replace h : m.executeJ opcode target = .ok n := h
    have target := jumpTarget_aligned m.pc target
    have start : m.start % 4 = 0 := by simpa [Strays] using straight
    unfold executeJ at h
    dsimp only at h
    split at h <;> cases h <;> (dsimp only; omega)

theorem advance (aligned : m.Aligned) (instr : Instruction) : (m.advance instr).Aligned := by
  unfold Machine.advance
  split
  · exact aligned
  · unfold Aligned at aligned ⊢
    simp only [Alu.add, Alu.toUnsigned, Alu.modulus]
    omega

end Aligned

theorem Aligned.cycle (aligned : m.Aligned) (straight : ¬m.Strays instr)
    (h : m.cycle = .ok (instr, n)) : n.Aligned := by
  obtain ⟨w, k, -, -, -, executed, rfl⟩ := cycle_eq_ok h
  exact (aligned.execute straight executed).advance instr

/-! ## Cycles in a row -/

theorem Straight.tail {next : Machine} (straight : m.Straight (k + 1))
    (cycled : m.cycle = .ok (instr, next)) : next.Straight k := fun i lt _ n instr' next' run =>
  straight (i + 1) (by omega) _ n instr' next' (cycles_succ_of_cycle cycled run)

/-- A run that goes straight keeps the program counter aligned. -/
theorem Aligned.cycles (aligned : m.Aligned) (straight : m.Straight k)
    (h : m.cycles k = .ok (instrs, n)) : n.Aligned := by
  induction k generalizing m instrs with
  | zero =>
    cases h
    exact aligned
  | succ k ih =>
    obtain ⟨instr, next, rest, cycled, others, -⟩ := cycles_succ_eq_ok h
    have first := straight 0 (by omega) [] m instr next rfl cycled
    exact ih (aligned.cycle first cycled) (straight.tail cycled) others

end Machine

namespace Simulator

namespace Controller.Follows

variable {start : Int} {program : List Word} {m fresh : Machine} {c : Controller}

/-- The bounds of the program, also while it is executed. -/
theorem bounds (loaded : m.load (Image.ofWords (program.map fun w => w.toNat)) start = .ok fresh)
    (h : c.Follows start program fresh) :
    c.machine.start = start ∧ c.machine.stop = start + 4 * program.length := by
  obtain ⟨instrs, run⟩ := h.reached
  obtain ⟨first, last⟩ := Machine.bounds_of_cycles run
  obtain ⟨start, stop⟩ := Machine.bounds_of_load loaded
  rw [List.length_map] at stop
  exact ⟨first.trans start, last.trans stop⟩

theorem aligned (loaded : m.load (Image.ofWords (program.map fun w => w.toNat)) start = .ok fresh)
    (h : c.Follows start program fresh) (straight : fresh.Straight c.statistics.total) :
    c.machine.Aligned := by
  obtain ⟨instrs, run⟩ := h.reached
  obtain ⟨_, _, -, -, rfl⟩ := Machine.load_eq_ok loaded
  exact Machine.Aligned.cycles (by simp [Machine.Aligned]) straight run

/-- A program has finished exactly if no whole word of it is at the program counter, where all jumps before
have led to whole words. -/
theorem hasFinished_iff
    (loaded : m.load (Image.ofWords (program.map fun w => w.toNat)) start = .ok fresh)
    (h : c.Follows start program fresh) (straight : fresh.Straight c.statistics.total) :
    c.machine.hasFinished = true ↔
      ¬(start ≤ c.machine.pc ∧ c.machine.pc + 4 ≤ start + 4 * program.length) := by
  obtain ⟨first, stop⟩ := h.bounds loaded
  have aligned := h.aligned loaded straight
  unfold Machine.Aligned at aligned
  rw [first] at aligned
  simp only [Machine.hasFinished, first, stop, Bool.not_eq_true', Bool.and_eq_false_iff,
    decide_eq_false_iff_not]
  omega

end Controller.Follows

namespace Session

variable {s₀ s t : Session} {program : List Word}

/-- **Execution stays inside the program.** After a load that succeeds, however the simulator is driven, every
cycle starts with the program counter inside the program. As long as no executed jump has led to a place
between two words, the whole word that it executes is inside the program, and the program counts as
finished exactly when there is no such word at the program counter. -/
theorem history_executes_inside {depth turns : Nat} {c : Call}
    (driven : s₀.Only Call.Drives) (loads : c.Loads)
    (loaded : perform depth turns c s₀ = some (.ok (.words program), s))
    (history : History (fun c r => c.Throughout Call.Drives ∨ c.Replaces ∧ ∃ e, r = .error e) s t) :
    ∃ start fresh, s₀.controller.setup.loadAddress.Serves start program ∧
      s₀.controller.machine.load (Image.ofWords (program.map fun w => w.toNat)) start = .ok fresh ∧
      s₀.Adds (fun _ before => before.Follows start program fresh ∧
        start ≤ before.machine.pc ∧ before.machine.pc < start + 4 * program.length ∧
        (fresh.Straight before.statistics.total →
          before.machine.pc + 4 ≤ start + 4 * program.length)) t ∧
      t.controller.Follows start program fresh ∧
      (fresh.Straight t.controller.statistics.total →
        (t.controller.machine.hasFinished = true ↔ ¬(start ≤ t.controller.machine.pc ∧
          t.controller.machine.pc + 4 ≤ start + 4 * program.length))) := by
  obtain ⟨labels, after, placed, lived⟩ := does_of_loaded driven loads loaded history
  obtain ⟨start, fresh, serves, installed, follows⟩ := Controller.Follows.of_place placed
  obtain ⟨follows, adds⟩ := lived.follows installed follows
  refine ⟨start, fresh, serves, installed, ?_, follows, follows.hasFinished_iff installed⟩
  refine adds.placed.mono fun driver before ⟨follows, going⟩ => ?_
  obtain ⟨first, stop⟩ := follows.bounds installed
  have inside : start ≤ before.machine.pc ∧ before.machine.pc < start + 4 * program.length := by
    simpa [Machine.hasFinished, first, stop] using going
  refine ⟨follows, inside.1, inside.2, fun straight => ?_⟩
  by_contra behind
  have finished := (follows.hasFinished_iff installed straight).mpr fun whole => behind whole.2
  rw [finished] at going
  cases going

/-- A session that loads programs between two words of the memory. -/
def between : Session := create (.create (.blank .sparse) .standard { loadAddress := .whole 2 }) false

/-- A program that jumps to its last instruction, by the address in a register. -/
theorem register_jump_stays_inside : ∃ s t start fresh,
    perform 3 3 (.loadWords [0x2008000A, 0x01000008, 0x21080001]) between =
        some (.ok (.words [0x2008000A, 0x01000008, 0x21080001]), s) ∧
      History (fun c r => c.Throughout Call.Drives ∨ c.Replaces ∧ ∃ e, r = .error e) s t ∧
      t.controller.Follows start [0x2008000A, 0x01000008, 0x21080001] fresh ∧
      t.controller.statistics.total = 3 ∧ fresh.Straight 3 ∧
      t.controller.machine.hasFinished = true ∧ t.controller.machine.pc = 14 := by
  have lived : (do
      let loaded ← succeeds 3 3 (.loadWords [0x2008000A, 0x01000008, 0x21080001]) between
      let t ← calls 3 3 [.step, .runToCompletion 9] loaded.2
      return (programOf? loaded.1, t.controller.statistics.total, t.controller.machine.pc)) =
        some (some [0x2008000A, 0x01000008, 0x21080001], 3, 14) := by
    decide +kernel
  have drives : ∀ c ∈ [Call.step, .runToCompletion 9],
      ∀ r : Except Failure Reply, c.Throughout Call.Drives ∨ c.Replaces ∧ ∃ e, r = .error e := by
    have plain : ∀ c ∈ [Call.step, .runToCompletion 9], c.acts = [] ∧ c.Drives := by
      simp [Call.acts, Call.Drives, Call.Replaces, Call.Loads, Call.Writes]
    exact fun c mem r => .inl (.of_nil (plain c mem).2 (plain c mem).1)
  obtain ⟨⟨reply, s⟩, loaded, lived⟩ := Option.bind_eq_some_iff.mp lived
  obtain ⟨t, ended, lived⟩ := Option.bind_eq_some_iff.mp lived
  obtain ⟨replied, lived⟩ := Prod.mk.inj (Option.some.inj lived)
  obtain ⟨counted, pc⟩ := Prod.mk.inj lived
  cases eq_of_programOf? replied
  replace loaded := perform_of_succeeds loaded
  have history : History _ s t := history_of_calls drives ended
  have only : between.Only Call.Drives := only_create _ _
  obtain ⟨start, fresh, serves, installed, -, follows, finished⟩ :=
    history_executes_inside only (by trivial) loaded history
  obtain rfl : start = 2 := serves
  have straight : fresh.Straight 3 := by
    have each : ∀ m ∈ (between.controller.machine.load
        (Image.ofWords ([0x2008000A, 0x01000008, 0x21080001].map fun w : Word => w.toNat)) 2).toOption,
        m.Straight 3 := by
      decide +kernel
    exact each fresh (mem_toOption_iff.mpr installed)
  rw [counted, pc] at finished
  exact ⟨s, t, _, fresh, loaded, history, follows, counted, straight, (finished straight).mpr (by decide),
    pc⟩

/-- The address in a register may lie between two words of the program. Half of the last word and two bytes
behind it are then executed. -/
theorem register_jump_leaves_program : ∃ s t reply,
    perform 3 3 (.loadWords [0x20080006, 0x01000008]) bare =
        some (.ok (.words [0x20080006, 0x01000008]), s) ∧
      perform 3 3 (.runToCompletion 9) s = some (.ok reply, t) ∧
      ∃ before ∈ t.found .caller, before.machine.start = 0 ∧ before.machine.stop = 8 ∧
        before.machine.pc = 6 ∧ before.machine.hasFinished = false ∧
        ¬before.machine.pc + 4 ≤ before.machine.stop := by
  have lived : (do
      let loaded ← succeeds 3 3 (.loadWords [0x20080006, 0x01000008]) bare
      let ran ← succeeds 3 3 (.runToCompletion 9) loaded.2
      let before ← (ran.2.found .caller).head?
      return (programOf? loaded.1, before.machine.start, before.machine.stop, before.machine.pc,
        before.machine.hasFinished)) = some (some [0x20080006, 0x01000008], 0, 8, 6, false) := by
    decide +kernel
  obtain ⟨⟨loaded, s⟩, installed, lived⟩ := Option.bind_eq_some_iff.mp lived
  obtain ⟨⟨reply, t⟩, ran, lived⟩ := Option.bind_eq_some_iff.mp lived
  obtain ⟨before, found, lived⟩ := Option.bind_eq_some_iff.mp lived
  have parts := Option.some.inj lived
  simp only [Prod.mk.injEq] at parts
  obtain ⟨replied, start, stop, pc, going⟩ := parts
  cases eq_of_programOf? replied
  refine ⟨s, t, reply, perform_of_succeeds installed, perform_of_succeeds ran, before,
    List.mem_of_head? found, start, stop, pc, going, ?_⟩
  rw [pc, stop]
  decide

end Session

end Simulator

end PocketMips
