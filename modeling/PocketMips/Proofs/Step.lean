import PocketMips.Proofs.History
import PocketMips.Proofs.Watching

/-!
# A step is all or nothing

A single step executes one instruction, counts it and shows it, or it leaves the machine and the counts as
they are. The exception is an instruction whose time is too large for a number: it has been executed and
counted when the step fails, and nothing shows it.
-/
namespace PocketMips

namespace Statistics

/-- The count of a class of instructions. -/
def countOf (s : Statistics) : Kind → Nat
  | .r => s.rCount
  | .i => s.iCount
  | .j => s.jCount

variable {s s' : Statistics} {kind : Kind} {clock : Clock} {late : Bool}

theorem countOf_count (s : Statistics) (kind : Kind) (clock : Clock) (k : Kind) :
    (s.count kind clock).countOf k = s.countOf k + if k = kind then 1 else 0 := by
  cases kind <;> cases k <;> rfl

theorem cycles_count (s : Statistics) (kind : Kind) (clock : Clock) :
    (s.count kind clock).cycles = s.cycles + clock.cyclesFor kind := by
  cases kind <;> rfl

/-- Recording counts, and the time is that of the new counts unless it is too large. -/
theorem record_eq (h : s.record kind clock = (s', late)) :
    (late = false ∧ ∃ time, (s.count kind clock).timeUnder? clock = some time ∧
      s' = { s.count kind clock with time }) ∨
    (late = true ∧ (s.count kind clock).timeUnder? clock = none ∧ s' = s.count kind clock) := by
  unfold record retime at h
  split at h
  · rename_i time fits
    cases h
    exact .inl ⟨rfl, time, fits, rfl⟩
  · rename_i large
    cases h
    exact .inr ⟨rfl, large, rfl⟩

end Statistics

namespace Simulator

namespace Controller

/-- An instruction has been executed and counted, and the stored snapshot shows it. -/
structure Executes (instr : Instruction) (c c' : Controller) : Prop where
  going : c.machine.hasFinished = false
  cycle : c.machine.cycle = .ok (instr, c'.machine)
  count : ∀ kind, c'.statistics.countOf kind =
    c.statistics.countOf kind + if kind = instr.kind then 1 else 0
  cycles : c'.statistics.cycles = c.statistics.cycles + c.clock.cyclesFor instr.kind
  time : c'.statistics.timeUnder? c.clock = some c'.statistics.time
  last : c'.lastInstruction = some instr
  error : c'.lastError = none
  stored : c'.stored = c'.observe

/-- Nothing has been executed, and the stored snapshot shows how things are, if they can be shown. -/
structure Stays (c c' : Controller) : Prop where
  machine : c'.machine = c.machine
  statistics : c'.statistics = c.statistics
  last : c'.lastInstruction = c.lastInstruction
  stored : c.lost = false → c'.stored = c'.observe

/-- An instruction has been executed and counted, but its time is too large, and nothing shows it. -/
structure Overruns (instr : Instruction) (c c' : Controller) : Prop where
  cycle : c.machine.cycle = .ok (instr, c'.machine)
  time : (c.statistics.count instr.kind c.clock).timeUnder? c.clock = none
  statistics : c'.statistics = c.statistics.count instr.kind c.clock
  last : c'.lastInstruction = c.lastInstruction
  stored : c'.stored = c.stored

/-- All that executing the next instruction may come to. -/
theorem executeNext_cases (c : Controller) :
    (c.executeNext.1 = .completed ∧ c.machine.hasFinished = true ∧ c.Stays c.executeNext.2) ∨
    (∃ instr finished, c.executeNext.1 = .stepped finished ∧ c.Executes instr c.executeNext.2) ∨
    (∃ f, c.executeNext.1 = .failed f ∧ c.machine.cycle = .error f ∧ c.Stays c.executeNext.2) ∨
    (∃ instr, c.executeNext.1 = .overflow ∧ c.Overruns instr c.executeNext.2) := by
  unfold executeNext
  split
  · rename_i finished
    exact .inl ⟨rfl, finished, rfl, rfl, rfl, fun _ => rfl⟩
  · rename_i going
    replace going : c.machine.hasFinished = false := eq_false_of_ne_true going
    split
    · rename_i f failed
      exact .inr (.inr (.inl ⟨f, rfl, failed, rfl, rfl, rfl, fun _ => rfl⟩))
    · rename_i instr machine cycled
      split
      · rename_i statistics recorded
        obtain ⟨⟨⟩, -⟩ | ⟨-, large, rfl⟩ := Statistics.record_eq recorded
        exact .inr (.inr (.inr ⟨instr, rfl, cycled, large, rfl, rfl, rfl⟩))
      · rename_i statistics recorded
        obtain ⟨-, time, fits, rfl⟩ | ⟨⟨⟩, -⟩ := Statistics.record_eq recorded
        exact .inr (.inl ⟨instr, _, rfl, going, cycled, c.statistics.countOf_count _ _,
          c.statistics.cycles_count _ _, fits, rfl, rfl, rfl⟩)

end Controller

namespace Session

variable {s t : Session} {depth turns : Nat}

/-! ## Under observers that watch -/

theorem advance_of_watches {driver : Driver} {r : Except Failure Snapshot}
    (kept : s.controller.lost = false) (only : s.Only Call.Watches)
    (h : advance (perform depth turns) driver s = some (r, t)) :
    (s.executed driver).Unmoved t ∧ t.Only Call.Watches ∧
      r = answerOf t.controller s.controller.executeNext.1 := by
  have only : (s.executed driver).Only Call.Watches := only.congr rfl
  rw [advance_eq kept] at h
  obtain ⟨u, told, same⟩ := Option.map_eq_some_iff.mp h
  cases same
  obtain ⟨unmoved, only⟩ := rel_of_announce telling_unmoved unmoved_of_watches only told
  exact ⟨unmoved, only, by rw [unmoved.controller]⟩

/-- A step of an idle simulator executes the next instruction, unless there is no telling which it is. -/
theorem step_of_watches {r : Except Failure Reply} (idle : s.controller.status = .idle)
    (only : s.Only Call.Watches) (h : perform depth turns .step s = some (r, t)) :
    (s.controller.lost = true ∧ t = s ∧ r = .error .badArgument) ∨
      (s.controller.lost = false ∧ t.controller = s.controller.executeNext.2 ∧ t.Only Call.Watches ∧
        r = (answerOf t.controller s.controller.executeNext.1).map .snapshot) := by
  cases depth with
  | zero => cases h
  | succ depth =>
    have free : s.requireIdle "single-step" = .ok () := by
      simp [requireIdle, Controller.isRunning, idle]
    replace h : step (perform depth turns) s = some (r, t) := h
    rw [step, free] at h
    obtain ⟨⟨r', u⟩, advanced, same⟩ := Option.map_eq_some_iff.mp h
    cases same
    cases lost : s.controller.lost with
    | true =>
      rw [advance_of_lost lost] at advanced
      cases advanced
      exact .inl ⟨rfl, rfl, rfl⟩
    | false =>
      obtain ⟨unmoved, only, rfl⟩ := advance_of_watches lost only advanced
      exact .inr ⟨rfl, unmoved.controller, only, rfl⟩

/-- **A step is all or nothing.** Whatever the clock, a step of an idle simulator that is answered has
executed, counted and shown exactly one instruction, or has found the program finished; one that fails
has left the machine, the counts and the last instruction as they were, and what is shown is right.
The only exception is an instruction whose time is too large for a number. -/
theorem step_all_or_nothing {r : Except Failure Reply} (idle : s.controller.status = .idle)
    (only : s.Only Call.Watches) (h : perform depth turns .step s = some (r, t)) :
    (∀ reply, r = .ok reply → reply = .snapshot t.controller.stored ∧
      (s.controller.machine.hasFinished = true ∧ s.controller.Stays t.controller ∨
        ∃ instr, s.controller.Executes instr t.controller)) ∧
    (∀ e, r = .error e → s.controller.Stays t.controller ∨
      e = .overflow ∧ ∃ instr, s.controller.Overruns instr t.controller) := by
  rcases step_of_watches idle only h with ⟨lost, rfl, rfl⟩ | ⟨-, after, -, rfl⟩
  · refine ⟨fun reply is => ?_, fun e _ => .inl ⟨rfl, rfl, rfl, fun kept => ?_⟩⟩
    · cases is
    · rw [lost] at kept
      cases kept
  have cases := s.controller.executeNext_cases
  rw [← after] at cases
  rcases cases with ⟨outcome, finished, stays⟩ | ⟨instr, last, outcome, executes⟩ |
    ⟨f, outcome, -, stays⟩ | ⟨instr, outcome, overruns⟩
  all_goals
    rw [outcome]
    refine ⟨fun reply is => ?_, fun e is => ?_⟩
    all_goals cases is
  · exact ⟨rfl, .inl ⟨finished, stays⟩⟩
  · exact ⟨rfl, .inr ⟨instr, executes⟩⟩
  · exact .inl stays
  · exact .inr ⟨rfl, instr, overruns⟩

/-- A simulator whose observer reads a register at the first step, and fails. -/
def reader : Session :=
  bare.subscribe "reader" {
    event := some .step, turn := 1, acts := [.register (.text "t0")], fails := true }

/-- The first of two words is executed, and the second one is refused. -/
theorem refused_step_all_or_nothing : ∃ s t u loaded stepped e,
    perform 3 3 (.loadWords [0x2008000A, 0xFC000000]) reader = some (.ok loaded, s) ∧
      perform 3 3 .step s = some (.ok stepped, t) ∧
      stepped = .snapshot t.controller.stored ∧
      (∃ instr, s.controller.Executes instr t.controller) ∧
      perform 3 3 .step t = some (.error e, u) ∧ t.controller.Stays u.controller ∧
      u.controller.statistics.total = 1 ∧ u.controller.lastError.isSome := by
  have lived : (do
      let loaded ← succeeds 3 3 (.loadWords [0x2008000A, 0xFC000000]) reader
      let stepped ← succeeds 3 3 .step loaded.2
      let refused ← fails 3 3 .step stepped.2
      return ([loaded.2.controller.status, stepped.2.controller.status],
        loaded.2.controller.machine.hasFinished, refused.1.ofRun?.isNone,
        refused.2.controller.statistics.total, refused.2.controller.lastError.isSome)) =
          some ([.idle, .idle], false, true, 1, true) := by
    decide +kernel
  obtain ⟨⟨loaded, s⟩, installed, lived⟩ := Option.bind_eq_some_iff.mp lived
  obtain ⟨⟨stepped, t⟩, executed, lived⟩ := Option.bind_eq_some_iff.mp lived
  obtain ⟨⟨e, u⟩, refused, lived⟩ := Option.bind_eq_some_iff.mp lived
  replace installed := perform_of_succeeds installed
  replace executed := perform_of_succeeds executed
  replace refused := perform_of_fails refused
  have parts := Option.some.inj lived
  simp only [Prod.mk.injEq, List.cons.injEq, and_true] at parts
  obtain ⟨⟨idle, idle'⟩, going, ofMachine, counted, failed⟩ := parts
  have watches : reader.Only Call.Watches := by
    intro o mem
    cases List.mem_singleton.mp mem
    intro a mem
    cases List.mem_singleton.mp mem
    exact .of_nil trivial rfl
  obtain ⟨-, -, -, -, watches⟩ := load_of_watches (by trivial) watches installed
  have watches' : t.Only Call.Watches := by
    obtain ⟨-, -, ⟨⟩⟩ | ⟨-, -, watches, -⟩ := step_of_watches idle watches executed
    exact watches
  obtain ⟨shown, ⟨finished, -⟩ | executes⟩ := (step_all_or_nothing idle watches executed).1 _ rfl
  · rw [going] at finished
    cases finished
  obtain stays | ⟨rfl, -⟩ := (step_all_or_nothing idle' watches' refused).2 _ rfl
  · exact ⟨s, t, u, loaded, stepped, e, installed, executed, shown, executes, refused, stays,
      counted, failed⟩
  · cases ofMachine

/-- A simulator under a clock by which an immediate instruction takes more cycles than a number can hold as
a time. -/
def late : Session :=
  create (.create (.blank .sparse)
    { Clock.standard with
      frequency := 1, frequency_pos := Nat.one_pos, iCycles := 1 <<< 1024, iCycles_pos := by decide }
    {}) false

/-- A step whose time is too large fails after its instruction has been executed and counted, and nothing
shows it. -/
theorem late_step_executes_and_fails : ∃ s t loaded e,
    perform 3 3 (.loadWords [0x2008000A]) late = some (.ok loaded, s) ∧
      s.controller.status = .idle ∧ s.Only Call.Watches ∧
      perform 3 3 .step s = some (.error e, t) ∧
      t.controller.machine.pc ≠ s.controller.machine.pc ∧
      t.controller.statistics.total ≠ s.controller.statistics.total ∧
      t.controller.stored.machine.pc ≠ t.controller.observe.machine.pc := by
  have lived : (do
      let loaded ← succeeds 3 3 (.loadWords [0x2008000A]) late
      let stepped ← fails 3 3 .step loaded.2
      return (loaded.2.controller.status,
        [loaded.2.controller.machine.pc, stepped.2.controller.machine.pc,
          stepped.2.controller.stored.machine.pc],
        [loaded.2.controller.statistics.total, stepped.2.controller.statistics.total])) =
          some (.idle, [0, 4, 0], [0, 1]) := by
    decide +kernel
  obtain ⟨⟨loaded, s⟩, installed, lived⟩ := Option.bind_eq_some_iff.mp lived
  obtain ⟨⟨e, t⟩, stepped, lived⟩ := Option.bind_eq_some_iff.mp lived
  replace installed := perform_of_succeeds installed
  replace stepped := perform_of_fails stepped
  have parts := Option.some.inj lived
  simp only [Prod.mk.injEq, List.cons.injEq, and_true] at parts
  obtain ⟨idle, ⟨pc, pc', shown⟩, total, total'⟩ := parts
  obtain ⟨-, -, -, -, watches⟩ := load_of_watches (by trivial) (only_create _ _) installed
  refine ⟨s, t, loaded, e, installed, idle, watches, stepped, ?_, ?_, ?_⟩
  · rw [pc, pc']
    decide
  · rw [total, total']
    decide
  · show t.controller.stored.machine.pc ≠ t.controller.machine.pc
    rw [shown, pc']
    decide

end Session

end Simulator

end PocketMips
