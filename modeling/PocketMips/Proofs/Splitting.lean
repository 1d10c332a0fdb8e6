import PocketMips.Proofs.Drivers
import Mathlib.Data.ENat.Lattice

/-!
# A run to completion in parts

A run to completion that has come to its limit can be taken up by another one. Nothing tells the two from one
run under the sum of their limits, nor the first of them from as many single steps.
-/
namespace PocketMips

namespace Machine

variable {m n : Machine} {k limit : Nat}

/-- The program has finished after a number of cycles. -/
def EndsIn (m : Machine) (k : Nat) : Prop :=
  ∃ instrs last, m.cycles k = .ok (instrs, last) ∧ last.hasFinished = true

/-- The number of cycles to the end of the program, infinite if it does not come to one. -/
noncomputable def lifetime (m : Machine) : ℕ∞ := ⨅ k : {k : Nat // m.EndsIn k}, (k : Nat)

theorem endsIn_zero_iff : m.EndsIn 0 ↔ m.hasFinished = true := by
  constructor
  · rintro ⟨_, _, ⟨⟩, finished⟩
    exact finished
  · exact fun finished => ⟨[], m, rfl, finished⟩

theorem endsIn_succ_iff {instr : Instruction} (cycled : m.cycle = .ok (instr, n)) :
    m.EndsIn (k + 1) ↔ n.EndsIn k := by
  constructor
  · rintro ⟨instrs, last, run, finished⟩
    obtain ⟨instr', next, rest, first, others, -⟩ := cycles_succ_eq_ok run
    cases cycled.symm.trans first
    exact ⟨rest, last, others, finished⟩
  · rintro ⟨rest, last, others, finished⟩
    exact ⟨_, last, cycles_succ_of_cycle cycled others, finished⟩

/-- A limit is cut short by the first end that the program comes to. -/
theorem eq_min_lifetime (le : k ≤ limit) (before : ∀ j < k, ¬m.EndsIn j)
    (ended : k = limit ∨ m.EndsIn k) : (k : ℕ∞) = min (limit : ℕ∞) m.lifetime := by
  apply le_antisymm
  · refine le_min (by exact_mod_cast le) (le_iInf fun ⟨j, ends⟩ => ?_)
    exact_mod_cast not_lt.mp fun lt => before j lt ends
  · rcases ended with rfl | ends
    · exact min_le_left _ _
    · exact (min_le_right _ _).trans (iInf_le _ (⟨k, ends⟩ : {k : Nat // m.EndsIn k}))

end Machine

namespace Simulator.Session

variable {s t : Session} {depth turns limit : Nat}

/-! ## Limits that add up -/

/-- A run under the sum of two limits goes on where the run under the first one has ended. -/
theorem complete_add (react : Reaction) (m n : Nat) (snapshot : Snapshot) (s : Session) :
    complete react (m + n) snapshot s = (complete react m snapshot s).bind fun
      | (.ok snapshot, t) => complete react n snapshot t
      | (.error e, t) => some (.error e, t) := by
  induction m generalizing snapshot s with
  | zero =>
    rw [Nat.zero_add]
    rfl
  | succ m ih =>
    cases finished : s.controller.machine.hasFinished with
    | true =>
      rw [complete_of_finished finished, complete_of_finished finished]
      exact (complete_of_finished finished n snapshot).symm
    | false =>
      rw [Nat.succ_add_eq_add_succ, Nat.add_succ]
      simp only [complete, finished, Bool.false_eq_true, if_false]
      cases advanced : advance react .caller s with
      | none => rfl
      | some answer =>
        obtain ⟨_ | snapshot, t⟩ := answer
        · rfl
        · exact ih snapshot t

/-! ## Single steps -/

/-- The session after a number of single steps, if all of them succeed. -/
def steps (depth turns : Nat) : Nat → Session → Option Session
  | 0, s => some s
  | k + 1, s => do
    let (_, t) ← succeeds depth turns .step s
    steps depth turns k t

/-- The controller is idle and knows where its program ends, and its observers only watch. -/
structure Ready (s : Session) : Prop where
  idle : s.controller.status = .idle
  kept : s.controller.lost = false
  only : s.Only Call.Watches

theorem Ready.requireIdle (h : s.Ready) (action : String) : s.requireIdle action = .ok () := by
  simp [Session.requireIdle, Controller.isRunning, h.idle]

/-- A run to completion of a simulator that is ready goes on from the stored snapshot. -/
theorem Ready.perform_eq (h : s.Ready) (limit : Nat) :
    perform (depth + 1) turns (.runToCompletion limit) s =
      (complete (perform depth turns) limit s.controller.stored s).map fun (r, t) =>
        (r.map .snapshot, t) := by
  show runToCompletion _ (limit : Int) s = _
  rw [runToCompletion, h.requireIdle]
  simp only [h.kept, Bool.false_eq_true, if_false, Int.toNat_natCast]

/-- A program that has not finished is stepped once, and the simulator is ready again, or it fails. -/
theorem Ready.advance (h : s.Ready) (depth turns : Nat) (going : s.controller.machine.hasFinished = false) :
    ∃ r v, Session.advance (perform (depth + 1) turns) .caller s = some (r, v) ∧
      ((∃ e, r = .error e) ∨ r = .ok v.controller.stored ∧ v.Ready ∧
        ∃ instr, s.controller.Executes instr v.controller) := by
  obtain ⟨v, advanced, after, only⟩ := exists_advance depth turns .caller h.kept h.only
  refine ⟨_, v, advanced, ?_⟩
  cases outcome : s.controller.executeNext.1 with
  | completed =>
    rw [(Controller.executeNext_completed outcome).1] at going
    cases going
  | stepped finished =>
    obtain ⟨instr, executes⟩ := s.controller.executes_of_stepped outcome
    obtain ⟨_, _, _, _, _, _, fields⟩ := s.controller.executeNext_fields
    refine .inr ⟨rfl, ⟨?_, ?_, only⟩, instr, after ▸ executes⟩
    · rw [after, fields]
      exact h.idle
    · rw [after, fields]
      exact h.kept
  | failed f => exact .inl ⟨_, rfl⟩
  | overflow => exact .inl ⟨_, rfl⟩

/-- A run to completion always returns. -/
theorem Ready.exists_complete (h : s.Ready) (depth turns limit : Nat) (snapshot : Snapshot) :
    ∃ r t, complete (perform (depth + 1) turns) limit snapshot s = some (r, t) := by
  induction limit generalizing s snapshot with
  | zero => exact ⟨_, _, rfl⟩
  | succ limit ih =>
    cases finished : s.controller.machine.hasFinished with
    | true => exact ⟨_, _, complete_of_finished finished _ snapshot⟩
    | false =>
      obtain ⟨r, v, advanced, ⟨e, rfl⟩ | ⟨rfl, ready, -⟩⟩ :=
        h.advance depth turns finished
      · exact ⟨.error e, v, by simp [complete, finished, advanced]⟩
      · obtain ⟨r, t, completed⟩ := ih ready v.controller.stored
        exact ⟨r, t, by simpa [complete, finished, advanced] using completed⟩

/-- What a run to completion has done that has not failed: single steps. -/
structure Stepped (depth turns : Nat) (s t : Session) (k : Nat) : Prop where
  ready : t.Ready
  cycles : ∃ instrs, s.controller.machine.cycles k = .ok (instrs, t.controller.machine)
  total : t.controller.statistics.total = s.controller.statistics.total + k
  steps : steps depth turns k s = some t

theorem Ready.stepped_zero (h : s.Ready) : Stepped depth turns s s 0 :=
  ⟨h, ⟨[], rfl⟩, rfl, rfl⟩

/-- A run to completion that does not fail has made steps up to its limit or the end of the program, and
answers with the stored snapshot. -/
theorem Ready.stepped_of_complete {snapshot : Snapshot} (h : s.Ready)
    (completed : complete (perform (depth + 1) turns) limit s.controller.stored s =
      some (.ok snapshot, t)) :
    snapshot = t.controller.stored ∧ ∃ k ≤ limit, Stepped (depth + 2) turns s t k ∧
      (∀ j < k, ¬s.controller.machine.EndsIn j) ∧
      (k = limit ∨ s.controller.machine.EndsIn k) := by
  induction limit generalizing s with
  | zero =>
    cases completed
    exact ⟨rfl, 0, le_rfl, h.stepped_zero, nofun, .inl rfl⟩
  | succ limit ih =>
    cases finished : s.controller.machine.hasFinished with
    | true =>
      rw [complete_of_finished finished] at completed
      cases completed
      exact ⟨rfl, 0, Nat.zero_le _, h.stepped_zero, nofun, .inr (Machine.endsIn_zero_iff.mpr finished)⟩
    | false =>
      obtain ⟨r, v, advanced, ⟨e, rfl⟩ | ⟨rfl, ready, instr, executes⟩⟩ :=
        h.advance depth turns finished
      · simp [complete, finished, advanced] at completed
      · replace completed : complete (perform (depth + 1) turns) limit v.controller.stored v =
            some (.ok snapshot, t) := by
          simpa [complete, finished, advanced] using completed
        obtain ⟨rfl, k, le, stepped, before, ended⟩ := ih ready completed
        have first : perform (depth + 2) turns .step s =
            some (.ok (.snapshot v.controller.stored), v) := by
          show step _ s = _
          rw [step, h.requireIdle]
          simp only [advanced]
          rfl
        obtain ⟨instrs, cycles⟩ := stepped.cycles
        refine ⟨rfl, k + 1, Nat.succ_le_succ le, ⟨stepped.ready, ?_, ?_, ?_⟩, fun j lt => ?_, ?_⟩
        · exact ⟨_, Machine.cycles_succ_of_cycle executes.cycle cycles⟩
        · rw [stepped.total, executes.total]
          omega
        · simp only [Session.steps, succeeds, first]
          exact stepped.steps
        · cases j with
          | zero =>
            rw [Machine.endsIn_zero_iff, finished]
            exact Bool.false_ne_true
          | succ j =>
            rw [Machine.endsIn_succ_iff executes.cycle]
            exact before j (Nat.lt_of_succ_lt_succ lt)
        · rw [Machine.endsIn_succ_iff executes.cycle]
          exact ended.imp_left (congrArg _)

/-! ## Runs in parts -/

/-- **A run to completion can be split.** From any idle state in which observers only watch, if a run under a
limit does not fail, then a second run leads to what one run under the sum of the limits leads to: the same
answer, be it a snapshot or an error, and the same session, with all that observers have been told. The first
run has executed as many instructions as its limit allows and the program has before it comes to its end, and
as many single steps lead to the same session. -/
theorem run_in_parts {reply : Reply} {m : Nat} (idle : s.controller.status = .idle)
    (only : s.Only Call.Watches)
    (first : perform (depth + 2) turns (.runToCompletion m) s = some (.ok reply, t)) :
    (∀ n : Nat, ∃ r u,
      perform (depth + 2) turns (.runToCompletion (m + n : Nat)) s = some (r, u) ∧
      perform (depth + 2) turns (.runToCompletion n) t = some (r, u)) ∧
    ∃ k : Nat, (k : ℕ∞) = min (m : ℕ∞) s.controller.machine.lifetime ∧
      (∃ instrs, s.controller.machine.cycles k = .ok (instrs, t.controller.machine)) ∧
      t.controller.statistics.total = s.controller.statistics.total + k ∧
      steps (depth + 2) turns k s = some t := by
  have ready : s.Ready := by
    refine ⟨idle, eq_false_of_ne_true fun lost => ?_, only⟩
    replace first : runToCompletion (perform (depth + 1) turns) (m : Int) s = _ := first
    simp [runToCompletion, requireIdle, Controller.isRunning, idle, lost] at first
  rw [ready.perform_eq] at first
  obtain ⟨⟨r, v⟩, completed, same⟩ := Option.map_eq_some_iff.mp first
  obtain ⟨ok, rfl⟩ := Prod.mk.inj same
  obtain ⟨snapshot, rfl, -⟩ := map_eq_ok.mp ok
  obtain ⟨rfl, k, le, stepped, before, ended⟩ := ready.stepped_of_complete completed
  refine ⟨fun n => ?_, k, Machine.eq_min_lifetime le before ended, stepped.cycles, stepped.total,
    stepped.steps⟩
  obtain ⟨r, u, rest⟩ := stepped.ready.exists_complete depth turns n v.controller.stored
  refine ⟨r.map .snapshot, u, ?_, ?_⟩
  · rw [ready.perform_eq, complete_add, completed]
    simp only [Option.bind_some, rest, Option.map_some]
  · rw [stepped.ready.perform_eq, rest]
    rfl

/-- Two of three words are executed, and then the third one is refused; an observer reads a register at the
first step. -/
theorem refused_run_in_parts : ∃ s t u loaded reply e,
    perform 3 3 (.loadWords [0x2008000A, 0x01084020, 0xFC000000]) reader = some (.ok loaded, s) ∧
      perform 3 3 (.runToCompletion 2) s = some (.ok reply, t) ∧
      t.controller.statistics.total = 2 ∧ steps 3 3 2 s = some t ∧
      perform 3 3 (.runToCompletion 1) t = some (.error e, u) ∧
      perform 3 3 (.runToCompletion 3) s = some (.error e, u) := by
  have lived : (do
      let loaded ← succeeds 3 3 (.loadWords [0x2008000A, 0x01084020, 0xFC000000]) reader
      let first ← succeeds 3 3 (.runToCompletion 2) loaded.2
      let second ← fails 3 3 (.runToCompletion 1) first.2
      return (loaded.2.controller.status, second.1.ofRun?.isNone,
        [loaded.2.controller.statistics.total, first.2.controller.statistics.total])) =
          some (.idle, true, [0, 2]) := by
    decide +kernel
  obtain ⟨⟨loaded, s⟩, installed, lived⟩ := Option.bind_eq_some_iff.mp lived
  obtain ⟨⟨reply, t⟩, first, lived⟩ := Option.bind_eq_some_iff.mp lived
  obtain ⟨⟨e, u⟩, second, lived⟩ := Option.bind_eq_some_iff.mp lived
  replace installed := perform_of_succeeds installed
  replace first := perform_of_succeeds first
  replace second := perform_of_fails second
  have parts := Option.some.inj lived
  simp only [Prod.mk.injEq, List.cons.injEq, and_true] at parts
  obtain ⟨idle, -, none, two⟩ := parts
  have watches : reader.Only Call.Watches := by
    intro o mem
    cases List.mem_singleton.mp mem
    intro a mem
    cases List.mem_singleton.mp mem
    exact .of_nil trivial rfl
  obtain ⟨-, -, -, -, watches⟩ := load_of_watches (by trivial) watches installed
  obtain ⟨onwards, k, -, -, total, stepped⟩ := run_in_parts (m := 2) idle watches first
  obtain ⟨r, u', whole, rest⟩ := onwards 1
  cases second.symm.trans rest
  obtain rfl : k = 2 := by omega
  exact ⟨s, t, u, loaded, reply, e, installed, first, two, stepped, second, whole⟩

end Simulator.Session

end PocketMips
