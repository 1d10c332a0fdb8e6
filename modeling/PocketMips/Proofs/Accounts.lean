import PocketMips.Proofs.Step
import Mathlib.Algebra.Ring.Nat

/-!
# The statistics account for what has been executed

The journal has a ledger of the instructions that have been executed since a program was last put in place,
each with the clock that was in force. The counts and the cycles are sums over the ledger; the time is that of
the counts under the latest clock.
-/
namespace PocketMips

namespace Number.Binary64

theorem ofQuotient?_zero (den : Nat) : ofQuotient? 0 den = some .zero := rfl

end Number.Binary64

namespace Simulator

open Number

/-- An instruction that has been executed: its class, and the clock in force. -/
structure Executed where
  kind : Kind
  clock : Clock
  deriving DecidableEq, Repr

def Executed.cycles (e : Executed) : Nat := e.clock.cyclesFor e.kind

/-- The executed instructions, the latest first. -/
abbrev Ledger := List Executed

/-! ## Statistics of a ledger -/

/-- The counts and the cycles are those of the ledger. The time is that of the counts under the clock of the
latest instruction, unless it is too large for a number. -/
structure Accounts (st : Statistics) (ledger : Ledger) : Prop where
  count : ∀ kind, st.countOf kind = ledger.countP (·.kind = kind)
  cycles : st.cycles = (ledger.map Executed.cycles).sum
  start : ledger = [] → st.time = .zero
  time : ∀ e ∈ ledger.head?, ∀ time, st.timeUnder? e.clock = some time → st.time = time

namespace Accounts

variable {st st' : Statistics} {ledger : Ledger} {clock : Clock}

theorem nil : Accounts {} [] := by
  refine ⟨fun kind => ?_, rfl, fun _ => rfl, fun e mem => by cases mem⟩
  cases kind <;> rfl

theorem record {kind : Kind} {late : Bool} (h : Accounts st ledger)
    (recorded : st.record kind clock = (st', late)) : Accounts st' (⟨kind, clock⟩ :: ledger) := by
  have count (k : Kind) : (st.count kind clock).countOf k =
      List.countP (fun e : Executed => e.kind = k) (⟨kind, clock⟩ :: ledger) := by
    rw [Statistics.countOf_count, h.count, List.countP_cons]
    by_cases same : kind = k <;> simp [same, eq_comm]
  have cycles : (st.count kind clock).cycles =
      (List.map Executed.cycles (⟨kind, clock⟩ :: ledger)).sum := by
    rw [Statistics.cycles_count, h.cycles, List.map_cons, List.sum_cons, Nat.add_comm]
    rfl
  obtain ⟨-, time, fits, rfl⟩ | ⟨-, large, rfl⟩ := Statistics.record_eq recorded
  · refine ⟨fun k => ?_, cycles, nofun, fun e mem time' is => ?_⟩
    · rw [← count k]
      cases k <;> rfl
    · cases Option.mem_some.mp mem
      exact Option.some.inj (fits.symm.trans is)
  · refine ⟨count, cycles, nofun, fun e mem time is => ?_⟩
    cases Option.mem_some.mp mem
    rw [large] at is
    cases is

/-- Under one clock the cycles are those of the counts. -/
theorem totalCycles (h : Accounts st ledger) (same : ∀ e ∈ ledger, e.clock = clock) :
    clock.totalCycles st.rCount st.iCount st.jCount = st.cycles := by
  have sum : (ledger.map Executed.cycles).sum = ledger.countP (·.kind = .r) * clock.rCycles +
      ledger.countP (·.kind = .i) * clock.iCycles + ledger.countP (·.kind = .j) * clock.jCycles := by
    clear h
    induction ledger with
    | nil => simp
    | cons e ledger ih =>
      rw [List.forall_mem_cons] at same
      obtain ⟨kind, _⟩ := e
      cases same.1
      rw [List.map_cons, List.sum_cons, ih same.2]
      cases kind <;> simp [Executed.cycles, Clock.cyclesFor, Nat.add_mul] <;> omega
  have r := h.count .r
  have i := h.count .i
  have j := h.count .j
  simp only [Statistics.countOf] at r i j
  rw [Clock.totalCycles, h.cycles, sum, r, i, j]
  push_cast
  rfl

/-- Under one clock the time is the quotient of the cycles and the frequency, rounded once. -/
theorem time_eq_quotient (h : Accounts st ledger) (same : ∀ e ∈ ledger, e.clock = clock)
    {time : Binary64} (is : Binary64.ofQuotient? st.cycles clock.frequency = some time) :
    st.time = time := by
  cases ledger with
  | nil =>
    have zero : st.cycles = 0 := h.cycles
    rw [zero, Int.natCast_zero, Binary64.ofQuotient?_zero] at is
    rw [h.start rfl]
    exact Option.some.inj is
  | cons e ledger =>
    refine h.time e rfl time ?_
    have total := h.totalCycles same
    rw [same e List.mem_cons_self, Statistics.timeUnder?, Clock.totalTime?, total, is]

end Accounts

theorem Controller.statistics_of_refused {c : Controller}
    (h : c.machine.hasFinished = true ∨ ∃ f, c.machine.cycle = .error f) :
    c.executeNext.2.statistics = c.statistics := by
  rcases c.executeNext_cases with ⟨-, -, stays⟩ | ⟨instr, -, -, executes⟩ | ⟨f, -, -, stays⟩ |
    ⟨instr, -, overruns⟩
  · exact stays.statistics
  · rcases h with finished | ⟨f, failed⟩
    · simp [executes.going] at finished
    · simp [executes.cycle] at failed
  · exact stays.statistics
  · rcases h with finished | ⟨f, failed⟩
    · rw [executeNext, if_pos finished]
      rfl
    · simp [overruns.cycle] at failed

/-! ## The ledger of a journal -/

namespace Entry

/-- The instruction that an entry says has been executed. -/
def executed? : Entry → Option Executed
  | cycle _ before =>
    match before.machine.cycle with
    | .ok (instr, _) => some ⟨instr.kind, before.clock⟩
    | .error _ => none
  | told _ _ _ _ | replied _ _ | placed => none

/-- Whether an entry says that a program has been put in place. -/
def isMark : Entry → Bool
  | placed => true
  | cycle _ _ | told _ _ _ _ | replied _ _ => false

end Entry

/-- The instructions that a journal says have been executed since a program was last put in place. -/
def ledger : List Entry → Ledger
  | [] => []
  | e :: journal => if e.isMark then [] else e.executed?.toList ++ ledger journal

namespace Session

variable {P : Call → Prop} {s t : Session} {depth turns : Nat}

/-- How often the journal says that a program has been put in place. -/
def marks (s : Session) : Nat := s.journal.countP Entry.isMark

/-- The statistics are those of the ledger. -/
def Accounted (s : Session) : Prop := Accounts s.controller.statistics (ledger s.journal)

namespace Accounted

theorem congr (h : s.Accounted) (statistics : t.controller.statistics = s.controller.statistics)
    (journal : t.journal = s.journal) : t.Accounted := by
  rw [Accounted, statistics, journal]
  exact h

theorem log {e : Entry} (h : s.Accounted) (nothing : e.executed? = none) (other : e.isMark = false) :
    (s.log e).Accounted := by
  have same : ledger (s.log e).journal = ledger s.journal := by
    simp [Session.log, ledger, nothing, other]
  rw [Accounted, same]
  exact h

theorem executed (h : s.Accounted) (driver : Driver) : (s.executed driver).Accounted := by
  cases finished : s.controller.machine.hasFinished with
  | true =>
    have same : (s.executed driver).journal = s.journal := by
      simp [Session.executed, begun, finished]
    exact h.congr (Controller.statistics_of_refused (.inl finished)) same
  | false =>
    have journal : (s.executed driver).journal = .cycle driver s.controller :: s.journal := by
      simp [Session.executed, begun, finished]
    cases cycled : s.controller.machine.cycle with
    | error f =>
      have same : ledger (s.executed driver).journal = ledger s.journal := by
        simp [journal, ledger, Entry.isMark, Entry.executed?, cycled]
      have statistics := Controller.statistics_of_refused (.inr ⟨f, cycled⟩)
      rw [Accounted, same]
      exact statistics ▸ h
    | ok next =>
      obtain ⟨instr, m⟩ := next
      have entered : ledger (s.executed driver).journal =
          ⟨instr.kind, s.controller.clock⟩ :: ledger s.journal := by
        simp [journal, ledger, Entry.isMark, Entry.executed?, cycled]
      rw [Accounted, entered]
      simp only [Session.executed, Controller.executeNext, finished, cycled, Bool.false_eq_true, if_false]
      split <;> exact h.record ‹_›

/-- A program that is put in place opens a new ledger. -/
theorem placed {program : List Word} {labels : Assembly.Labels} {after : Controller}
    (placed : s.controller.place program labels = (.ok (), after)) :
    ((s.withController after).log .placed).Accounted := by
  obtain ⟨start, fresh, -, installed, rfl | ⟨v, rfl⟩⟩ := Controller.place_eq_ok placed
  all_goals
    have zero := (Controller.reinstall_eq_ok installed).2.1
    simpa [Accounted, Session.log, withController, ledger, Entry.isMark, Controller.showingPc,
      Controller.refresh, zero] using Accounts.nil

theorem rested (h : s.Accounted) : s.rested.Accounted := by
  unfold Session.rested
  split <;> exact h.congr rfl rfl

end Accounted

theorem Does.accounted (h : Does P s t) (accounted : s.Accounted) : t.Accounted := by
  induction h with
  | trans _ _ first second => exact second (first accounted)
  | told | replied => exact accounted.log rfl rfl
  | single _ => exact accounted.executed _
  | goOn _ _ _ ih =>
    have worked := ih ((accounted.congr rfl rfl : (Session.setJob _ _ _).Accounted).executed _)
    exact worked.congr rfl rfl
  | leave _ _ _ _ first second =>
    have worked := first ((accounted.congr rfl rfl : (Session.setJob _ _ _).Accounted).executed _)
    exact (second worked.rested).congr rfl rfl
  | drop _ _ ih =>
    have rested := ih (accounted.congr rfl rfl : (Session.setJob _ _ _).Accounted).rested
    exact rested.congr rfl rfl
  | @rest s _ => exact (accounted.congr rfl rfl : { s with current := none }.Accounted).rested
  | launch _ _ _ _ ih => exact (ih (accounted.congr rfl rfl)).congr rfl rfl
  | place _ _ _ placed _ => exact .placed placed
  | misplace _ failed =>
    obtain rfl | ⟨-, rfl | rfl⟩ := Controller.place_eq_error failed <;> exact accounted.congr rfl rfl
  | _ => exact accounted.congr rfl rfl

/-! ## The marks of a journal -/

theorem marks_executed (s : Session) (driver : Driver) : (s.executed driver).marks = s.marks := by
  unfold marks executed begun
  split <;> simp [Entry.isMark]

theorem marks_log (s : Session) (e : Entry) : (s.log e).marks = s.marks + if e.isMark then 1 else 0 :=
  List.countP_cons

theorem marks_le_log (s : Session) (e : Entry) : s.marks ≤ (s.log e).marks := by
  rw [marks_log]
  exact Nat.le_add_right _ _

theorem Does.marks_le (h : Does P s t) : s.marks ≤ t.marks := by
  induction h with
  | trans _ _ first second => exact Nat.le_trans first second
  | told | replied => exact marks_le_log _ _
  | place => exact marks_le_log (Session.withController _ _) _
  | single _ => exact Nat.le_of_eq (marks_executed _ _).symm
  | goOn _ _ _ ih => rwa [← marks_executed]
  | leave _ _ _ _ first second =>
    rw [← marks_executed]
    exact Nat.le_trans first second
  | drop _ _ ih | launch _ _ _ _ ih => exact ih
  | _ => exact Nat.le_refl _

/-- Nothing but loads and resets makes a mark. -/
theorem Does.marks_eq (never : ∀ c, P c → ¬c.Replaces) (h : Does P s t) : t.marks = s.marks := by
  induction h with
  | trans _ _ first second => exact second.trans first
  | told | replied => exact marks_log _ _
  | single _ => exact marks_executed _ _
  | goOn _ _ _ ih => exact ih.trans (marks_executed _ _)
  | leave _ _ _ _ first second => exact second.trans (first.trans (marks_executed _ _))
  | drop _ _ ih | launch _ _ _ _ ih => exact ih
  | place made replaces => exact absurd replaces (never _ made)
  | _ => rfl

/-- A program that is put in place makes a mark, whatever the observers do when they are told of it. -/
theorem marks_of_install {program : List Word} {labels : Assembly.Labels} {event : Event}
    {reply : Controller → Reply} {answer : Reply}
    (h : install (perform depth turns) s program labels event reply = some (.ok answer, t)) :
    s.marks < t.marks := by
  unfold install at h
  split at h
  · cases h
  · rename_i c _
    obtain ⟨u, told, same⟩ := Option.map_eq_some_iff.mp h
    cases same
    have every (s : Session) : s.Only fun _ => True := fun _ _ a _ =>
      Call.throughout_of_forall (fun _ => trivial) a
    have marked := (does_of_notify reacts_perform (every _) told).marks_le
    rw [marks_log] at marked
    exact marked

/-- A load or reset that succeeds makes a mark. -/
theorem marks_of_replaces {c : Call} {answer : Reply} (replaces : c.Replaces)
    (h : perform depth turns c s = some (.ok answer, t)) : s.marks < t.marks := by
  cases depth with
  | zero => cases h
  | succ depth =>
    rcases replaces with loads | rfl
    · obtain ⟨⟨e, ⟨⟩⟩, -⟩ | ⟨-, program, labels, installed⟩ := respond_load loads h
      exact marks_of_install installed
    · have every (s : Session) : s.Only fun _ => True := fun _ _ a _ =>
        Call.throughout_of_forall (fun _ => trivial) a
      obtain ⟨⟨paused, u⟩, first, h⟩ := Option.bind_eq_some_iff.mp h
      have before := (does_of_pauseIfRunning reacts_perform (every _) first).marks_le
      split at h
      · cases h
      · rename_i same
        cases same
        split at h
        · cases h
        · exact Nat.lt_of_le_of_lt before (marks_of_install h)

/-- **The statistics account for what has been executed** since a program was last put in place, whoever
executed it and whatever the observers did. The counts are those of the executed instructions by class, and
the cycles those that the clock of the moment gave to each; the time is zero at first, and then that of the
counts under the latest clock, which under one clock throughout is the quotient of cycles and frequency. A
time that is too large for a number has been left out. A program is put in place by every load or reset that
succeeds and by nothing else. Neither cycles that fail nor changes of the clock, accepted or not, are accounted
for. -/
theorem statistics_account {memory : Memory} {clock : Clock} {setup : Setup} {recorded : Bool}
    (history : History (fun _ _ => True) (create (.create memory clock setup) recorded) s) :
    Accounts s.controller.statistics (ledger s.journal) ∧
    (∀ clock : Clock, (∀ e ∈ ledger s.journal, e.clock = clock) → ∀ time,
      Binary64.ofQuotient? s.controller.statistics.cycles clock.frequency = some time →
        s.controller.statistics.time = time) ∧
    (∀ depth turns c reply t, c.Replaces → perform depth turns c s = some (.ok reply, t) →
      s.marks < t.marks) ∧
    (s.Only (fun c => ¬c.Replaces) → ∀ t,
      History (fun c r => (c.Throughout fun c => ¬c.Replaces) ∨ c.Replaces ∧ ∃ e, r = .error e) s t →
        t.marks = s.marks) ∧
    (∀ (c : Controller) f, c.machine.cycle = .error f → c.executeNext.2.statistics = c.statistics) ∧
    (∀ depth turns settings u r v, perform depth turns (.setClock settings) u = some (r, v) →
      (∀ e, r = .error e → v = u) ∧
      (u.Only Call.Watches → v.controller.statistics = u.controller.statistics)) := by
  have lived : Does (fun _ => True) (create (.create memory clock setup) recorded) s :=
    history.does (fun c _ _ => .inl (Call.throughout_of_forall (fun _ => trivial) c)) (only_create _ _)
  have accounts : Accounts s.controller.statistics (ledger s.journal) := lived.accounted .nil
  refine ⟨accounts, fun _ same _ is => accounts.time_eq_quotient same is,
    fun _ _ _ _ _ => marks_of_replaces, fun only t further => ?_,
    fun c f failed => Controller.statistics_of_refused (.inr ⟨f, failed⟩),
    fun depth turns settings u r v set => ?_⟩
  · exact (further.does (fun _ _ => id) only).marks_eq fun _ => id
  · rcases setClock_eq_some set with ⟨-, rfl⟩ | ⟨⟨reply, rfl⟩, depth', clock, told⟩
    · exact ⟨fun _ _ => rfl, fun _ => rfl⟩
    · refine ⟨nofun, fun only => ?_⟩
      have only : (u.withController { u.controller with clock }).Only Call.Watches := only.congr rfl
      rw [(unmoved_of_notify only told).1.controller]
      rfl

/-- A caller executes an instruction and puts the program back. Then the caller executes one again, an observer
another one at a change of the clock, and the worker a third one before the machine refuses the fourth. -/
theorem mixed_drivers_account : ∃ s, History (fun _ _ => True) bare s ∧
    Accounts s.controller.statistics (ledger s.journal) ∧ s.controller.statistics.cycles = 5 ∧
    (ledger s.journal).map (·.kind) = [.j, .r, .i] ∧ s.marks = 2 ∧ s.controller.lastError.isSome := by
  have lived : (calls 5 9 [.loadWords [0x20080001, 0x01084020, 0x0C000003, 0xFC000000], .step, .reset,
      .subscribe "stepper" (some .clock) 1 [.step] true, .step,
      .setClock [(.text "frequency", .int 2000), (.text "r_cycles", .int 3)], .run .period, .wait]
        bare).map (fun s => (s.controller.statistics.cycles, (ledger s.journal).map (·.kind), s.marks,
          s.controller.lastError.isSome)) = some (5, [.j, .r, .i], 2, true) := by
    decide +kernel
  obtain ⟨s, called, same⟩ := Option.map_eq_some_iff.mp lived
  simp only [Prod.mk.injEq] at same
  obtain ⟨cycles, kinds, marks, failed⟩ := same
  have history : History (fun _ _ => True) bare s := history_of_calls (fun _ _ _ => trivial) called
  exact ⟨s, history, (statistics_account history).1, cycles, kinds, marks, failed⟩

end Session

end Simulator

end PocketMips
