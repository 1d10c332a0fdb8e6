import PocketMips.Proofs.Controller
import PocketMips.Simulator.Session
import Mathlib.Tactic.Common

/-!
# What a session does

All that happens to a session while it answers a call, with the calls of its observers, is a sequence of a
few changes: someone is told or answered, an instruction is executed, a job has a turn, a run is started
or ends, a program is put in place, or the machine is written to. `Does` says what each of them needs and
leaves behind, so an invariant of sessions is one that each of them keeps.
-/
namespace PocketMips.Simulator

/-! ## Calls -/

namespace Call

/-- The calls that a call gives to an observer. -/
def acts : Call → List Call
  | .subscribe _ _ _ acts _ => acts
  | _ => []

/-- A property of a call and of all calls that it gives to observers, at any depth. -/
inductive Throughout (P : Call → Prop) : Call → Prop
  | intro {c : Call} : P c → (∀ a ∈ c.acts, Throughout P a) → Throughout P c

/-- Puts a program in place of the loaded one. -/
def Loads : Call → Prop
  | .load _ | .loadWords _ | .loadBytes _ => True
  | _ => False

/-- Puts a program in place of the loaded one, or the loaded one back. -/
def Replaces (c : Call) : Prop := c.Loads ∨ c = .reset

/-- Writes to the machine behind the controller's back; an access to the memory may do so. -/
def Writes : Call → Prop
  | .setRegister _ _ | .setPc _ | .memory _ => True
  | _ => False

/-- Starts a background run. -/
def IsRun : Call → Prop
  | .run _ => True
  | _ => False

/-- Pauses a run that is in progress. -/
def Pauses : Call → Prop
  | .pause | .shutdown | .reset => True
  | _ => False

/-- Executes instructions itself. -/
def Executes : Call → Prop
  | .step | .runToCompletion _ => True
  | _ => False

instance : DecidablePred IsRun
  | .run _ => .isTrue trivial
  | .load _ | .loadWords _ | .loadBytes _ | .step | .runToCompletion _ | .wait | .pause | .reset | .shutdown
  | .setClock _ | .register _ | .wordAt _ | .setRegister _ _ | .setPc _ | .timeText | .memory _ | .mute
  | .subscribe _ _ _ _ _ | .unsubscribe _ => .isFalse id

instance : DecidablePred Pauses
  | .pause | .shutdown | .reset => .isTrue trivial
  | .load _ | .loadWords _ | .loadBytes _ | .step | .runToCompletion _ | .run _ | .wait | .setClock _
  | .register _ | .wordAt _ | .setRegister _ _ | .setPc _ | .timeText | .memory _ | .mute
  | .subscribe _ _ _ _ _ | .unsubscribe _ => .isFalse id

instance : DecidablePred Executes
  | .step | .runToCompletion _ => .isTrue trivial
  | .load _ | .loadWords _ | .loadBytes _ | .run _ | .wait | .pause | .reset | .shutdown | .setClock _
  | .register _ | .wordAt _ | .setRegister _ _ | .setPc _ | .timeText | .memory _ | .mute
  | .subscribe _ _ _ _ _ | .unsubscribe _ => .isFalse id

/-- Leaves the program in place and the machine to the simulator. -/
def Drives (c : Call) : Prop := ¬c.Replaces ∧ ¬c.Writes

variable {P : Call → Prop} {c : Call}

theorem Throughout.self (h : c.Throughout P) : P c := by
  cases h with
  | intro h _ => exact h

theorem Throughout.of_nil (h : P c) (none : c.acts = []) : c.Throughout P := by
  refine .intro h fun a mem => ?_
  rw [none] at mem
  cases mem

theorem Throughout.mono {Q : Call → Prop} (h : c.Throughout P) (le : ∀ c, P c → Q c) : c.Throughout Q := by
  induction h with
  | intro given _ ih => exact .intro (le _ given) ih

theorem Throughout.acts (h : c.Throughout P) : ∀ a ∈ c.acts, a.Throughout P := by
  cases h with
  | intro _ h => exact h

theorem throughout_of_forall (h : ∀ c, P c) : (c : Call) → c.Throughout P
  | .subscribe name event turn acts fails =>
    .intro (h (.subscribe name event turn acts fails)) fun a mem =>
      have := List.sizeOf_lt_of_mem mem
      throughout_of_forall h a
  | .load _ | .loadWords _ | .loadBytes _ | .step | .runToCompletion _ | .run _ | .wait | .pause | .reset
  | .shutdown | .setClock _ | .register _ | .wordAt _ | .setRegister _ _ | .setPc _ | .timeText
  | .memory _ | .mute | .unsubscribe _ => .of_nil (h _) rfl
termination_by c => sizeOf c
decreasing_by
  simp only [Call.subscribe.sizeOf_spec]
  have : sizeOf a < sizeOf acts := this
  omega

end Call

namespace Session

variable {P : Call → Prop} {s t : Session}

/-- All calls that the observers of a session may make have a property. -/
def Only (P : Call → Prop) (s : Session) : Prop :=
  ∀ o ∈ s.observers, ∀ a ∈ o.2.acts, a.Throughout P

/-! ## Changes -/

/-- The session without a background run in progress, before anyone is told. -/
def rested (s : Session) : Session :=
  s.withController (if s.controller.lost then s.controller.idle else s.controller.settle)

/-- The session with one more job, the current one. -/
def queued (s : Session) (overlong : Bool) : Session :=
  { s with jobs := s.jobs ++ [.pending overlong], current := some s.jobs.length }

/-- No job is waited for but one that has ended. -/
def Awaited (s : Session) : Prop :=
  ∀ j, s.current = some j → ∃ failure, s.jobs[j]?.getD (.ended none) = .ended failure

/-- A sequence of changes that a session goes through when calls with a property are made. -/
inductive Does (P : Call → Prop) : Session → Session → Prop
  | refl {s : Session} : Does P s s
  | trans {s t u : Session} : Does P s t → Does P t u → Does P s u
  | told {s : Session} (who : ObserverId) (event : Event) (snapshot : Snapshot) :
    Does P s (s.log (.told who event snapshot s.controller))
  | replied {s : Session} (c : Call) (r : Except Failure Reply) : Does P s (s.log (.replied c r))
  | seen {s : Session} (who : ObserverId) : Does P s (s.countSeen who)
  /-- An instruction is executed for a caller, who has found the controller idle before it or before an
  earlier instruction; only a run can have been started since. -/
  | single {s : Session} : s.controller.status = .idle ∨ (∃ delay, P (.run delay)) →
    Does P s (s.executed .caller)
  /-- A job has a turn and is to have another. -/
  | goOn {s t : Session} {j : Nat} {overlong : Bool} : s.jobs[j]? = some (.pending overlong) →
    s.controller.stopRequested = false → Does P ((s.setJob j .working).executed .worker) t →
    Does P s (t.setJob j (.pending overlong))
  /-- A job has its last turn. -/
  | leave {s t u : Session} {j : Nat} {overlong : Bool} {failure : Option Failure} :
    s.jobs[j]? = some (.pending overlong) → s.controller.stopRequested = false →
    Does P ((s.setJob j .working).executed .worker) t → Does P t.rested u →
    Does P s (u.setJob j (.ended failure))
  /-- A job ends without executing an instruction. -/
  | drop {s u : Session} {j : Nat} {overlong : Bool} {failure : Option Failure} :
    s.jobs[j]? = some (.pending overlong) → Does P (s.setJob j .working).rested u →
    Does P s (u.setJob j (.ended failure))
  | requestStop {s : Session} : Does P s (s.withController s.controller.requestStop)
  /-- The end of a pause, which has waited for the current job; only a run can have made another one
  current since. -/
  | rest {s : Session} : s.Awaited ∨ (∃ delay, P (.run delay)) →
    Does P s { s with current := none }.rested
  /-- A run is started: the observers are told, and then there is a job. -/
  | launch {s t : Session} {delay : Delay} (overlong : Bool) : P (.run delay) →
    s.controller.status = .idle → Does P (s.withController s.controller.begin) t →
    Does P s (t.queued overlong)
  /-- A run is not started, but the controller takes it for started. -/
  | stick {s : Session} {delay : Delay} : P (.run delay) → s.controller.lost = true →
    Does P s (s.withController s.controller.running)
  /-- A program is put in place, by a load or once more, and the journal has a mark of it. -/
  | place {s : Session} {c : Call} {program : List Word} {labels : Assembly.Labels}
    {after : Controller} : P c → c.Replaces → s.controller.status = .idle →
    s.controller.place program labels = (.ok (), after) →
    c.Loads ∨ (program = s.controller.program ∧ labels = s.controller.labels) →
    Does P s ((s.withController after).log .placed)
  /-- A program is not put in place; this may take away the one that is there. -/
  | misplace {s : Session} {program : List Word} {labels : Assembly.Labels} {e : Failure}
    {after : Controller} : s.controller.status = .idle →
    s.controller.place program labels = (.error e, after) → Does P s (s.withController after)
  | setClock {s : Session} {settings : Value.Entries} (clock : Clock) : P (.setClock settings) →
    Does P s (s.withController { s.controller with clock })
  | write {s : Session} {c : Call} (m : Machine) : P c → c.Writes →
    m.memory.extent = s.controller.machine.memory.extent → Does P s (s.withMachine m)
  | setPc {s : Session} {value : Int} : P (.setPc value) → Does P s (s.setPc value)
  | subscribe {s : Session} {name : String} {event : Option Event} {turn : Int} {acts : List Call}
    {fails : Bool} : (Call.subscribe name event turn acts fails).Throughout P →
    Does P s (s.subscribe name { event, turn, acts, fails })
  | remove {s : Session} (who : ObserverId) : Does P s (s.remove who)

/-! ## What no change touches -/

theorem Only.congr (same : t.observers = s.observers) (h : s.Only P) : t.Only P := by
  rw [Only, same]
  exact h

/-- At first there are no observers that make calls. -/
theorem only_create (c : Controller) (recorded : Bool) : (create c recorded).Only P :=
  fun _ mem => absurd mem List.not_mem_nil

/-- Observers come from subscriptions only, and nothing but their counts changes. -/
theorem Does.observers {Q : Observer → Prop} (counted : ∀ o seen, Q o → Q { o with seen })
    (given : ∀ name event turn acts fails,
      (Call.subscribe name event turn acts fails).Throughout P → Q { event, turn, acts, fails })
    (h : Does P s t) (all : ∀ o ∈ s.observers, Q o.2) : ∀ o ∈ t.observers, Q o.2 := by
  induction h with
  | trans _ _ first second => exact second (first all)
  | seen who =>
    intro o mem
    obtain ⟨⟨id, o⟩, inside, rfl⟩ := List.mem_map.mp mem
    have holds := all _ inside
    dsimp only
    by_cases same : id = who
    · rw [if_pos same]
      exact counted o _ holds
    · rwa [if_neg same]
  | goOn _ _ _ ih => exact ih all
  | leave _ _ _ _ first second => exact second (first all)
  | drop _ _ ih => exact ih all
  | launch _ _ _ _ ih => exact ih all
  | subscribe made =>
    intro o mem
    rcases List.mem_append.mp mem with mem | mem
    · exact all o mem
    · cases List.mem_singleton.mp mem
      exact given _ _ _ _ _ made
  | _ => exact all

theorem Does.only (h : Does P s t) (only : s.Only P) : t.Only P :=
  h.observers (Q := fun o => ∀ a ∈ o.acts, a.Throughout P) (fun _ _ => id)
    (fun _ _ _ _ _ made => made.acts) only

@[simp] theorem status_executed (s : Session) (driver : Driver) :
    (s.executed driver).controller.status = s.controller.status :=
  s.controller.executeNext_frame.1

@[simp] theorem status_rested (s : Session) : s.rested.controller.status = .idle := by
  unfold rested
  split <;> rfl

section WithoutRuns

variable (never : ∀ delay, ¬P (.run delay))
include never

/-- Only a run that is started makes an idle controller busy. -/
theorem Does.idle (h : Does P s t) (idle : s.controller.status = .idle) :
    t.controller.status = .idle := by
  induction h with
  | trans _ _ first second => exact second (first idle)
  | single _ => rwa [status_executed]
  | goOn _ _ _ ih => exact ih (by rwa [status_executed])
  | leave _ _ _ _ _ ih => exact ih (status_rested _)
  | drop _ _ ih => exact ih (status_rested _)
  | rest _ => exact status_rested _
  | launch _ made => exact absurd made (never _)
  | stick made => exact absurd made (never _)
  | place _ _ _ placed | misplace _ placed => exact (Controller.place_status placed).trans idle
  | _ => exact idle

/-- Only a run that is started makes another job current. -/
theorem Does.current (h : Does P s t) : t.current = s.current ∨ t.current = none := by
  induction h with
  | trans _ _ first second =>
    rcases second with same | gone
    · rwa [same]
    · exact .inr gone
  | goOn _ _ _ ih => exact ih
  | leave _ _ _ _ first second =>
    rcases second with same | gone
    · exact first.imp same.trans same.trans
    · exact .inr gone
  | drop _ _ ih => exact ih
  | rest _ => exact .inr rfl
  | launch _ made => exact absurd made (never _)
  | _ => exact .inl rfl

end WithoutRuns

end Session

end PocketMips.Simulator
