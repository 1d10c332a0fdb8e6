import PocketMips.Proofs.Calls
import Mathlib.Logic.Relation

/-!
# Histories of a session

A session lives through calls, turns of the jobs of its background worker, and pauses that give up waiting
for the worker. Its journal grows by what is done.
-/
namespace PocketMips.Simulator.Session

variable {P : Call → Prop} {E F : Driver → Controller → Prop} {s t u : Session}
  {allowed : Call → Except Failure Reply → Prop}

/-! ## What is added to the journal -/

/-- The journal of a session is continued by that of another one, and all cycles in what is added have a
property of who executes them and in which state. -/
def Adds (E : Driver → Controller → Prop) (s t : Session) : Prop :=
  ∃ new, t.journal = new ++ s.journal ∧ ∀ driver before, .cycle driver before ∈ new → E driver before

namespace Adds

theorem of_eq (same : t.journal = s.journal) : s.Adds E t :=
  ⟨[], same, fun _ _ mem => absurd mem List.not_mem_nil⟩

theorem of_cons {e : Entry} (same : t.journal = e :: s.journal)
    (others : ∀ driver before, e ≠ .cycle driver before) : s.Adds E t :=
  ⟨[e], same, fun driver before mem => absurd (List.mem_singleton.mp mem).symm (others driver before)⟩

theorem trans (first : s.Adds E t) (second : t.Adds E u) : s.Adds E u := by
  obtain ⟨new, same, holds⟩ := first
  obtain ⟨newer, same', holds'⟩ := second
  refine ⟨newer ++ new, by rw [same', same, List.append_assoc], fun driver before mem => ?_⟩
  rcases List.mem_append.mp mem with mem | mem
  · exact holds' driver before mem
  · exact holds driver before mem

theorem mono (h : s.Adds E t) (le : ∀ driver before, E driver before → F driver before) :
    s.Adds F t := by
  obtain ⟨new, same, holds⟩ := h
  exact ⟨new, same, fun driver before mem => le driver before (holds driver before mem)⟩

theorem placed {c : Controller} (h : ((s.withController c).log .placed).Adds E t) : s.Adds E t :=
  .trans (.of_cons rfl fun _ _ same => by cases same) h

theorem executed {driver : Driver}
    (h : s.controller.machine.hasFinished = false → E driver s.controller) :
    s.Adds E (s.executed driver) := by
  refine ⟨s.begun driver, rfl, fun d before mem => ?_⟩
  unfold begun at mem
  split at mem
  · cases mem
  · rename_i going
    cases List.mem_singleton.mp mem
    exact h (eq_false_of_ne_true going)

end Adds

/-- No cycle is executed of a program that has finished, and a caller's cycle is executed while the
controller is idle unless a run may have been started by an observer. -/
theorem Does.adds (h : Does P s t) :
    s.Adds (fun driver before => before.machine.hasFinished = false ∧
      (driver = .caller → before.status = .idle ∨ ∃ delay, P (.run delay))) t := by
  induction h with
  | trans _ _ first second => exact first.trans second
  | told | replied | place => exact .of_cons rfl fun _ _ same => by cases same
  | single free => exact .executed fun going => ⟨going, fun _ => free⟩
  | goOn _ _ _ ih => exact .trans (.executed fun going => ⟨going, fun is => by cases is⟩) ih
  | leave _ _ _ _ first second =>
    have worked := Adds.trans (.executed fun going => ⟨going, fun is => by cases is⟩) first
    exact worked.trans second
  | drop _ _ ih => exact ih
  | launch _ _ _ _ ih => exact ih
  | _ => exact .of_eq rfl

/-! ## Histories -/

/-- A call is made that is allowed to be made and to be answered so, a job that waits for its turn has it,
or a pause during a run has asked it to stop and gives up waiting. -/
inductive Moves (allowed : Call → Except Failure Reply → Prop) : Session → Session → Prop
  | call {s t : Session} {depth turns : Nat} {c : Call} {r : Except Failure Reply} : allowed c r →
    perform depth turns c s = some (r, t) → Moves allowed s t
  | turn {s t : Session} {depth turns j : Nat} {overlong : Bool} :
    s.jobs[j]? = some (.pending overlong) → turn (perform depth turns) j overlong s = some t →
    Moves allowed s t
  | expire {s : Session} : s.controller.isRunning → Moves allowed s (s.withController s.controller.requestStop)

/-- Any number of moves. -/
abbrev History (allowed : Call → Except Failure Reply → Prop) : Session → Session → Prop :=
  Relation.ReflTransGen (Moves allowed)

/-- A move with no other calls than those with a property, apart from loads and resets that fail. -/
theorem Moves.does
    (given : ∀ c r, allowed c r → c.Throughout P ∨ c.Replaces ∧ ∃ e, r = .error e)
    (h : Moves allowed s t) (only : s.Only P) : Does P s t := by
  cases h with
  | call may performed => exact does_of_perform only (given _ _ may) performed
  | turn waiting turned => exact does_of_turn reacts_perform only waiting turned
  | expire => exact .requestStop

theorem History.does
    (given : ∀ c r, allowed c r → c.Throughout P ∨ c.Replaces ∧ ∃ e, r = .error e)
    (h : History allowed s t) (only : s.Only P) : Does P s t := by
  induction h with
  | refl => exact .refl
  | tail _ move ih => exact .trans ih (move.does given (ih.only only))

/-- The controllers that the cycles of a driver have found, the latest first. -/
def found (driver : Driver) (s : Session) : List Controller :=
  s.journal.filterMap fun
    | .cycle d before => if d = driver then some before else none
    | _ => none

theorem mem_found {driver : Driver} {before : Controller} :
    before ∈ s.found driver ↔ .cycle driver before ∈ s.journal := by
  rw [found, List.mem_filterMap]
  constructor
  · rintro ⟨e, mem, is⟩
    split at is
    · split at is
      · rename_i same
        cases is
        cases same
        exact mem
      · cases is
    · cases is
  · intro mem
    exact ⟨_, mem, if_pos rfl⟩

/-! ## Calls one after the other -/

/-- A session of a new controller over an empty memory, with nobody listening. -/
def bare : Session := create (.create (.blank .sparse) .standard {}) false

/-- The session after calls that are made one after the other. -/
def calls (depth turns : Nat) (cs : List Call) (s : Session) : Option Session :=
  cs.foldlM (fun s c => (perform depth turns c s).map (·.2)) s

theorem history_of_calls {depth turns : Nat} {cs : List Call} (may : ∀ c ∈ cs, ∀ r, allowed c r)
    (h : calls depth turns cs s = some t) : History allowed s t := by
  induction cs generalizing s with
  | nil =>
    cases h
    exact .refl
  | cons c cs ih =>
    rw [List.forall_mem_cons] at may
    rw [calls, List.foldlM_cons] at h
    obtain ⟨_, answered, rest⟩ := Option.bind_eq_some_iff.mp h
    obtain ⟨⟨r, u⟩, performed, rfl⟩ := Option.map_eq_some_iff.mp answered
    exact .head (.call (may.1 r) performed) (ih may.2 rest)

/-- The reply to a call that succeeds, and the session after it. -/
def succeeds (depth turns : Nat) (c : Call) (s : Session) : Option (Reply × Session) :=
  match perform depth turns c s with
  | some (.ok reply, t) => some (reply, t)
  | _ => none

theorem perform_of_succeeds {depth turns : Nat} {c : Call} {reply : Reply}
    (h : succeeds depth turns c s = some (reply, t)) :
    perform depth turns c s = some (.ok reply, t) := by
  unfold succeeds at h
  split at h
  · rename_i performed
    cases h
    exact performed
  · cases h

/-- The program that a load replies with. -/
def programOf? : Reply → Option (List Word)
  | .words program => some program
  | _ => none

theorem eq_of_programOf? {reply : Reply} {program : List Word} (h : programOf? reply = some program) :
    reply = .words program := by
  unfold programOf? at h
  split at h
  · cases h
    rfl
  · cases h

/-- The failure of a call, and the session after it. -/
def fails (depth turns : Nat) (c : Call) (s : Session) : Option (Failure × Session) :=
  match perform depth turns c s with
  | some (.error e, t) => some (e, t)
  | _ => none

theorem perform_of_fails {depth turns : Nat} {c : Call} {e : Failure}
    (h : fails depth turns c s = some (e, t)) : perform depth turns c s = some (.error e, t) := by
  unfold fails at h
  split at h
  · rename_i performed
    cases h
    exact performed
  · cases h

/-- The session after a turn of a job that waits for it. -/
def worked (depth turns j : Nat) (s : Session) : Option Session :=
  match s.jobs[j]? with
  | some (.pending overlong) => turn (perform depth turns) j overlong s
  | _ => none

theorem moves_of_worked {depth turns j : Nat} (h : worked depth turns j s = some t) :
    Moves allowed s t := by
  unfold worked at h
  split at h
  · rename_i waiting
    exact .turn waiting h
  · cases h

end PocketMips.Simulator.Session
