import PocketMips.Proofs.Hearing
import PocketMips.Proofs.Step
import PocketMips.Proofs.Worker

/-!
# Turns among observers that watch

If the observers only watch, a turn of a job is the controller's business: what becomes of the job, and what
the listeners hear, depends on the controller alone. Between the calls of such a session at most one job has
turns to go, and only during a run.
-/
namespace PocketMips.Simulator

namespace Call

variable {c : Call}

/-- Whoever is subscribed by the call only watches. -/
def Passive (c : Call) : Prop := ∀ a ∈ c.acts, a.Throughout Watches

theorem Throughout.passive (h : c.Throughout Watches) :
    c.Throughout fun c => c.Passive ∧ ¬c.IsRun := by
  induction h with
  | @intro c watches given ih =>
    refine .intro ⟨given, fun run => ?_⟩ ih
    cases c with
    | run => cases watches
    | _ => cases run

end Call

/-! ## The controller -/

namespace Controller

/-- What a turn comes to: the controller and the job after it, and what is told meanwhile. -/
structure Turn where
  controller : Controller
  job : Job
  news : News

/-- The last turn of a job, with what has been told before its end. -/
def leave (c : Controller) (failure : Option Failure) (news : News) : Turn :=
  ⟨c.settle, .ended failure, news ++ [(.stopped, c.settle.stored)]⟩

/-- A turn of a job, with or without a wait after it that is too long. -/
def turn (c : Controller) (overlong : Bool) : Turn :=
  if c.stopRequested then c.leave none []
  else
    match c.executeNext.1 with
    | .stepped false =>
      if overlong then c.executeNext.2.leave (some .overflow) c.news
      else ⟨c.executeNext.2, .pending false, c.news⟩
    | .overflow => c.executeNext.2.leave (some .overflow) c.news
    | .completed | .stepped true | .failed _ => c.executeNext.2.leave none c.news

theorem executeNext_finished (c : Controller) :
    (c.executeNext.1 = .completed → c.executeNext.2.stored.finished = true) ∧
      ∀ finished, c.executeNext.1 = .stepped finished →
        c.executeNext.2.stored.finished = finished := by
  unfold executeNext
  split
  · rename_i finished
    exact ⟨fun _ => finished, nofun⟩
  · split
    · exact ⟨nofun, nofun⟩
    · split
      · exact ⟨nofun, nofun⟩
      · exact ⟨nofun, fun _ same => Outcome.stepped.inj same⟩

theorem executeNext_completed {c : Controller} (outcome : c.executeNext.1 = .completed) :
    c.machine.hasFinished = true ∧ c.executeNext.2 = c.refresh := by
  unfold executeNext at outcome ⊢
  split
  · exact ⟨‹_›, rfl⟩
  · rename_i going
    rw [if_neg going] at outcome
    split at outcome
    · cases outcome
    · split at outcome <;> cases outcome

theorem executeNext_failed {c : Controller} {f : Machine.Fault} (outcome : c.executeNext.1 = .failed f) :
    c.machine.hasFinished = false ∧ c.machine.cycle = .error f ∧
      c.executeNext.2 = refresh { c with lastError := some f } := by
  unfold executeNext at outcome ⊢
  split at outcome
  · cases outcome
  · rename_i going
    split at outcome
    · rename_i failed
      cases outcome
      rw [if_neg going, failed]
      exact ⟨eq_false_of_ne_true going, rfl, rfl⟩
    · split at outcome <;> cases outcome

theorem Executes.total {c d : Controller} {instr : Instruction} (h : Executes instr c d) :
    d.statistics.total = c.statistics.total + 1 := by
  have r := h.count .r
  have i := h.count .i
  have j := h.count .j
  unfold Statistics.total
  simp only [Statistics.countOf] at r i j
  cases kind : instr.kind <;> simp only [kind] at r i j <;> simp_all <;> omega

theorem executes_of_stepped (c : Controller) {finished : Bool}
    (outcome : c.executeNext.1 = .stepped finished) : ∃ instr, Executes instr c c.executeNext.2 := by
  rcases c.executeNext_cases with ⟨other, -⟩ | ⟨instr, _, -, executes⟩ | ⟨f, other, -⟩ | ⟨instr, other, -⟩
  case inr.inl => exact ⟨instr, executes⟩
  all_goals
    rw [outcome] at other
    cases other

/-- A job that nobody has asked to stop goes on, ends with the program, or ends by a time that is too large or
a wait that is too long. -/
theorem turn_cases (c : Controller) (overlong : Bool) (going : c.stopRequested = false) :
    (c.executeNext.1 = .stepped false ∧ c.turn overlong = ⟨c.executeNext.2, .pending false, c.news⟩) ∨
      (c.executeNext.1 ≠ .stepped false ∧ c.executeNext.1 ≠ .overflow ∧
        c.turn overlong = c.executeNext.2.leave none c.news) ∨
      c.turn overlong = c.executeNext.2.leave (some .overflow) c.news := by
  cases outcome : c.executeNext.1 with
  | stepped finished =>
    cases finished with
    | true => exact .inr (.inl ⟨nofun, nofun, by simp [turn, going, outcome]⟩)
    | false =>
      cases overlong with
      | true => exact .inr (.inr (by simp [turn, going, outcome]))
      | false => exact .inl ⟨rfl, by simp [turn, going, outcome]⟩
  | overflow => exact .inr (.inr (by simp [turn, going, outcome]))
  | completed | failed f => exact .inr (.inl ⟨nofun, nofun, by simp [turn, going, outcome]⟩)

end Controller

namespace Session

variable {s t u v : Session} {depth turns j : Nat} {driver : Driver} {news news' : News}

/-! ## A turn -/

theorem hears_of_announce (only : s.Only Call.Watches)
    (h : announce (perform depth turns) news s = some t) : s.Hears t news := by
  induction news generalizing s with
  | nil =>
    cases h
    exact .of_eq rfl rfl fun _ => rfl
  | cons told news ih =>
    obtain ⟨event, snapshot⟩ := told
    obtain ⟨u, first, rest⟩ := Option.bind_eq_some_iff.mp h
    have hears := hears_of_notify only first
    exact hears.trans (ih (hears.only only) rest)

theorem hears_of_advance {r : Except Failure Snapshot} (kept : s.controller.lost = false)
    (only : s.Only Call.Watches) (h : advance (perform depth turns) driver s = some (r, t)) :
    s.Hears t s.controller.news := by
  have executed : s.Hears (s.executed driver) [] :=
    .of_eq rfl rfl fun _ => heard_executed s driver
  rw [advance_eq kept] at h
  obtain ⟨u, told, same⟩ := Option.map_eq_some_iff.mp h
  cases same
  exact executed.trans (hears_of_announce (only.congr rfl) told)

theorem ofRun?_failureOf (c : Controller) (f : Machine.Fault) : (failureOf c f).ofRun? = none := by
  unfold failureOf
  split <;> rfl

/-- A job has had a turn, and nothing else has happened. -/
structure Turned (s t : Session) (j : Nat) (turn : Controller.Turn) : Prop where
  controller : t.controller = turn.controller
  jobs : t.jobs = s.jobs.set j turn.job
  current : t.current = s.current
  hears : s.Hears t turn.news

theorem turned_of_finish {failure : Option Failure} (jobs : v.jobs = s.jobs)
    (current : v.current = s.current) (hears : s.Hears v news) (kept : v.controller.lost = false)
    (only : v.Only Call.Watches) (h : finish (perform depth turns) j failure v = some t) :
    s.Turned t j (v.controller.leave failure news) := by
  rw [finish, if_neg (by simp [kept])] at h
  obtain ⟨u, told, same⟩ := Option.bind_eq_some_iff.mp h
  cases same
  obtain ⟨unmoved, heard⟩ := hears_of_change only told
  refine ⟨unmoved.controller, ?_, unmoved.current.trans current, hears.trans ?_⟩
  · rw [setJob, unmoved.jobs, ← jobs]
    rfl
  · exact heard.trans (.setJob _ _ _)

/-- A job that has been marked as having its turn has it. -/
theorem turned_of_working {overlong : Bool} (kept : s.controller.lost = false)
    (only : s.Only Call.Watches)
    (h : (if s.controller.stopRequested then finish (perform depth turns) j none s
      else do
        match ← advance (perform depth turns) .worker s with
        | (.ok snapshot, s) =>
          if snapshot.finished then finish (perform depth turns) j none s
          else if overlong && !s.controller.stopRequested then
            finish (perform depth turns) j (some .overflow) s
          else return s.setJob j (.pending overlong)
        | (.error e, s) => finish (perform depth turns) j e.ofRun? s) = some t) :
    s.Turned t j (s.controller.turn overlong) := by
  unfold Controller.turn
  split at h
  · rename_i stop
    rw [if_pos stop]
    exact turned_of_finish rfl rfl (.of_eq rfl rfl fun _ => rfl) kept only h
  · rename_i going
    rw [if_neg going]
    obtain ⟨⟨r, v⟩, advanced, h⟩ := Option.bind_eq_some_iff.mp h
    have hears := hears_of_advance kept only advanced
    obtain ⟨unmoved, only', rfl⟩ := advance_of_watches kept only advanced
    -- what the observers have been told does not matter to the rest of the turn
    have after : v.controller = s.controller.executeNext.2 := unmoved.controller
    obtain ⟨_, _, _, _, _, _, fields⟩ := s.controller.executeNext_fields
    have kept' : v.controller.lost = false := by
      rw [after, fields]
      exact kept
    have going' : v.controller.stopRequested = false := by
      rw [after, fields]
      exact eq_false_of_ne_true going
    have left {failure : Option Failure} (h : finish (perform depth turns) j failure v = some t) :
        s.Turned t j (s.controller.executeNext.2.leave failure s.controller.news) := by
      rw [← after]
      exact turned_of_finish unmoved.jobs unmoved.current hears kept' only' h
    obtain ⟨completed, stepped⟩ := s.controller.executeNext_finished
    rw [after] at h
    cases outcome : s.controller.executeNext.1 with
    | completed =>
      rw [outcome] at h
      exact left (by simpa [answerOf, completed outcome] using h)
    | stepped finished =>
      rw [outcome] at h
      cases finished with
      | true => exact left (by simpa [answerOf, stepped true outcome] using h)
      | false =>
        cases overlong with
        | true => exact left (by simpa [answerOf, stepped false outcome, going'] using h)
        | false =>
          have same : v.setJob j (.pending false) = t := by
            simpa [answerOf, stepped false outcome] using h
          rw [← same]
          refine ⟨after, ?_, unmoved.current, by simpa using hears.trans (.setJob v j (.pending false))⟩
          rw [setJob, unmoved.jobs]
          rfl
    | failed f =>
      rw [outcome] at h
      refine left ?_
      rw [← ofRun?_failureOf s.controller.executeNext.2 f]
      exact h
    | overflow =>
      rw [outcome] at h
      exact left h

/-- **A turn among observers that watch** is one of the controller. -/
theorem turn_of_watches {overlong : Bool} (kept : s.controller.lost = false)
    (only : s.Only Call.Watches) (h : turn (perform depth turns) j overlong s = some t) :
    s.Turned t j (s.controller.turn overlong) := by
  have turned := turned_of_working (s := s.setJob j .working) kept (only.congr rfl) h
  exact ⟨turned.controller, by rw [turned.jobs, setJob, List.set_set], turned.current,
    (Hears.setJob s j .working).trans turned.hears⟩

/-! ## Jobs -/

theorem run_of_watches {delay : Delay} {reply : Reply} (only : s.Only Call.Watches)
    (h : perform depth turns (.run delay) s = some (.ok reply, t)) :
    ∃ overlong, s.controller.status = .idle ∧ s.controller.lost = false ∧
      t.controller = s.controller.begin ∧ t.jobs = s.jobs ++ [.pending overlong] ∧
      t.current = some s.jobs.length ∧ s.Hears t [(.started, s.controller.begin.stored)] := by
  cases depth with
  | zero => cases h
  | succ depth =>
    replace h : run (perform depth turns) delay s = some (.ok reply, t) := h
    unfold run at h
    split at h
    · cases h
    · rename_i free
      split at h
      · cases h
      · rename_i overlong _
        split at h
        · cases h
        · rename_i kept
          obtain ⟨u, told, same⟩ := Option.bind_eq_some_iff.mp h
          cases same
          obtain ⟨unmoved, heard⟩ := hears_of_change only told
          refine ⟨overlong, idle_of_requireIdle free, eq_false_of_ne_true kept, unmoved.controller, ?_, ?_,
            heard.trans (.of_eq rfl rfl fun _ => rfl)⟩
          all_goals
            simp only [unmoved.jobs]
            rfl

/-- A job has a turn. -/
def Works (s t : Session) : Prop :=
  ∃ depth turns j overlong, s.jobs[j]? = some (.pending overlong) ∧
    turn (perform depth turns) j overlong s = some t

theorem works_of_demand {n : Nat} {answer : JobEnd}
    (h : demand (perform depth turns) j n s = some (answer, t)) :
    Relation.ReflTransGen Works s t ∧
      ∀ failure, answer = .ended failure → t.jobs[j]?.getD (.ended none) = .ended failure := by
  fun_induction demand (perform depth turns) j n s with
  | case1 =>
    cases h
    exact ⟨.refl, fun _ same => by cases same⟩
  | case2 _ _ failure ended =>
    cases h
    exact ⟨.refl, fun _ same => by cases same; exact ended⟩
  | case3 => cases h
  | case4 s overlong waiting n ih =>
    have waiting := getElem?_of_getD waiting (by rintro ⟨⟩)
    obtain ⟨u, turned, h⟩ := Option.bind_eq_some_iff.mp h
    obtain ⟨rest, ended⟩ := ih u h
    exact ⟨.head ⟨depth, turns, j, overlong, waiting, turned⟩ rest, ended⟩

theorem works_of_wait {r : Except Failure Reply} (h : perform depth turns .wait s = some (r, t)) :
    Relation.ReflTransGen Works s t ∧ ∀ reply, r = .ok reply → s.current = some j →
      t.jobs[j]?.getD (.ended none) = .ended none := by
  cases depth with
  | zero => cases h
  | succ depth =>
    replace h : wait (perform depth turns) turns s = some (r, t) := h
    unfold wait at h
    split at h
    · rename_i nothing
      cases h
      exact ⟨.refl, fun _ _ is => by rw [nothing] at is; cases is⟩
    · rename_i k current
      obtain ⟨⟨answer, u⟩, demanded, h⟩ := Option.bind_eq_some_iff.mp h
      have same : t = u ∧ ∀ reply, r = .ok reply → answer = .ended none := by
        split at h <;> rename_i is <;> cases is <;> cases h
        · exact ⟨rfl, fun _ is => by cases is⟩
        · exact ⟨rfl, fun _ is => by cases is⟩
        · exact ⟨rfl, fun _ _ => rfl⟩
      obtain ⟨rfl, answered⟩ := same
      obtain ⟨works, ended⟩ := works_of_demand demanded
      refine ⟨works, fun reply done is => ?_⟩
      rw [current] at is
      cases is
      exact ended none (answered reply done)

/-- Observers only watch, no turn is in progress, and no job but the current one has turns to go, during a
run. -/
structure Tidy (s : Session) : Prop where
  orderly : s.Orderly
  resting : ∀ j : Nat, s.jobs[j]? ≠ some .working
  only : s.Only Call.Watches

theorem tidy_create (c : Controller) (recorded : Bool) : (create c recorded).Tidy := by
  refine ⟨⟨fun j going => ?_, fun j overlong waiting => ?_⟩, fun j working => ?_, only_create c recorded⟩
  · obtain ⟨job, is, -⟩ := going
    cases is
  · cases waiting
  · cases working

namespace Tidy

theorem does (h : s.Tidy) (made : Does (fun c => c.Passive ∧ ¬c.IsRun) s t) : t.Tidy :=
  ⟨(made.orderly (fun _ given => given.2 trivial) h.orderly).1,
    fun j working => h.resting j (made.working working),
    made.observers (Q := fun o => ∀ a ∈ o.acts, a.Throughout Call.Watches) (fun _ _ => id)
      (fun _ _ _ _ _ given => given.self.1) h.only⟩

theorem run {delay : Delay} {r : Except Failure Reply} (h : s.Tidy)
    (started : perform depth turns (.run delay) s = some (r, t)) : t.Tidy := by
  cases depth with
  | zero => cases started
  | succ depth =>
    rcases run_eq_some started with rfl | ⟨-, rfl⟩ | ⟨overlong, u, idle, told, rfl⟩
    · exact h
    · exact ⟨⟨h.orderly.current, fun _ _ _ => rfl⟩, h.resting, h.only⟩
    · have only : (s.withController s.controller.begin).Only Call.Watches := h.only
      obtain ⟨unmoved, only⟩ := unmoved_of_notify only told
      have jobs : u.jobs = s.jobs := unmoved.jobs
      have spent (k : Nat) : ¬u.Unfinished k := by
        rw [Unfinished, jobs]
        exact h.orderly.spent h.resting idle k
      have running : u.controller.status = .running := by
        rw [unmoved.controller]
        rfl
      refine ⟨.queued spent running, fun k working => ?_, only⟩
      rcases getElem?_queued working with working | ⟨-, same⟩
      · exact h.resting k (jobs ▸ working)
      · cases same

end Tidy

theorem Moves.tidy (h : Moves (fun c _ => c.Passive) s t) (tidy : s.Tidy) : t.Tidy := by
  have only : s.Only fun c => c.Passive ∧ ¬c.IsRun := fun o mem a given =>
    (tidy.only o mem a given).passive
  cases h with
  | turn waiting turned => exact tidy.does (does_of_turn reacts_perform only waiting turned)
  | expire => exact tidy.does .requestStop
  | @call _ depth turns c r passive performed =>
    by_cases run : c.IsRun
    · cases c with
      | run => exact tidy.run performed
      | _ => cases run
    · exact tidy.does (does_of_perform only
        (.inl (.intro ⟨passive, run⟩ fun a given => (passive a given).passive)) performed)

theorem History.tidy (h : History (fun c _ => c.Passive) s t) (tidy : s.Tidy) : t.Tidy := by
  induction h with
  | refl => exact tidy
  | tail _ move ih => exact move.tidy ih

namespace Tidy

/-- Only the job that waits for a turn can have one. -/
theorem turned {overlong : Bool} (h : s.Tidy) (kept : s.controller.lost = false)
    (waiting : s.jobs[j]? = some (.pending overlong)) (works : Works s t) :
    s.Turned t j (s.controller.turn overlong) ∧ t.Tidy := by
  obtain ⟨depth, turns, k, overlong', waiting', turned⟩ := works
  have current := h.orderly.current k (unfinished_of_pending waiting')
  rw [h.orderly.current j (unfinished_of_pending waiting)] at current
  cases current
  rw [waiting] at waiting'
  cases waiting'
  exact ⟨turn_of_watches kept h.only turned, (Moves.turn waiting turned).tidy h⟩

theorem eq_of_works (h : s.Tidy) (idle : s.controller.status = .idle)
    (works : Relation.ReflTransGen Works s t) : s = t := by
  rcases works.cases_head with same | ⟨u, ⟨_, _, k, _, waiting, -⟩, -⟩
  · exact same
  · exact absurd (unfinished_of_pending waiting) (h.orderly.spent h.resting idle k)

end Tidy

end Session

end PocketMips.Simulator
