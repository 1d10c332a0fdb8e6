import PocketMips.Proofs.Turns

/-!
# The events of a run

A listener hears of a run in the background in a fixed order, whatever ends the run: it starts, it makes steps,
its program may complete or fail, and it has stopped; a pause that has waited for it comes last. While the run
is in progress this is an invariant of everything that callers do.
-/
namespace PocketMips.Simulator

/-- Tells of runs, and not of a load, a reset or a change of the clock. -/
def Event.ofRun : Event → Bool
  | .loaded | .clock | .reset => false
  | _ => true

/-- The beginning of a run from a state with a number of counted instructions: the snapshots of its start and
of its steps, each of which counts one instruction more. -/
structure Opening (start : Nat) (first : Snapshot) (steps : List Snapshot) : Prop where
  started : first.status = .running ∧ first.statistics.total = start
  running : ∀ snapshot ∈ steps, snapshot.status = .running
  unfinished : ∀ snapshot ∈ steps, snapshot.finished = false
  counted : ∀ i snapshot, steps[i]? = some snapshot → snapshot.statistics.total = start + (i + 1)

/-- What is told by the last turn of a run, after some counted instructions and before the snapshot by which
it is told to have stopped. -/
inductive Ending (total : Nat) : News → Snapshot → Prop
  /-- The worker has been asked to stop, and has not looked at the program. -/
  | asked {last : Snapshot} : Ending total [] last
  /-- The program has finished by one more instruction. -/
  | after {snapshot last : Snapshot} : snapshot.status = .running → snapshot.finished = true →
    snapshot.statistics.total = total + 1 →
    Ending total [(.step, snapshot), (.completed, snapshot)] last
  /-- The program had finished already. -/
  | already {snapshot last : Snapshot} : snapshot.status = .running → snapshot.finished = true →
    snapshot.statistics.total = total → Ending total [(.completed, snapshot)] last
  /-- The machine refuses the next instruction. -/
  | failed {snapshot last : Snapshot} {f : Machine.Fault} : snapshot.status = .running →
    snapshot.finished = false → snapshot.statistics.total = total → snapshot.machine.cycle = .error f →
    snapshot.error = some f → last.error = some f → last.pc = snapshot.pc →
    Ending total [(.error, snapshot)] last

namespace Opening

variable {start : Nat} {first snapshot : Snapshot} {steps : List Snapshot}

theorem nil (running : first.status = .running) (counted : first.statistics.total = start) :
    Opening start first [] where
  started := ⟨running, counted⟩
  running _ mem := absurd mem List.not_mem_nil
  unfinished _ mem := absurd mem List.not_mem_nil
  counted _ _ is := by cases is

theorem concat (h : Opening start first steps) (running : snapshot.status = .running)
    (unfinished : snapshot.finished = false)
    (counted : snapshot.statistics.total = start + (steps.length + 1)) :
    Opening start first (steps ++ [snapshot]) := by
  refine ⟨h.started, ?_, ?_, fun i other is => ?_⟩
  · simpa [or_imp, forall_and] using ⟨h.running, running⟩
  · simpa [or_imp, forall_and] using ⟨h.unfinished, unfinished⟩
  · rcases Nat.lt_or_ge i steps.length with lt | ge
    · rw [List.getElem?_append_left lt] at is
      exact h.counted i other is
    · rw [List.getElem?_append_right ge] at is
      obtain ⟨inside, rfl⟩ := List.getElem?_eq_some_iff.mp is
      have last : i = steps.length := by simp at inside; omega
      simp [counted, last]

end Opening

namespace Call

/-- Leaves a listener subscribed, and whoever is subscribed by the call only watches and does so too. -/
def Attends (who : ObserverId) (c : Call) : Prop := c.Passive ∧ c.Throughout (Spares who)

/-- Needs an idle controller. -/
def NeedsIdle : Call → Prop
  | .load _ | .loadWords _ | .loadBytes _ | .step | .runToCompletion _ | .run _ => True
  | _ => False

end Call

/-! ## The controller -/

namespace Controller

/-- What a turn of a running controller tells: another step, or the end of the run. The turn may also be lost
to a time that is too large or a wait that is too long. -/
theorem turn_tells {c : Controller} (running : c.status = .running) (overlong : Bool) :
    (∃ snapshot, c.turn overlong = ⟨c.executeNext.2, .pending false, [(.step, snapshot)]⟩ ∧
      snapshot.status = .running ∧ snapshot.finished = false ∧
      snapshot.statistics.total = c.statistics.total + 1 ∧
      c.executeNext.2.statistics.total = c.statistics.total + 1) ∨
    (∃ (d : Controller) (news : News), c.turn overlong = d.leave none news ∧
      Ending c.statistics.total news d.settle.stored) ∨
    ∃ (d : Controller) (news : News), c.turn overlong = d.leave (some .overflow) news := by
  cases stop : c.stopRequested with
  | true => exact .inr (.inl ⟨c, [], by rw [turn, if_pos stop], .asked⟩)
  | false =>
    have still : c.executeNext.2.status = .running := c.executeNext_frame.1.trans running
    rcases c.turn_cases overlong stop with ⟨outcome, turn⟩ | ⟨unfinished, timely, turn⟩ | turn
    · obtain ⟨instr, executes⟩ := c.executes_of_stepped outcome
      refine .inl ⟨c.executeNext.2.stored, by rw [turn, news, outcome]; rfl, ?_,
        c.executeNext_finished.2 _ outcome, ?_, executes.total⟩
      · rw [executes.stored]
        exact still
      · rw [executes.stored]
        exact executes.total
    · refine .inr (.inl ⟨_, _, turn, ?_⟩)
      unfold news
      cases outcome : c.executeNext.1 with
      | completed =>
        obtain ⟨finished, same⟩ := executeNext_completed outcome
        rw [same]
        exact .already running finished rfl
      | stepped finished =>
        cases finished with
        | false => exact absurd outcome unfinished
        | true =>
          obtain ⟨instr, executes⟩ := c.executes_of_stepped outcome
          refine .after ?_ (c.executeNext_finished.2 _ outcome) ?_
          · rw [executes.stored]
            exact still
          · rw [executes.stored]
            exact executes.total
      | failed f =>
        obtain ⟨going, failed, same⟩ := executeNext_failed outcome
        rw [same]
        exact .failed running going rfl failed rfl rfl rfl
      | overflow => exact absurd outcome timely
    · exact .inr (.inr ⟨_, _, turn⟩)

end Controller

namespace Session

variable {s t u v : Session} {depth turns : Nat} {who : ObserverId} {news rest : News}

/-! ## A run in progress -/

/-- What a listener has heard of runs. -/
def heardOfRuns (who : ObserverId) (s : Session) : News := (s.heard who).filter (·.1.ofRun)

/-- A listener has heard, since a session, the beginning of a run. -/
def Opens (who : ObserverId) (s u : Session) : Prop :=
  ∃ first steps, Opening s.controller.statistics.total first steps ∧
    s.controller.statistics.total + steps.length = u.controller.statistics.total ∧
    u.heardOfRuns who = s.heardOfRuns who ++ (.started, first) :: steps.map (.step, ·)

/-- A listener has heard, since a session, a whole run, and something else after it. -/
def Closes (who : ObserverId) (s u : Session) (rest : News) : Prop :=
  ∃ first steps ending last, Opening s.controller.statistics.total first steps ∧
    Ending (s.controller.statistics.total + steps.length) ending last ∧ last.status = .idle ∧
    u.heardOfRuns who = s.heardOfRuns who ++
      (.started, first) :: (steps.map (.step, ·) ++ ending ++ (.stopped, last) :: rest)

/-- The run that was started in a session is in progress. -/
structure Underway (who : ObserverId) (s u : Session) : Prop where
  tidy : u.Tidy
  spares : u.Only (Call.Spares who)
  listens : u.Listens who
  kept : u.controller.lost = false
  running : u.controller.status = .running
  waiting : ∃ overlong, u.jobs[s.jobs.length]? = some (.pending overlong)
  opens : Opens who s u

theorem Hears.heardOfRuns (h : s.Hears t news) (spares : s.Only (Call.Spares who))
    (listens : s.Listens who) :
    t.heardOfRuns who = s.heardOfRuns who ++ news.filter (·.1.ofRun) := by
  rw [Session.heardOfRuns, (h.heard who spares listens).2, List.filter_append, Session.heardOfRuns]

/-- How a run stands: it is in progress, has ended, or is lost to a time that is too large or a wait that is
too long. -/
inductive Stands (who : ObserverId) (s u : Session) : Prop
  | underway : Underway who s u → Stands who s u
  | ended : u.Tidy → u.controller.status = .idle → Closes who s u [] → Stands who s u
  | overflow : u.Tidy → u.controller.status = .idle →
    u.jobs[s.jobs.length]? = some (.ended (some .overflow)) → Stands who s u

namespace Underway

theorem works (h : Underway who s u) (work : Works u v) : Stands who s v := by
  obtain ⟨overlong, waiting⟩ := h.waiting
  obtain ⟨turned, tidy⟩ := h.tidy.turned h.kept waiting work
  have listens := (turned.hears.heard who h.spares h.listens).1
  have heard := turned.hears.heardOfRuns h.spares h.listens
  have job : v.jobs[s.jobs.length]? = some (u.controller.turn overlong).job := by
    rw [turned.jobs]
    exact getElem?_setJob_self waiting
  obtain ⟨first, steps, opening, count, same⟩ := h.opens
  rcases Controller.turn_tells h.running overlong with
    ⟨snapshot, turn, running, unfinished, counted, total⟩ | ⟨d, news, turn, ending⟩ | ⟨d, news, turn⟩
  · rw [turn] at turned heard job
    obtain ⟨_, _, _, _, _, _, fields⟩ := u.controller.executeNext_fields
    refine .underway ⟨tidy, turned.hears.spares who h.spares, listens, ?_, ?_, ⟨_, job⟩,
      first, steps ++ [snapshot], opening.concat running unfinished (by omega), ?_, ?_⟩
    · rw [turned.controller]
      simp only [fields]
      exact h.kept
    · rw [turned.controller]
      exact u.controller.executeNext_frame.1.trans h.running
    · rw [turned.controller]
      simp only [total, List.length_append, List.length_singleton]
      omega
    · rw [heard, same]
      simp [Event.ofRun]
  · rw [turn] at turned heard job
    have idle : v.controller.status = .idle := by
      rw [turned.controller]
      rfl
    refine .ended tidy idle ⟨first, steps, news, _, opening, count ▸ ending, rfl, ?_⟩
    rw [heard, same]
    cases ending <;> simp [Controller.leave, Event.ofRun]
  · rw [turn] at turned job
    refine .overflow tidy ?_ job
    rw [turned.controller]
    rfl

theorem worked (h : Underway who s u) (works : Relation.ReflTransGen Works u v) : Stands who s v := by
  -- once the run has ended nothing is left to work on
  induction works with
  | refl => exact .underway h
  | tail _ work ih =>
    cases ih with
    | underway h => exact h.works work
    | ended tidy idle closes =>
      rw [← tidy.eq_of_works idle (.single work)]
      exact .ended tidy idle closes
    | overflow tidy idle job =>
      rw [← tidy.eq_of_works idle (.single work)]
      exact .overflow tidy idle job

theorem frame (h : Underway who s u) (tidy : v.Tidy) (spares : v.Only (Call.Spares who))
    (listens : v.Listens who) (jobs : v.jobs = u.jobs) (kept : v.controller.lost = u.controller.lost)
    (status : v.controller.status = u.controller.status)
    (statistics : v.controller.statistics = u.controller.statistics)
    (heard : v.heardOfRuns who = u.heardOfRuns who) : Underway who s v := by
  obtain ⟨first, steps, opening, count, same⟩ := h.opens
  exact ⟨tidy, spares, listens, kept ▸ h.kept, status ▸ h.running, jobs ▸ h.waiting, first, steps, opening,
    by rw [statistics, count], by rw [heard, same]⟩

end Underway

/-! ## Calls during a run -/

theorem eq_of_running {c : Call} {r : Except Failure Reply} (needs : c.NeedsIdle)
    (running : s.controller.status = .running) (h : perform depth turns c s = some (r, t)) : t = s := by
  cases depth with
  | zero => cases h
  | succ depth =>
    have busy (action : String) : s.requireIdle action = .error (.busy action) := by
      simp [requireIdle, Controller.isRunning, running]
    cases c with
    | load | loadWords | loadBytes | step | runToCompletion | run =>
      simp only [perform, respond, load, loadWords, loadBytes, step, runToCompletion, run, busy] at h
      cases h
      rfl
    | _ => cases needs

/-- Calls that look at the simulator or write to its machine change the machine at most, and go unheard. -/
theorem left_alone {c : Call} {r : Except Failure Reply} (aside : c.Watches ∨ c.Writes)
    (h : perform depth turns c s = some (r, t)) :
    t.jobs = s.jobs ∧ t.journal = s.journal ∧
      (∃ machine shownPc, t.controller = { s.controller with machine, shownPc }) ∧
      ∀ who, c.Spares who → s.Listens who → t.Listens who := by
  cases depth with
  | zero => cases h
  | succ depth =>
    rcases aside with watches | writes
    · obtain ⟨silent, listens⟩ := unheard_of_watches watches h
      obtain ⟨_, _, answered, unmoved⟩ := perform_of_watches depth turns watches s
      cases h.symm.trans answered
      exact ⟨unmoved.jobs, silent, ⟨_, _, unmoved.controller⟩, listens⟩
    · cases c with
      | setRegister index value =>
        replace h : s.setRegister index value = (r, t) := Option.some.inj h
        unfold setRegister at h
        dsimp only at h
        split at h <;> cases h <;>
          exact ⟨rfl, rfl, ⟨_, _, rfl⟩, fun _ _ listens => listens.congr rfl rfl⟩
      | setPc value =>
        cases h
        exact ⟨rfl, rfl, ⟨_, _, rfl⟩, fun _ _ listens => listens.congr rfl rfl⟩
      | memory access =>
        replace h : s.accessMemory access = (r, t) := Option.some.inj h
        unfold accessMemory at h
        dsimp only at h
        split at h <;> cases h <;>
          exact ⟨rfl, rfl, ⟨_, _, rfl⟩, fun _ _ listens => listens.congr rfl rfl⟩
      | _ => cases writes

namespace Underway

/-- A call other than a pause leaves the run alone, or gives turns to it. -/
theorem call {c : Call} {r : Except Failure Reply} (h : Underway who s u) (attends : c.Attends who)
    (stays : ¬c.Pauses) (performed : perform depth turns c u = some (r, v)) : Stands who s v := by
  have moved : Moves (fun c _ => c.Passive) u v := .call attends.1 performed
  have tidy := moved.tidy h.tidy
  have spares : v.Only (Call.Spares who) :=
    (does_of_perform h.spares (.inl attends.2) performed).only h.spares
  have refused (needs : c.NeedsIdle) : Stands who s v := by
    rw [eq_of_running needs h.running performed]
    exact .underway h
  have aside (aside : c.Watches ∨ c.Writes) : Stands who s v := by
    obtain ⟨jobs, silent, ⟨machine, shownPc, controller⟩, listens⟩ := left_alone aside performed
    refine .underway (h.frame tidy spares (listens who attends.2.self h.listens) jobs ?_ ?_ ?_ ?_)
    · rw [controller]
    · rw [controller]
    · rw [controller]
    · rw [heardOfRuns, heard_congr silent, heardOfRuns]
  cases c with
  | load | loadWords | loadBytes | step | runToCompletion | run => exact refused trivial
  | register | wordAt | timeText | mute | subscribe | unsubscribe => exact aside (.inl trivial)
  | setRegister | setPc | memory => exact aside (.inr trivial)
  | wait => exact h.worked (works_of_wait (j := 0) performed).1
  | pause | reset | shutdown => exact absurd trivial stays
  | setClock settings =>
    rcases setClock_eq_some performed with ⟨-, rfl⟩ | ⟨-, depth', clock, told⟩
    · exact .underway h
    · obtain ⟨unmoved, hears⟩ := hears_of_change h.tidy.only told
      refine .underway (h.frame tidy spares (hears.heard who h.spares h.listens).1 unmoved.jobs ?_ ?_ ?_ ?_)
      · rw [unmoved.controller]
        rfl
      · rw [unmoved.controller]
        rfl
      · rw [unmoved.controller]
        rfl
      · rw [hears.heardOfRuns h.spares h.listens]
        simp [Event.ofRun]

end Underway

/-! ## Pauses -/

/-- A job that has been asked to stop has one turn more. -/
theorem demand_of_stopped {overlong : Bool} {j n : Nat} {answer : JobEnd} (kept : s.controller.lost = false)
    (only : s.Only Call.Watches) (waiting : s.jobs[j]? = some (.pending overlong))
    (stop : s.controller.stopRequested = true)
    (h : demand (perform depth turns) j n s = some (answer, t)) :
    answer = .ended none ∧ s.Turned t j (s.controller.leave none []) := by
  unfold demand at h
  rw [waiting] at h
  cases n with
  | zero => cases h
  | succ n =>
    obtain ⟨u, turned, h⟩ := Option.bind_eq_some_iff.mp h
    have turned := turn_of_watches kept only turned
    rw [Controller.turn, if_pos stop] at turned
    have job : u.jobs[j]? = some (.ended none) := by
      rw [turned.jobs]
      exact getElem?_setJob_self waiting
    unfold demand at h
    rw [job] at h
    cases h
    exact ⟨rfl, turned⟩

namespace Underway

theorem pause {n : Nat} {r : Except Failure Reply} (h : Underway who s u)
    (paused : pause (perform depth turns) n u = some (r, v)) :
    (∃ reply, r = .ok reply) ∧ v.controller.status = .idle ∧ ∃ last snapshot : Snapshot,
      last.status = .idle ∧ snapshot.status = .idle ∧
        u.Hears v [(.stopped, last), (.paused, snapshot)] := by
  obtain ⟨overlong, waiting⟩ := h.waiting
  have current := h.tidy.orderly.current _ (unfinished_of_pending waiting)
  have asked := Hears.withController u u.controller.requestStop
  unfold Session.pause at paused
  rw [if_neg (by simp [Controller.isRunning, h.running])] at paused
  dsimp only at paused
  rw [show (u.withController u.controller.requestStop).current = some _ from current] at paused
  obtain ⟨⟨answer, w⟩, demanded, paused⟩ := Option.bind_eq_some_iff.mp paused
  obtain ⟨rfl, turned⟩ := demand_of_stopped (s := u.withController u.controller.requestStop) h.kept
    h.tidy.only waiting rfl demanded
  have kept : w.controller.lost = false := by
    rw [turned.controller]
    exact h.kept
  dsimp only at paused
  rw [rest, if_neg (by simp [kept])] at paused
  obtain ⟨x, told, same⟩ := Option.bind_eq_some_iff.mp paused
  cases same
  have rested : w.Hears (Session.withController { w with current := none } w.controller.settle) [] :=
    .of_eq rfl rfl fun _ => rfl
  have hears := asked.trans (turned.hears.trans rested)
  have only := hears.only h.tidy.only
  refine ⟨⟨_, rfl⟩, ?_, _, _, rfl, rfl, hears.trans (hears_of_notify only told)⟩
  rw [(unmoved_of_notify only told).1.controller]
  rfl

theorem pauseIfRunning {n : Nat} {r : Except Failure Unit} (h : Underway who s u)
    (paused : pauseIfRunning (perform depth turns) n u = some (r, v)) :
    r = .ok () ∧ v.controller.status = .idle ∧ ∃ last snapshot : Snapshot,
      last.status = .idle ∧ snapshot.status = .idle ∧
        u.Hears v [(.stopped, last), (.paused, snapshot)] := by
  rw [Session.pauseIfRunning, if_pos (by simp [Controller.isRunning, h.running])] at paused
  obtain ⟨⟨r', w⟩, paused, same⟩ := Option.map_eq_some_iff.mp paused
  cases same
  obtain ⟨⟨reply, rfl⟩, rest⟩ := h.pause paused
  exact ⟨rfl, rest⟩

/-- The run has stopped where the listener hears of nothing else that belongs to it. -/
theorem closes {last snapshot : Snapshot} (h : Underway who s u) (stopped : last.status = .idle)
    (hears : u.Hears v news) (ofRun : news.filter (·.1.ofRun) = [(.stopped, last), (.paused, snapshot)]) :
    Closes who s v [(.paused, snapshot)] := by
  obtain ⟨first, steps, opening, -, same⟩ := h.opens
  refine ⟨first, steps, [], last, opening, .asked, stopped, ?_⟩
  rw [hears.heardOfRuns h.spares h.listens, ofRun, same]
  simp

/-- A call that pauses the run leaves it stopped, and the listener has heard of both. -/
theorem pauses {c : Call} {r : Except Failure Reply} (h : Underway who s u) (pauses : c.Pauses)
    (performed : perform depth turns c u = some (r, v)) :
    v.controller.status = .idle ∧ ∃ snapshot : Snapshot, snapshot.status = .idle ∧
      Closes who s v [(.paused, snapshot)] := by
  cases depth with
  | zero => cases performed
  | succ depth =>
    cases c with
    | pause =>
      obtain ⟨-, idle, last, snapshot, stopped, shown, hears⟩ := h.pause performed
      exact ⟨idle, snapshot, shown, h.closes stopped hears rfl⟩
    | shutdown =>
      obtain ⟨⟨r', w⟩, waited, same⟩ := Option.map_eq_some_iff.mp performed
      cases same
      obtain ⟨-, idle, last, snapshot, stopped, shown, hears⟩ := h.pauseIfRunning waited
      exact ⟨idle, snapshot, shown, h.closes stopped hears rfl⟩
    | reset =>
      obtain ⟨⟨r', w⟩, waited, performed⟩ := Option.bind_eq_some_iff.mp performed
      obtain ⟨rfl, idle, last, snapshot, stopped, shown, hears⟩ := h.pauseIfRunning waited
      have free : w.requireIdle "reset" = .ok () := by
        simp [requireIdle, Controller.isRunning, idle]
      simp only [free, install] at performed
      -- the program is put back, or it cannot be; neither is an event of the run
      split at performed
      · rename_i e after placed
        cases performed
        exact ⟨(Controller.place_status placed).trans idle, snapshot, shown,
          h.closes stopped (hears.trans (.withController w after)) rfl⟩
      · rename_i after placed
        obtain ⟨x, told, same⟩ := Option.map_eq_some_iff.mp performed
        cases same
        have only := (Hears.placed w after).only (hears.only h.tidy.only)
        have heard := (Hears.placed w after).trans (hears_of_notify only told)
        refine ⟨?_, snapshot, shown, h.closes stopped (hears.trans heard) rfl⟩
        rw [(unmoved_of_notify only told).1.controller]
        exact (Controller.place_status placed).trans idle
    | _ => cases pauses

end Underway

/-! ## The protocol -/

theorem Underway.moves (h : Underway who s u)
    (move : Moves (fun c _ => c.Attends who ∧ ¬c.Pauses) u v) : Stands who s v := by
  cases move with
  | call may performed => exact h.call may.1 may.2 performed
  | turn waiting turned => exact h.works ⟨_, _, _, _, waiting, turned⟩
  | expire =>
    have moved : Moves (fun c _ => c.Passive) u (u.withController u.controller.requestStop) :=
      .expire (by simp [Controller.isRunning, h.running])
    exact .underway (h.frame (moved.tidy h.tidy) h.spares (h.listens.congr rfl rfl) rfl rfl rfl rfl rfl)

end Session

end PocketMips.Simulator
