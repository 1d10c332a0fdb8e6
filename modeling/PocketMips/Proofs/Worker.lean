import PocketMips.Proofs.Exclusion

/-!
# Turns between the calls

In a session the worker has its turns between the calls of the caller, or when one of them asks for a job. As long
as no observer starts a run, and none does anything at the start of one, the job that has its turn keeps the run
to itself.
-/
namespace PocketMips.Simulator

namespace Call

/-- Starts no run, and subscribes only observers without calls of their own to the starts of runs. -/
def Quiet : Call → Prop
  | .run _ => False
  | .subscribe _ event _ acts _ => event = some .started → acts = []
  | _ => True

end Call

namespace Session

variable {P : Call → Prop} {react : Reaction} {s t : Session} {j k : Nat}

/-! ## The jobs -/

/-- A job that has been given to the worker and has not ended. -/
def Unfinished (s : Session) (j : Nat) : Prop :=
  ∃ job, s.jobs[j]? = some job ∧ ∀ failure, job ≠ .ended failure

theorem unfinished_iff : s.Unfinished j ↔ (s.jobs.map Job.hasEnded)[j]? = some false := by
  rw [Unfinished, List.getElem?_map, Option.map_eq_some_iff]
  refine exists_congr fun job => and_congr_right fun _ => ?_
  cases job with
  | ended failure => exact ⟨fun going => absurd rfl (going failure), nofun⟩
  | pending | working => exact ⟨fun _ => rfl, fun _ => nofun⟩

theorem hasEnded_of_not_unfinished {job : Job} (is : s.jobs[j]? = some job) (ended : ¬s.Unfinished j) :
    job.hasEnded := by
  by_contra going
  refine ended (unfinished_iff.mpr ?_)
  rw [List.getElem?_map, is]
  exact congrArg some (eq_false_of_ne_true going)

/-- The current job has its turn. -/
def Engaged (s : Session) (j : Nat) : Prop := s.current = some j ∧ s.jobs[j]? = some .working

/-- No job but the current one is unfinished, and a job waits for its turn only during a run. -/
structure Orderly (s : Session) : Prop where
  current : ∀ j, s.Unfinished j → s.current = some j
  running : ∀ (j : Nat) overlong, s.jobs[j]? = some (.pending overlong) →
    s.controller.status = .running

theorem getElem?_set_eq_some {jobs : List Job} {job job' : Job} (is : (jobs.set j job)[k]? = some job') :
    (k = j ∧ job' = job) ∨ (k ≠ j ∧ jobs[k]? = some job') := by
  by_cases same : k = j
  · subst same
    rw [List.getElem?_set_self'] at is
    obtain ⟨_, -, same⟩ := Option.map_eq_some_iff.mp is
    exact .inl ⟨rfl, same.symm⟩
  · rw [List.getElem?_set_ne (Ne.symm same)] at is
    exact .inr ⟨same, is⟩

/-- Only the job itself can be unfinished that was not before. -/
theorem Unfinished.of_setJob {job : Job} (h : (s.setJob j job).Unfinished k) :
    k = j ∨ s.Unfinished k := by
  obtain ⟨job', is, going⟩ := h
  rcases getElem?_set_eq_some is with ⟨same, -⟩ | ⟨-, is⟩
  · exact .inl same
  · exact .inr ⟨job', is, going⟩

theorem Unfinished.ne_of_setJob {failure : Option Failure}
    (h : (s.setJob j (.ended failure)).Unfinished k) : k ≠ j := by
  rintro rfl
  obtain ⟨job', is, going⟩ := h
  rcases getElem?_set_eq_some is with ⟨-, same⟩ | ⟨other, -⟩
  · exact going failure same
  · exact other rfl

theorem getElem?_setJob_self {job job' : Job} (is : s.jobs[j]? = some job) :
    (s.setJob j job').jobs[j]? = some job' :=
  List.getElem?_set_self (List.getElem?_eq_some_iff.mp is).1

theorem Engaged.unfinished (h : s.Engaged j) : s.Unfinished j :=
  ⟨.working, h.2, nofun⟩

theorem unfinished_of_pending {overlong : Bool} (waiting : s.jobs[j]? = some (.pending overlong)) :
    s.Unfinished j :=
  ⟨.pending overlong, waiting, nofun⟩

namespace Orderly

theorem congr (h : s.Orderly) (jobs : t.jobs = s.jobs) (current : t.current = s.current)
    (status : t.controller.status = s.controller.status) : t.Orderly := by
  refine ⟨fun j going => ?_, fun j overlong waiting => ?_⟩
  · rw [Unfinished, jobs] at going
    rw [current]
    exact h.current j going
  · rw [jobs] at waiting
    rw [status]
    exact h.running j overlong waiting

theorem not_engaged {overlong : Bool} (h : s.Orderly)
    (waiting : s.jobs[j]? = some (.pending overlong)) : ¬s.Engaged k := by
  intro engaged
  have current := h.current j (unfinished_of_pending waiting)
  rw [engaged.1] at current
  cases current
  rw [engaged.2] at waiting
  cases waiting

/-- A job that has been waited for is not unfinished. -/
theorem not_unfinished (h : s.Orderly) (awaited : s.Awaited) (j : Nat) : ¬s.Unfinished j := by
  intro going
  obtain ⟨failure, ended⟩ := awaited j (h.current j going)
  obtain ⟨job, is, going⟩ := going
  rw [is] at ended
  exact going failure ended

/-- A job that waits gets its turn. -/
theorem setJob_working {overlong : Bool} (h : s.Orderly)
    (waiting : s.jobs[j]? = some (.pending overlong)) :
    (s.setJob j .working).Orderly ∧ (s.setJob j .working).Engaged j := by
  have current := h.current j (unfinished_of_pending waiting)
  refine ⟨⟨fun k going => ?_, fun _ _ _ => h.running j overlong waiting⟩, current,
    getElem?_setJob_self waiting⟩
  rcases going.of_setJob with rfl | going
  · exact current
  · exact h.current k going

/-- While the current job has its turn, none waits for one. -/
theorem rested (h : s.Orderly) (engaged : s.Engaged j) : s.rested.Orderly ∧ s.rested.Engaged j :=
  ⟨⟨h.current, fun _ _ waiting => absurd engaged (h.not_engaged waiting)⟩, engaged⟩

/-- The current job ends. -/
theorem setJob_ended {failure : Option Failure} (h : s.Orderly) (engaged : s.Engaged j) :
    (s.setJob j (.ended failure)).Orderly := by
  have none (k : Nat) : ¬(s.setJob j (.ended failure)).Unfinished k := by
    intro going
    rcases going.of_setJob with same | unfinished
    · exact going.ne_of_setJob same
    · have current := h.current k unfinished
      rw [engaged.1] at current
      cases current
      exact going.ne_of_setJob rfl
  exact ⟨fun k going => absurd going (none k),
    fun k _ waiting => absurd (unfinished_of_pending waiting) (none k)⟩

/-- The current job waits for another turn. -/
theorem setJob_pending {overlong : Bool} (h : s.Orderly) (engaged : s.Engaged j)
    (running : s.controller.status = .running) : (s.setJob j (.pending overlong)).Orderly := by
  refine ⟨fun k going => ?_, fun _ _ _ => running⟩
  rcases going.of_setJob with rfl | unfinished
  · exact engaged.1
  · exact h.current k unfinished

end Orderly

/-- Without runs, a session stays orderly, the job that has its turn keeps it and with it the run, and the
worker executes during a run only. -/
theorem Does.orderly (never : ∀ delay, ¬P (.run delay)) (h : Does P s t) (orderly : s.Orderly) :
    t.Orderly ∧ (∀ j, s.Engaged j → t.Engaged j ∧ t.controller.status = s.controller.status) ∧
      s.Adds (fun driver before => driver = .worker → before.status = .running) t := by
  have executed {s : Session} (orderly : s.Orderly) (driver : Driver) : (s.executed driver).Orderly :=
    orderly.congr rfl rfl (s.status_executed driver)
  induction h with
  | trans _ _ first second =>
    obtain ⟨orderly, keeps, adds⟩ := first orderly
    obtain ⟨orderly, keeps', adds'⟩ := second orderly
    refine ⟨orderly, fun j engaged => ?_, adds.trans adds'⟩
    obtain ⟨engaged, same⟩ := keeps j engaged
    obtain ⟨engaged, same'⟩ := keeps' j engaged
    exact ⟨engaged, same'.trans same⟩
  | told | replied =>
    exact ⟨orderly.congr rfl rfl rfl, fun _ engaged => ⟨engaged, rfl⟩,
      .of_cons rfl fun _ _ same => by cases same⟩
  | single _ =>
    exact ⟨executed orderly _, fun _ engaged => ⟨engaged, status_executed _ _⟩,
      .executed fun _ is => by cases is⟩
  | goOn waiting _ _ ih =>
    have running := orderly.running _ _ waiting
    obtain ⟨orderly', engaged⟩ := orderly.setJob_working waiting
    obtain ⟨after, keeps, adds⟩ := ih (executed orderly' _)
    obtain ⟨engaged, same⟩ := keeps _ engaged
    rw [status_executed] at same
    exact ⟨after.setJob_pending engaged (same.trans running),
      fun _ engaged => absurd engaged (orderly.not_engaged waiting),
      .trans (.executed fun _ _ => running) adds⟩
  | leave waiting _ _ _ first second =>
    have running := orderly.running _ _ waiting
    obtain ⟨orderly', engaged⟩ := orderly.setJob_working waiting
    obtain ⟨after, keeps, adds⟩ := first (executed orderly' _)
    obtain ⟨engaged, -⟩ := keeps _ engaged
    obtain ⟨rested, engaged⟩ := after.rested engaged
    obtain ⟨last, keeps, adds'⟩ := second rested
    obtain ⟨engaged, -⟩ := keeps _ engaged
    have worked := Adds.trans (.executed fun _ _ => running) adds
    exact ⟨last.setJob_ended engaged, fun _ engaged => absurd engaged (orderly.not_engaged waiting),
      worked.trans adds'⟩
  | drop waiting _ ih =>
    obtain ⟨orderly', engaged⟩ := orderly.setJob_working waiting
    obtain ⟨rested, engaged⟩ := orderly'.rested engaged
    obtain ⟨last, keeps, adds⟩ := ih rested
    obtain ⟨engaged, -⟩ := keeps _ engaged
    exact ⟨last.setJob_ended engaged, fun _ engaged => absurd engaged (orderly.not_engaged waiting),
      adds⟩
  | rest awaited =>
    have none := orderly.not_unfinished (awaited.resolve_right fun ⟨_, run⟩ => never _ run)
    exact ⟨⟨fun j going => absurd going (none j), fun j _ waiting =>
      absurd (unfinished_of_pending waiting) (none j)⟩,
      fun j engaged => absurd engaged.unfinished (none j), .of_eq rfl⟩
  | launch _ made => exact absurd made (never _)
  | stick made => exact absurd made (never _)
  | place _ _ _ placed =>
    have status := Controller.place_status placed
    exact ⟨orderly.congr rfl rfl status, fun _ engaged => ⟨engaged, status⟩,
      .of_cons rfl fun _ _ same => by cases same⟩
  | misplace _ placed =>
    have status := Controller.place_status placed
    exact ⟨orderly.congr rfl rfl status, fun _ engaged => ⟨engaged, status⟩, .of_eq rfl⟩
  | _ =>
    exact ⟨orderly.congr rfl rfl rfl, fun _ engaged => ⟨engaged, rfl⟩, .of_eq rfl⟩

theorem getElem?_concat_eq_some {jobs : List Job} {job job' : Job}
    (is : (jobs ++ [job])[k]? = some job') :
    (k < jobs.length ∧ jobs[k]? = some job') ∨ (k = jobs.length ∧ job' = job) := by
  rw [List.getElem?_append] at is
  split at is
  · exact .inl ⟨‹_›, is⟩
  · rename_i past
    obtain ⟨inside, same⟩ := List.getElem?_eq_some_iff.mp is
    rw [List.length_singleton] at inside
    exact .inr ⟨by omega, by rw [← same, List.getElem_singleton]⟩

theorem getElem?_queued {overlong : Bool} {job : Job}
    (is : (s.queued overlong).jobs[k]? = some job) :
    s.jobs[k]? = some job ∨ (k = s.jobs.length ∧ job = .pending overlong) :=
  (getElem?_concat_eq_some is).imp_left And.right

namespace Orderly

/-- An idle controller without a turn in progress has no unfinished job. -/
theorem spent (h : s.Orderly) (resting : ∀ j : Nat, s.jobs[j]? ≠ some .working)
    (idle : s.controller.status = .idle) (j : Nat) : ¬s.Unfinished j := by
  rintro ⟨job, is, going⟩
  cases job with
  | pending overlong =>
    have running := h.running j overlong is
    rw [idle] at running
    cases running
  | working => exact resting j is
  | ended failure => exact going failure rfl

/-- A job is the only one where none was unfinished. -/
theorem queued {overlong : Bool} (spent : ∀ j, ¬s.Unfinished j)
    (running : s.controller.status = .running) : (s.queued overlong).Orderly := by
  refine ⟨fun k going => ?_, fun _ _ _ => running⟩
  obtain ⟨job, is, going⟩ := going
  rcases getElem?_queued is with is | ⟨last, -⟩
  · exact absurd ⟨job, is, going⟩ (spent k)
  · rw [last]
    rfl

end Orderly

/-- A turn that is in progress after some changes was so before them. -/
theorem Does.working (h : Does P s t) (working : t.jobs[k]? = some .working) :
    s.jobs[k]? = some .working := by
  have other {s : Session} {j : Nat} {job : Job} (other : job ≠ .working)
      (is : (s.setJob j job).jobs[k]? = some .working) : k ≠ j ∧ s.jobs[k]? = some .working :=
    (getElem?_set_eq_some is).resolve_left fun ⟨_, same⟩ => other same.symm
  have before {s : Session} {j : Nat} (ne : k ≠ j)
      (is : (s.setJob j .working).jobs[k]? = some .working) : s.jobs[k]? = some .working :=
    ((getElem?_set_eq_some is).resolve_left fun ⟨same, _⟩ => ne same).2
  induction h with
  | trans _ _ first second => exact first (second working)
  | goOn _ _ _ ih =>
    obtain ⟨ne, working⟩ := other (by rintro ⟨⟩) working
    exact before ne (ih working)
  | leave _ _ _ _ first second =>
    obtain ⟨ne, working⟩ := other (by rintro ⟨⟩) working
    exact before ne (first (second working))
  | drop _ _ ih =>
    obtain ⟨ne, working⟩ := other (by rintro ⟨⟩) working
    exact before ne (ih working)
  | launch _ _ _ _ ih =>
    rcases getElem?_queued working with working | ⟨-, same⟩
    · exact ih working
    · cases same
  | _ => exact working

/-- Without unfinished jobs and without runs the worker does not execute anything. -/
theorem Does.spent (never : ∀ delay, ¬P (.run delay)) (h : Does P s t)
    (spent : ∀ j, ¬s.Unfinished j) :
    (∀ j, ¬t.Unfinished j) ∧ s.Adds (fun driver _ => driver = .caller) t := by
  induction h with
  | trans _ _ first second =>
    obtain ⟨spent, adds⟩ := first spent
    obtain ⟨spent, adds'⟩ := second spent
    exact ⟨spent, adds.trans adds'⟩
  | told | replied | place => exact ⟨spent, .of_cons rfl fun _ _ same => by cases same⟩
  | single _ => exact ⟨spent, .executed fun _ => rfl⟩
  | goOn waiting | leave waiting | drop waiting =>
    exact absurd (unfinished_of_pending waiting) (spent _)
  | launch _ made => exact absurd made (never _)
  | _ => exact ⟨spent, .of_eq rfl⟩

/-! ## Silent observers -/

/-- The observers of an event make no calls. -/
def Silent (event : Event) (s : Session) : Prop :=
  ∀ o ∈ s.observers, o.2.event = some event → o.2.acts = []

theorem Does.silent {event : Event}
    (none : ∀ name turn acts fails, P (.subscribe name (some event) turn acts fails) → acts = [])
    (h : Does P s t) (silent : s.Silent event) : t.Silent event :=
  h.observers (Q := fun o => o.event = some event → o.acts = []) (fun _ _ => id)
    (fun name _ turn acts fails made is => none name turn acts fails (is ▸ made.self)) silent

theorem tell_of_silent {event : Event} {snapshot : Snapshot} {who : ObserverId} {failed : Bool}
    (silent : s.Silent event) (h : tell react event snapshot s who = some (failed, t)) :
    t = s.log (.told who event snapshot s.controller) ∨
      t = (s.log (.told who event snapshot s.controller)).countSeen who := by
  unfold tell at h
  dsimp only at h
  split at h
  · cases h
    exact .inl rfl
  · rename_i o found
    split at h
    · rename_i listens
      have acts : o.acts = [] := by
        obtain ⟨p, inside, rfl⟩ := Option.map_eq_some_iff.mp found
        exact silent p (List.mem_of_find?_eq_some inside) listens
      rw [acts] at h
      split at h <;> cases h <;> exact .inr rfl
    · cases h
      exact .inl rfl

/-- Observers that make no calls change nothing but the journal and their counts. -/
theorem notify_of_silent {event : Event} {snapshot : Snapshot} (silent : s.Silent event)
    (h : notify react event snapshot s = some t) :
    t.controller = s.controller ∧ t.jobs = s.jobs ∧ t.current = s.current ∧
      s.Adds (fun _ _ => False) t := by
  unfold notify at h
  generalize s.listeners = listeners at h
  induction listeners generalizing s with
  | nil =>
    cases h
    exact ⟨rfl, rfl, rfl, .of_eq rfl⟩
  | cons who listeners ih =>
    rw [List.foldlM_cons] at h
    obtain ⟨_, mapped, rest⟩ := Option.bind_eq_some_iff.mp h
    obtain ⟨⟨failed, u⟩, told, rfl⟩ := Option.map_eq_some_iff.mp mapped
    have first := tell_of_silent silent told
    have made : Does (fun _ => False) s u := by
      rcases first with rfl | rfl
      · exact .told who event snapshot
      · exact .trans (.told who event snapshot) (.seen who)
    obtain ⟨controller, jobs, current, adds⟩ := ih (made.silent (by rintro _ _ _ _ ⟨⟩) silent) rest
    have logged : s.Adds (fun _ _ => False) u := by
      rcases first with rfl | rfl <;> exact .of_cons rfl fun _ _ same => by cases same
    rcases first with rfl | rfl <;> exact ⟨controller, jobs, current, logged.trans adds⟩

/-! ## The worker -/

/-- Between two moves no turn is in progress, and the observers of a start of a run only watch. -/
structure Settled (s : Session) : Prop where
  orderly : s.Orderly
  resting : ∀ j : Nat, s.jobs[j]? ≠ some .working
  only : s.Only Call.Quiet
  silent : s.Silent .started

namespace Settled

theorem does (h : s.Settled) (made : Does Call.Quiet s t) :
    t.Settled ∧ s.Adds (fun driver before => driver = .worker → before.status = .running) t := by
  obtain ⟨orderly, -, adds⟩ := made.orderly (fun _ => id) h.orderly
  exact ⟨⟨orderly, fun j working => h.resting j (made.working working), made.only h.only,
    made.silent (fun _ _ _ _ quiet => quiet rfl) h.silent⟩, adds⟩

theorem spent (h : s.Settled) (idle : s.controller.status = .idle) (j : Nat) : ¬s.Unfinished j :=
  h.orderly.spent h.resting idle j

/-- A run is started, and its job is the only one. -/
theorem queued {snapshot : Snapshot} {overlong : Bool} {u : Session} (h : s.Settled)
    (idle : s.controller.status = .idle) (reacts : Reacts Call.Quiet react)
    (told : notify react .started snapshot (s.withController s.controller.begin) = some u) :
    (u.queued overlong).Settled ∧ s.Adds (fun _ _ => False) (u.queued overlong) := by
  have only : (s.withController s.controller.begin).Only Call.Quiet := h.only
  have silent : (s.withController s.controller.begin).Silent .started := h.silent
  have made : Does Call.Quiet (s.withController s.controller.begin) u :=
    does_of_notify reacts only told
  have silent' : u.Silent .started := made.silent (fun _ _ _ _ quiet => quiet rfl) silent
  obtain ⟨controller, jobs, -, adds⟩ := notify_of_silent silent told
  have spent (k : Nat) : ¬u.Unfinished k := by
    rw [Unfinished, jobs]
    exact h.spent idle k
  have running : u.controller.status = .running := by
    rw [controller]
    rfl
  refine ⟨⟨.queued spent running, fun k working => ?_, made.only only, silent'⟩, adds⟩
  rcases getElem?_queued working with working | ⟨-, same⟩
  · rw [jobs] at working
    exact h.resting k working
  · cases same

end Settled

theorem Moves.settled (h : Moves (fun c _ => c.Throughout Call.Quiet ∨ c.IsRun) s t)
    (settled : s.Settled) :
    t.Settled ∧ s.Adds (fun driver before => driver = .worker → before.status = .running) t := by
  rcases h.does_or_run settled.only with made | ⟨-, rfl⟩ | ⟨react, overlong, u, reacts, idle, told, rfl⟩
  · exact settled.does made
  · refine ⟨⟨⟨settled.orderly.current, fun _ _ _ => rfl⟩, settled.resting, settled.only,
      settled.silent⟩, .of_eq rfl⟩
  · obtain ⟨settled, adds⟩ := settled.queued idle reacts told
    exact ⟨settled, adds.mono fun _ _ => False.elim⟩

theorem settled_create (c : Controller) (recorded : Bool) : (create c recorded).Settled := by
  refine ⟨⟨fun j going => ?_, fun j overlong waiting => ?_⟩, fun j working => ?_, nofun, nofun⟩
  · obtain ⟨job, is, -⟩ := going
    cases is
  · cases waiting
  · cases working

/-- While the worker has its turns between the calls of the caller or when it is asked for, there is at most one
unfinished job, if no observer starts a run and the observers of a start only watch. The worker's cycles find
the controller running, and from an idle controller on the worker does not execute anything until a run is
started. -/
theorem History.running_of_worker {c : Controller} {recorded : Bool}
    (history : History (fun c _ => c.Throughout Call.Quiet ∨ c.IsRun) (create c recorded) s) :
    (∀ i j, s.Unfinished i → s.Unfinished j → i = j) ∧
      (∀ before ∈ s.found .worker, before.status = .running) ∧
      (s.controller.status = .idle → ∀ t, History (fun c _ => c.Throughout Call.Quiet) s t →
        s.Adds (fun driver _ => driver = .caller) t) := by
  have lived : s.Settled ∧ (create c recorded).Adds
      (fun driver before => driver = .worker → before.status = .running) s := by
    induction history with
    | refl => exact ⟨settled_create c recorded, .of_eq rfl⟩
    | tail _ move ih =>
      obtain ⟨settled, adds⟩ := ih
      obtain ⟨settled, adds'⟩ := move.settled settled
      exact ⟨settled, adds.trans adds'⟩
  obtain ⟨settled, new, same, running⟩ := lived
  refine ⟨fun i j going going' => ?_, fun before mem => ?_, fun idle t further => ?_⟩
  · have current := settled.orderly.current i going
    rw [settled.orderly.current j going'] at current
    cases current
    rfl
  · rw [mem_found, same, create, List.append_nil] at mem
    exact running _ _ mem rfl
  · exact ((further.does (fun _ _ => .inl) settled.only).spent (fun _ => id) (settled.spent idle)).2

end Session

end PocketMips.Simulator
