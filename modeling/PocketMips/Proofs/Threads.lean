import PocketMips.Proofs.History
import PocketMips.Simulator.Threads

/-!
# What the threads do

An operation of a thread is part of the start of a run, of a pause, of the turn of a job, or of none of these,
and only those of the first three touch the jobs, the current job and the status. Whoever makes the calls, and
in whatever order the threads move, instructions are executed by two operations only.
-/
namespace PocketMips.Simulator

/-! ## Operations -/

namespace Op

/-- What an operation is part of. -/
inductive Role
  | start
  | pause
  | job (j : Nat)
  | other
  deriving DecidableEq

def role : Op → Role
  | enter (.run _) | pace _ | begin _ | submit _ | keep _ => .start
  | pauseIfRunning _ | pause _ | requestStop _ | seek _ | await _ _ | release _ | rest _ => .pause
  | turn j _ | work j _ | linger j _ | retire j _ | fulfil j _ => .job j
  | done | enter _ | place _ _ | placeAgain | execute _ | complete _ | wait | join _ | close | drain
  | setClock _ | write _ => .other

/-- Executes instructions for a caller. -/
def Executes : Op → Prop
  | execute _ | complete _ => True
  | _ => False

end Op

@[simp] theorem After.role_op (after : After) : after.op.role = .other := by
  cases after <;> rfl

variable {thread : Thread} {s s' : Shared} {frame : Option Frame} {f : Frame} {op : Op} {c : Call}

theorem Call.role_op (c : Call) :
    (c.op.role = .start ∧ c.IsRun) ∨ (c.op.role = .pause ∧ c.Pauses) ∨ c.op.role = .other := by
  cases c with
  | run => exact .inl ⟨rfl, trivial⟩
  | pause | reset | shutdown => exact .inr (.inl ⟨rfl, trivial⟩)
  | _ => exact .inr (.inr rfl)

namespace Session

variable {s t : Session}

/-- What the threads go by is the same: the jobs, which of them is the current one, and the status. -/
structure Keeps (s t : Session) : Prop where
  jobs : t.jobs = s.jobs
  current : t.current = s.current
  status : t.controller.status = s.controller.status

theorem Keeps.refl (s : Session) : s.Keeps s := ⟨rfl, rfl, rfl⟩

theorem Keeps.executed (s : Session) (driver : Driver) : s.Keeps (s.executed driver) :=
  ⟨rfl, rfl, s.status_executed driver⟩

/-- Only who observes has changed, and the journal says who has been told and answered. -/
structure Looks (s t : Session) : Prop where
  controller : t.controller = s.controller
  jobs : t.jobs = s.jobs
  current : t.current = s.current
  adds : s.Adds (fun _ _ => False) t

theorem Looks.keeps (h : s.Looks t) : s.Keeps t := ⟨h.jobs, h.current, congrArg _ h.controller⟩

theorem written_eq (s : Session) (c : Call) :
    ∃ machine shownPc, s.written c = s.withController { s.controller with machine, shownPc } := by
  cases c with
  | setRegister index value =>
    simp only [written, setRegister]
    split <;> exact ⟨_, _, rfl⟩
  | memory access =>
    simp only [written, accessMemory]
    split <;> exact ⟨_, _, rfl⟩
  | _ => exact ⟨_, _, rfl⟩

theorem role_entered (s : Session) (other : ¬c.IsRun) : (s.entered c).role = .other := by
  cases c with
  | run => exact absurd trivial other
  | load | loadBytes =>
    simp only [entered]
    split <;> rfl
  | _ => rfl

end Session

namespace Shared

/-- What a call or turn does that concerns nobody else. -/
structure Aside (s s' : Shared) (frame : Option Frame) : Prop where
  keeps : s.session.Keeps s'.session
  other : ∀ f ∈ frame, f.next.role = .other

variable {t : Session} {next : Op} {news : News} {program : List Word} {labels : Assembly.Labels}
  {event : Event}

theorem aside_leave (h : s.leave t = some (s', frame)) (keeps : s.session.Keeps t) :
    s.Aside s' frame := by
  cases h
  exact ⟨keeps, nofun⟩

theorem aside_goOn (h : s.goOn t next news = some (s', frame)) (keeps : s.session.Keeps t)
    (other : next.role = .other) : s.Aside s' frame := by
  cases h
  refine ⟨keeps, fun f mem => ?_⟩
  cases Option.mem_some.mp mem
  exact other

theorem aside_install (h : s.install program labels event = some (s', frame)) : s.Aside s' frame := by
  unfold install at h
  split at h
  · rename_i placed
    exact aside_leave h ⟨rfl, rfl, Controller.place_status placed⟩
  · rename_i placed
    exact aside_goOn h ⟨rfl, rfl, Controller.place_status placed⟩ rfl

end Shared

namespace Op

/-- An operation that is no part of a start, a pause or a job concerns nobody else. -/
theorem exec_other (other : op.role = .other) (h : op.exec thread s = some (s', frame)) :
    s.Aside s' frame := by
  have same := Session.Keeps.refl s.session
  cases op with
  | done => exact Shared.aside_leave h same
  | enter call =>
    simp only [exec] at h
    split at h
    · exact Shared.aside_leave h same
    · refine Shared.aside_goOn h same (Session.role_entered _ fun run => ?_)
      cases call with
      | run => cases other
      | _ => cases run
  | place | placeAgain => exact Shared.aside_install h
  | execute limit =>
    have executed := Session.Keeps.executed s.session .caller
    simp only [exec] at h
    split at h
    · exact Shared.aside_leave h same
    · split at h
      · exact Shared.aside_goOn h executed (by cases limit <;> rfl)
      · exact Shared.aside_goOn h executed (by cases limit <;> rfl)
      · exact Shared.aside_goOn h executed rfl
      · exact Shared.aside_leave h executed
  | complete limit =>
    simp only [exec] at h
    split at h
    · exact Shared.aside_leave h same
    · split at h
      · exact Shared.aside_leave h same
      · exact Shared.aside_goOn h same rfl
  | wait =>
    simp only [exec] at h
    split at h
    · exact Shared.aside_leave h same
    · exact Shared.aside_goOn h same rfl
  | join j =>
    simp only [exec] at h
    split at h
    · exact Shared.aside_leave h same
    · cases h
  | close =>
    simp only [exec] at h
    split at h
    · exact Shared.aside_leave h same
    · cases h
      exact ⟨same, by rintro f ⟨⟩; rfl⟩
    · cases h
      exact ⟨same, nofun⟩
  | drain =>
    simp only [exec] at h
    split at h <;> cases h
    exact ⟨same, nofun⟩
  | setClock settings =>
    simp only [exec] at h
    split at h
    · exact Shared.aside_leave h same
    · exact Shared.aside_goOn h ⟨rfl, rfl, rfl⟩ rfl
  | write call =>
    obtain ⟨machine, shownPc, written⟩ := s.session.written_eq call
    simp only [exec, written] at h
    exact Shared.aside_leave h ⟨rfl, rfl, rfl⟩
  | _ => cases other

/-- A call or turn goes on with a part of what it is in, or with something else. -/
theorem role_of_exec (h : op.exec thread s = some (s', frame)) (mem : f ∈ frame) :
    f.next.role = op.role ∨ f.next.role = .other := by
  cases op with
  | enter call =>
    cases call with
    | run delay =>
      simp only [exec, Shared.leave, Shared.goOn] at h
      split at h <;> cases h <;> cases mem
      exact .inl rfl
    | _ => exact .inr ((exec_other rfl h).other f mem)
  | pauseIfRunning after | pause after =>
    cases h
    cases mem
    dsimp only
    split
    · exact .inl rfl
    · exact .inr after.role_op
  | rest after =>
    simp only [exec, Shared.leave, Shared.goOn] at h
    split at h <;> cases h <;> cases mem
    exact .inr after.role_op
  | turn =>
    cases h
    cases mem
    dsimp only
    split <;> exact .inl rfl
  | work =>
    simp only [exec, Shared.goOn] at h
    split at h
    · cases h
      cases mem
      exact .inl rfl
    · split at h <;> cases h <;> cases mem <;> exact .inl rfl
  | requestStop | release =>
    cases h
    cases mem
    exact .inl rfl
  | keep | fulfil =>
    cases h
    cases mem
  | pace | begin | submit | seek | await | linger | retire =>
    simp only [exec, Shared.leave, Shared.goOn] at h
    split at h <;> cases h <;> cases mem <;> exact .inl rfl
  | _ => exact .inr ((exec_other rfl h).other f mem)

/-- Only the start of a run makes an idle controller busy. -/
theorem status_of_exec (h : op.exec thread s = some (s', frame)) :
    s'.session.controller.status = s.session.controller.status ∨
      s'.session.controller.status = .idle ∨ ∃ overlong, op = begin overlong := by
  cases op with
  | begin overlong => exact .inr (.inr ⟨overlong, rfl⟩)
  | work =>
    refine .inl ?_
    simp only [exec, Shared.goOn] at h
    split at h
    · cases h
      rfl
    · split at h <;> cases h <;> exact s.session.status_executed _
  | enter call =>
    refine .inl ?_
    simp only [exec, Shared.leave, Shared.goOn] at h
    split at h <;> cases h <;> rfl
  | rest | retire =>
    refine .inr (.inl ?_)
    simp only [exec, Shared.leave, Shared.goOn] at h
    split at h <;> cases h <;> rfl
  | keep | pauseIfRunning | pause | requestStop | release | turn | fulfil =>
    cases h
    exact .inl rfl
  | pace | submit | seek | await | linger =>
    simp only [exec, Shared.leave, Shared.goOn] at h
    split at h <;> cases h <;> exact .inl rfl
  | _ => exact .inl (exec_other rfl h).keeps.status

/-- Executes an instruction for a driver. -/
def Drives : Op → Driver → Prop
  | execute _, .caller | work _ _, .worker => True
  | _, _ => False

/-- The cycle of an operation that executes an instruction finds the controller as the operation does, and no
other operation has one. -/
theorem exec_adds (h : op.exec thread s = some (s', frame)) :
    s.session.Adds (fun driver before => op.Drives driver ∧ before = s.session.controller) s'.session := by
  have same {t : Session} (h : t.journal = s.session.journal) :
    s.session.Adds (fun driver before => op.Drives driver ∧ before = s.session.controller) t := .of_eq h
  cases op with
  | execute limit =>
    have executed : s.session.Adds (fun driver before => (execute limit).Drives driver ∧
        before = s.session.controller) (s.session.executed .caller) :=
      .executed fun _ => ⟨trivial, rfl⟩
    simp only [exec, Shared.leave, Shared.goOn] at h
    split at h
    · cases h
      exact same rfl
    · split at h <;> cases h <;> exact executed
  | work j overlong =>
    have executed : s.session.Adds (fun driver before => (work j overlong).Drives driver ∧
        before = s.session.controller) (s.session.executed .worker) :=
      .executed fun _ => ⟨trivial, rfl⟩
    simp only [exec, Shared.goOn] at h
    split at h
    · cases h
      exact same rfl
    · split at h <;> cases h <;> exact executed
  | place | placeAgain =>
    simp only [exec, Shared.install, Shared.leave, Shared.goOn] at h
    split at h <;> cases h
    · exact same rfl
    · exact .of_cons rfl fun _ _ is => by cases is
  | write call =>
    obtain ⟨machine, shownPc, written⟩ := s.session.written_eq call
    simp only [exec, Shared.leave, written] at h
    cases h
    exact same rfl
  | complete limit =>
    simp only [exec, Shared.leave, Shared.goOn] at h
    split at h
    · cases h
      exact same rfl
    · split at h <;> cases h <;> exact same rfl
  | done | keep | pauseIfRunning | pause | requestStop | release | turn | fulfil =>
    cases h
    exact same rfl
  | _ =>
    simp only [exec, Shared.leave, Shared.goOn] at h
    split at h <;> cases h <;> exact same rfl

end Op

/-! ## Outlines -/

/-- What the interplay of the threads depends on. Of the operations of a thread the innermost is the first
one. -/
structure Outline where
  jobs : List Job
  current : Option Nat
  status : Status
  caller : List Op
  worker : List Op

def Shared.outline (s : Shared) (caller worker : List Op) : Outline :=
  ⟨s.session.jobs, s.session.current, s.session.controller.status, caller, worker⟩

def Threads.outline (s : Threads) : Outline :=
  s.toShared.outline (s.caller.map (·.next)) (s.worker.map (·.next))

theorem Shared.outline_of_keeps {caller worker : List Op} (h : s.session.Keeps s'.session) :
    s'.outline caller worker = s.outline caller worker := by
  rw [outline, outline, h.jobs, h.current, h.status]

/-! ## Moves -/

namespace Threads

variable {s t : Threads} {choice : Choice} {driver : Driver} {before : Controller}

@[simp] theorem frames_withFrames (frames : List Frame) :
    (s.withFrames frames thread).frames thread = frames := by
  cases thread <;> rfl

@[simp] theorem toShared_withFrames (frames : List Frame) :
    (s.withFrames frames thread).toShared = s.toShared := by
  cases thread <;> rfl

/-- What a move can do. -/
inductive Moved (s : Threads) : Choice → Threads → Prop
  | call {c : Call} : s.caller = [] → Moved s (.call c) { s with caller := [⟨[], c.op⟩] }
  | act {thread : Thread} {c : Call} {told : Event × Snapshot} {news : News} {op : Op}
    {frames : List Frame} : s.frames thread = ⟨told :: news, op⟩ :: frames →
    Moved s (.act thread c) (s.withFrames (⟨[], c.op⟩ :: ⟨told :: news, op⟩ :: frames) thread)
  | tell {thread : Thread} {told : Event × Snapshot} {news : News} {op : Op} {frames : List Frame} :
    s.frames thread = ⟨told :: news, op⟩ :: frames →
    Moved s (.go thread) (s.withFrames (⟨news, op⟩ :: frames) thread)
  | exec {thread : Thread} {op : Op} {frames : List Frame} {shared : Shared} {frame : Option Frame} :
    s.frames thread = ⟨[], op⟩ :: frames → op.exec thread s.toShared = some (shared, frame) →
    Moved s (.go thread) ({ s with toShared := shared }.withFrames (frame.toList ++ frames) thread)
  | stopAwaiting {thread : Thread} {j : Nat} {after : After} {frames : List Frame} :
    s.frames thread = ⟨[], .await j after⟩ :: frames →
    Moved s (.giveUp thread) (s.withFrames (⟨[], after.op⟩ :: frames) thread)
  | stopJoining {thread : Thread} {j : Nat} {frames : List Frame} :
    s.frames thread = ⟨[], .join j⟩ :: frames →
    Moved s (.giveUp thread) (s.withFrames frames thread)
  | take {j : Nat} {overlong : Bool} : s.worker = [] → s.session.jobs[j]? = some (.pending overlong) →
    (s.session.jobs.take j).all Job.hasEnded →
    Moved s (.take j)
      { s with session := s.session.setJob j .working, worker := [⟨[], .turn j overlong⟩] }

theorem moved_of_move (h : s.move choice = some t) : s.Moved choice t := by
  cases choice with
  | call c =>
    simp only [move] at h
    split at h <;> cases h
    exact .call ‹_›
  | act thread c =>
    simp only [move] at h
    split at h <;> cases h
    exact .act ‹_›
  | go thread =>
    simp only [move] at h
    split at h
    · cases h
    · cases h
      exact .tell ‹_›
    · obtain ⟨⟨shared, frame⟩, executed, same⟩ := Option.bind_eq_some_iff.mp h
      cases same
      exact .exec ‹_› executed
  | giveUp thread =>
    simp only [move] at h
    split at h <;> cases h
    · exact .stopAwaiting ‹_›
    · exact .stopJoining ‹_›
  | take j =>
    simp only [move, Threads.take] at h
    split at h
    · split at h <;> cases h
      exact .take ‹_› ‹_› ‹_›
    · cases h

theorem move_of_moved (h : s.Moved choice t) : s.move choice = some t := by
  cases h with
  | call free => simp only [move, free]
  | act top | tell top | stopAwaiting top | stopJoining top => simp only [move, top]
  | exec top executed => simp only [move, top, executed, bind, Option.bind, pure]
  | take none waiting first => simp only [move, Threads.take, none, waiting, if_pos first]

/-! ## Executions -/

/-- A thread makes a move that it may make, or observers come and go, are told and answered. -/
inductive Step (may : Threads → Choice → Prop) : Threads → Threads → Prop
  | move {s t : Threads} {choice : Choice} : may s choice → s.move choice = some t → Step may s t
  | look {s : Threads} {u : Session} : s.session.Looks u → Step may s { s with session := u }

/-- Any number of steps. -/
abbrev Execution (may : Threads → Choice → Prop) : Threads → Threads → Prop :=
  Relation.ReflTransGen (Step may)

variable {may : Threads → Choice → Prop}

/-- A thread is about to execute an instruction for a driver. -/
def Drives (s : Threads) (driver : Driver) : Prop :=
  ∃ thread op frames, s.frames thread = ⟨[], op⟩ :: frames ∧ op.Drives driver

/-- A cycle finds the controller as the thread does that executes it. -/
theorem Step.adds (h : Step may s t) :
    s.session.Adds (fun driver before => s.Drives driver ∧ before = s.session.controller)
      t.session := by
  cases h with
  | look looks => exact looks.adds.mono fun _ _ => False.elim
  | move _ moved =>
    cases moved_of_move moved with
    | exec top executed =>
      rw [toShared_withFrames]
      exact (Op.exec_adds executed).mono fun _ _ ⟨drives, same⟩ => ⟨⟨_, _, _, top, drives⟩, same⟩
    | act | tell | stopAwaiting | stopJoining =>
      rw [toShared_withFrames]
      exact .of_eq rfl
    | call | take => exact .of_eq rfl

/-- What holds between the steps of an execution holds of its cycles. -/
theorem Execution.adds (Inv : Threads → Prop) (E : Driver → Controller → Prop)
    (keeps : ∀ {s t}, Inv s → Step may s t → Inv t)
    (drives : ∀ {s driver}, Inv s → s.Drives driver → E driver s.session.controller)
    (h : Execution may s t) (holds : Inv s) : Inv t ∧ s.session.Adds E t.session := by
  induction h with
  | refl => exact ⟨holds, .of_eq rfl⟩
  | tail _ step ih =>
    obtain ⟨holds, adds⟩ := ih
    refine ⟨keeps holds step, adds.trans (step.adds.mono ?_)⟩
    rintro driver _ ⟨driven, rfl⟩
    exact drives holds driven

/-- The state after moves that may be made. -/
def lives (may : Threads → Choice → Prop) [∀ s, DecidablePred (may s)] (choices : List Choice)
    (s : Threads) : Option Threads :=
  choices.foldlM (fun s choice => if may s choice then s.move choice else none) s

theorem execution_of_lives [∀ s, DecidablePred (may s)] {choices : List Choice}
    (h : s.lives may choices = some t) : Execution may s t := by
  induction choices generalizing s with
  | nil =>
    cases h
    exact .refl
  | cons choice choices ih =>
    rw [lives, List.foldlM_cons] at h
    obtain ⟨u, first, rest⟩ := Option.bind_eq_some_iff.mp h
    split at first
    · rename_i allowed
      exact .head (.move allowed first) (ih rest)
    · cases first

end Threads

end PocketMips.Simulator
