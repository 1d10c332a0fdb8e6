import PocketMips.Proofs.Threads

/-!
# Callers execute while the controller is idle

A step or a run to completion starts in an idle controller. Between its cycles the observers are told, and only
a run that is started then makes the controller busy before its last cycle: one that an observer of the caller
starts, or one that the caller starts while an observer of the worker executes. Without these, every cycle of a
caller finds the controller idle, in whatever order the threads move.
-/
namespace PocketMips.Simulator

variable {thread : Thread} {s s' : Shared} {frame : Option Frame} {f : Frame} {op : Op} {c : Call}

/-! ## Operations -/

theorem Session.executes_of_entered {s : Session} (h : (s.entered c).Executes) : c.Executes := by
  cases c with
  | step | runToCompletion => trivial
  | load | loadBytes =>
    simp only [entered] at h
    split at h <;> cases h
  | _ => cases h

theorem After.not_executes (after : After) : ¬after.op.Executes := by
  cases after <;> exact id

theorem Call.not_executes_op (c : Call) : ¬c.op.Executes := by
  cases c <;> exact id

theorem Call.role_op_ne_start (c : Call) (other : ¬c.IsRun) : c.op.role ≠ .start := by
  intro start
  rcases c.role_op with ⟨-, run⟩ | ⟨role, -⟩ | role
  · exact other run
  · rw [start] at role
    cases role
  · rw [start] at role
    cases role

namespace Op

/-- The call that is about to find out whether the controller is idle. -/
def entering? : Op → Option Call
  | enter c => some c
  | _ => none

/-- Only what executes instructions goes on doing so, and a call sets out to only in an idle controller. -/
theorem executes_of_exec (h : op.exec thread s = some (s', frame)) (mem : f ∈ frame)
    (executes : f.next.Executes) :
    op.Executes ∨ ∃ c, op = enter c ∧ c.Executes ∧ s.session.controller.status = .idle := by
  cases op with
  | execute | complete => exact .inl trivial
  | enter c =>
    simp only [exec, Shared.leave, Shared.goOn] at h
    split at h <;> cases h <;> cases mem
    exact .inr ⟨c, rfl, Session.executes_of_entered executes, Controller.idle_of_not_running ‹_›⟩
  | place | placeAgain =>
    simp only [exec, Shared.install, Shared.leave, Shared.goOn] at h
    split at h <;> cases h <;> cases mem
    cases executes
  | pauseIfRunning after | pause after =>
    cases h
    cases mem
    dsimp only at executes
    split at executes
    · cases executes
    · exact absurd executes after.not_executes
  | rest after =>
    simp only [exec, Shared.leave, Shared.goOn] at h
    split at h <;> cases h <;> cases mem
    exact absurd executes after.not_executes
  | turn =>
    cases h
    cases mem
    dsimp only at executes
    split at executes <;> cases executes
  | work =>
    simp only [exec, Shared.goOn] at h
    split at h
    · cases h
      cases mem
      cases executes
    · split at h <;> cases h <;> cases mem <;> cases executes
  | done | keep | fulfil | write =>
    cases h
    cases mem
  | requestStop | release =>
    cases h
    cases mem
    cases executes
  | _ =>
    simp only [exec, Shared.leave, Shared.goOn] at h
    split at h <;> cases h <;> cases mem <;> cases executes

end Op

/-! ## The invariant -/

/-- Starts of runs are made by the caller's own accord, the worker executes nothing for callers, and a call
that executes instructions finds the controller idle. -/
structure Outline.Exclusive (o : Outline) : Prop where
  outermost : o.caller.Pairwise fun inner _ => inner.role ≠ .start
  worker : ∀ op ∈ o.worker, op.role ≠ .start ∧ ¬op.Executes
  idle : ∀ op ∈ o.caller, op.Executes → o.status = .idle

namespace Outline.Exclusive

variable {op' : Op} {ops : List Op} {caller worker : List Op}

theorem push_caller (h : (s.outline caller worker).Exclusive)
    (fits : op.role ≠ .start ∧ ¬op.Executes) : (s.outline (op :: caller) worker).Exclusive := by
  refine ⟨.cons (fun _ _ => fits.1) h.outermost, h.worker, fun op' mem run => ?_⟩
  rcases List.mem_cons.mp mem with rfl | mem
  · exact absurd run fits.2
  · exact h.idle op' mem run

theorem push_worker (h : (s.outline caller worker).Exclusive)
    (fits : op.role ≠ .start ∧ ¬op.Executes) : (s.outline caller (op :: worker)).Exclusive :=
  ⟨h.outermost, List.forall_mem_cons.mpr ⟨fits, h.worker⟩, h.idle⟩

/-- The caller's innermost operation makes place for another one, if for any. -/
theorem replace_caller (h : (s.outline (op :: ops) worker).Exclusive) (next : Option Op)
    (start : ∀ op' ∈ next, op'.role = .start → op.role = .start)
    (executes : ∀ op' ∈ next, op'.Executes → s'.session.controller.status = .idle)
    (status : s'.session.controller.status = s.session.controller.status ∨
      s'.session.controller.status = .idle ∨ op.role = .start) :
    (s'.outline (next.toList ++ ops) worker).Exclusive := by
  obtain ⟨outermost, worker, idle⟩ := h
  obtain ⟨inside, outside⟩ := List.pairwise_cons.mp outermost
  have idle (op' : Op) (mem : op' ∈ ops) (run : op'.Executes) :
      s'.session.controller.status = .idle := by
    rcases status with same | rest | start
    · exact same.trans (idle op' (.tail _ mem) run)
    · exact rest
    · exact absurd start (inside op' mem)
  cases next with
  | none => exact ⟨outside, worker, idle⟩
  | some op' =>
    refine ⟨.cons (fun outer mem role => inside outer mem (start op' rfl role)) outside, worker,
      fun op'' mem run => ?_⟩
    rcases List.mem_cons.mp mem with rfl | mem
    · exact executes op'' rfl run
    · exact idle op'' mem run

theorem replace_worker (h : (s.outline caller (op :: ops)).Exclusive) (next : Option Op)
    (fits : ∀ op' ∈ next, op'.role ≠ .start ∧ ¬op'.Executes)
    (status : s'.session.controller.status = s.session.controller.status ∨
      s'.session.controller.status = .idle) :
    (s'.outline caller (next.toList ++ ops)).Exclusive := by
  refine ⟨h.outermost, fun op' mem => ?_, fun op' mem run => ?_⟩
  · rcases List.mem_append.mp mem with mem | mem
    · exact fits op' (Option.mem_toList.mp mem)
    · exact h.worker op' (.tail _ mem)
  · rcases status with same | rest
    · exact same.trans (h.idle op' mem run)
    · exact rest

end Outline.Exclusive

/-! ## Steps -/

namespace Threads

variable {s t : Threads}

theorem map_next (frame : Option Frame) (frames : List Frame) :
    (frame.toList ++ frames).map (·.next) =
      (frame.map (·.next)).toList ++ frames.map (·.next) := by
  cases frame <;> rfl

/-- No observer starts a run, and none that the worker tells executes instructions: it may step or run to
completion during a run only, when that is refused. -/
def Yielding (s : Threads) : Choice → Prop
  | .act _ c => ¬c.IsRun
  | .go .worker => ∀ f ∈ s.worker.head?, ∀ c ∈ f.next.entering?, c.Executes →
      s.session.controller.status = .running
  | _ => True

instance (s : Threads) : DecidablePred s.Yielding
  | .act _ _ => inferInstanceAs (Decidable (¬_))
  | .go .worker => inferInstanceAs (Decidable (∀ _ ∈ _, _))
  | .call _ | .go .caller | .giveUp _ | .take _ => .isTrue trivial

theorem Step.exclusive (h : Step Yielding s t) (exclusive : s.outline.Exclusive) :
    t.outline.Exclusive := by
  cases h with
  | look looks => rwa [outline, Shared.outline_of_keeps looks.keeps]
  | move may moved =>
    rw [outline] at exclusive
    cases moved_of_move moved with
    | @call c free =>
      exact ⟨List.pairwise_singleton _ _, exclusive.worker, fun op mem run => by
        cases List.mem_singleton.mp mem
        exact absurd run c.not_executes_op⟩
    | @act thread c _ _ _ _ top =>
      have fits : c.op.role ≠ .start ∧ ¬c.op.Executes := ⟨c.role_op_ne_start may, c.not_executes_op⟩
      cases thread with
      | caller =>
        rw [show s.caller = _ from top] at exclusive
        exact exclusive.push_caller fits
      | worker =>
        rw [show s.worker = _ from top] at exclusive
        exact exclusive.push_worker fits
    | @tell thread _ _ _ _ top =>
      cases thread with
      | caller =>
        rw [show s.caller = _ from top] at exclusive
        exact exclusive
      | worker =>
        rw [show s.worker = _ from top] at exclusive
        exact exclusive
    | @exec thread op frames shared frame top executed =>
      have fits (op' : Op) (mem : op' ∈ frame.map (·.next)) :
          (op'.role = .start → op.role = .start) ∧ (op'.Executes → op.Executes ∨
            ∃ c, op = .enter c ∧ c.Executes ∧ s.session.controller.status = .idle) := by
        obtain ⟨f, is, rfl⟩ := Option.map_eq_some_iff.mp mem
        refine ⟨fun start => ?_, op.executes_of_exec executed is⟩
        rcases op.role_of_exec executed is with same | other
        · rwa [same] at start
        · rw [other] at start
          cases start
      have status := op.status_of_exec executed
      -- the worker may go idle beside the caller, but it starts nothing
      cases thread with
      | caller =>
        rw [show s.caller = _ from top] at exclusive
        rw [outline, withFrames, map_next]
        refine exclusive.replace_caller _ (fun op' mem => (fits op' mem).1) (fun op' mem run => ?_) ?_
        · have stays (idle : s.session.controller.status = .idle)
              (other : ∀ overlong, op ≠ .begin overlong) :
              shared.session.controller.status = .idle := by
            rcases status with same | rest | ⟨overlong, is⟩
            · exact same.trans idle
            · exact rest
            · exact absurd is (other overlong)
          rcases (fits op' mem).2 run with before | ⟨c, rfl, -, idle⟩
          · refine stays (exclusive.idle op (.head _) before) ?_
            rintro _ rfl
            exact before
          · exact stays idle (by rintro _ ⟨⟩)
        · exact status.imp_right (.imp_right fun ⟨_, is⟩ => is ▸ rfl)
      | worker =>
        rw [show s.worker = _ from top] at exclusive
        obtain ⟨inside, none⟩ := exclusive.worker op (.head _)
        rw [outline, withFrames, map_next]
        refine exclusive.replace_worker _ (fun op' mem => ?_) ?_
        · obtain ⟨start, executes⟩ := fits op' mem
          refine ⟨fun is => inside (start is), fun run => ?_⟩
          rcases executes run with before | ⟨c, rfl, tries, idle⟩
          · exact none before
          · have running := may ⟨[], .enter c⟩ (by rw [show s.worker = _ from top]; rfl) c rfl tries
            rw [running] at idle
            cases idle
        · rcases status with same | rest | ⟨overlong, rfl⟩
          · exact .inl same
          · exact .inr rest
          · exact absurd rfl inside
    | @stopAwaiting thread j after _ top =>
      cases thread with
      | caller =>
        rw [show s.caller = _ from top] at exclusive
        exact exclusive.replace_caller (some after.op)
          (by rintro _ ⟨⟩ start; rw [after.role_op] at start; cases start)
          (by rintro _ ⟨⟩ run; exact absurd run after.not_executes) (.inl rfl)
      | worker =>
        rw [show s.worker = _ from top] at exclusive
        exact exclusive.replace_worker (some after.op)
          (by rintro _ ⟨⟩; exact ⟨by rw [after.role_op]; nofun, after.not_executes⟩) (.inl rfl)
    | @stopJoining thread _ _ top =>
      cases thread with
      | caller =>
        rw [show s.caller = _ from top] at exclusive
        exact exclusive.replace_caller none nofun nofun (.inl rfl)
      | worker =>
        rw [show s.worker = _ from top] at exclusive
        exact exclusive.replace_worker none nofun (.inl rfl)
    | take =>
      exact ⟨exclusive.outermost, fun op mem => by
        cases List.mem_singleton.mp mem
        exact ⟨nofun, id⟩, exclusive.idle⟩

/-! ## The caller -/

/-- A caller is about to execute an instruction in an idle controller only. -/
theorem idle_of_drives (exclusive : s.outline.Exclusive) (drives : s.Drives .caller) :
    s.session.controller.status = .idle := by
  obtain ⟨thread, op, frames, top, drives⟩ := drives
  have executes : op.Executes := by
    cases op with
    | execute => trivial
    | _ => cases drives
  have mem : op ∈ (s.frames thread).map (·.next) := by
    rw [top]
    exact .head _
  cases thread with
  | caller => exact exclusive.idle op mem executes
  | worker => exact absurd executes (exclusive.worker op mem).2

/-- **Callers execute while the controller is idle**, if no observer starts a run and none that the worker
tells executes instructions: every cycle of a step or a run to completion finds the controller idle, and so
it stays between the cycles. -/
theorem caller_finds_idle {s : Session} (lived : Execution Yielding (ofSession s) t) :
    s.Adds (fun driver before => driver = .caller → before.status = .idle) t.session ∧
      ∀ f ∈ t.caller, f.next.Executes → t.session.controller.status = .idle := by
  obtain ⟨exclusive, adds⟩ := lived.adds (fun s => s.outline.Exclusive)
    (fun driver before => driver = .caller → before.status = .idle)
    (fun holds step => step.exclusive holds)
    (fun holds drives is => idle_of_drives holds (is ▸ drives)) ⟨.nil, nofun, nofun⟩
  exact ⟨adds, fun f mem => exclusive.idle f.next (List.mem_map_of_mem mem)⟩

/-- The caller executes two instructions, an observer pauses the run in which the worker executes another
one, and the caller goes on. -/
theorem paused_caller_finds_idle : ∃ t,
    Execution Yielding (ofSession .bare) t ∧
      Session.bare.Adds (fun driver before => driver = .caller → before.status = .idle) t.session ∧
      (t.session.found .caller).length = 3 ∧ (t.session.found .worker).length = 1 := by
  have lived : ((ofSession .bare).lives Yielding (
      .call (.loadWords [0x20080001, 0x20080002, 0x20080003, 0x20080004]) ::
        List.replicate 4 (.go .caller) ++
      .call (.runToCompletion 2) :: List.replicate 8 (.go .caller) ++
      .call (.run .seconds) :: List.replicate 5 (.go .caller) ++
      .take 0 :: List.replicate 2 (.go .worker) ++ [.go .caller, .call .wait, .go .caller] ++
      .act .worker .pause :: List.replicate 3 (.go .worker) ++
      .giveUp .worker :: List.replicate 3 (.go .worker) ++
      .take 0 :: List.replicate 4 (.go .worker) ++ [.go .caller] ++
      .call .step :: List.replicate 4 (.go .caller))).map
        (fun t => ((t.session.found .caller).length, (t.session.found .worker).length)) =
          some (3, 1) := by
    decide +kernel
  obtain ⟨t, lived, counts⟩ := Option.map_eq_some_iff.mp lived
  have execution := execution_of_lives lived
  exact ⟨t, execution, (caller_finds_idle execution).1, congrArg Prod.fst counts,
    congrArg Prod.snd counts⟩

end Threads

namespace Session

variable {P : Call → Prop} {s t : Session}

/-- An observer that starts a run in the middle of a run to completion lets the caller go on during it, both in
a session, where the worker has no turn meanwhile, and when the worker starts at once. -/
theorem caller_goes_on_during_run :
    (∃ t, History (fun _ _ => True) bare t ∧
      (t.found .caller).map (·.status) = [.running, .running, .idle]) ∧
    ∃ t, Threads.Execution (fun _ _ => True) (.ofSession bare) t ∧
      (t.session.found .caller).map (·.status) = [.running, .idle] ∧
      (t.session.found .worker).map (·.status) = [.running] := by
  constructor
  · have lived : (calls 5 9 [.loadWords [0x20080001, 0x20080002, 0x20080003],
        .subscribe "a" (some .step) 1 [.run .seconds] false, .runToCompletion 50] bare).map
          (fun t => (t.found .caller).map (·.status)) = some [.running, .running, .idle] := by
      decide +kernel
    obtain ⟨t, called, statuses⟩ := Option.map_eq_some_iff.mp lived
    exact ⟨t, history_of_calls (fun _ _ _ => trivial) called, statuses⟩
  · have lived : ((Threads.ofSession bare).lives (fun _ _ => True) (
        .call (.loadWords [0x20080001, 0x20080002, 0x20080003]) :: List.replicate 4 (.go .caller) ++
        .call (.runToCompletion 50) :: List.replicate 3 (.go .caller) ++
        .act .caller (.run .seconds) :: List.replicate 6 (.go .caller) ++
        .take 0 :: List.replicate 2 (.go .worker) ++ List.replicate 3 (.go .caller))).map
          (fun t => ((t.session.found .caller).map (·.status),
            (t.session.found .worker).map (·.status))) = some ([.running, .idle], [.running]) := by
      decide +kernel
    obtain ⟨t, lived, statuses⟩ := Option.map_eq_some_iff.mp lived
    exact ⟨t, Threads.execution_of_lives lived, congrArg Prod.fst statuses,
      congrArg Prod.snd statuses⟩

/-! ## Turns between the calls -/

/-- Either nothing starts a run in a move, or the move is a run. -/
theorem Moves.does_or_run (h : Moves (fun c _ => c.Throughout P ∨ c.IsRun) s t) (only : s.Only P) :
    Does P s t ∨ (s.controller.lost = true ∧ t = s.withController s.controller.running) ∨
      ∃ react overlong u, Reacts P react ∧ s.controller.status = .idle ∧
        notify react .started s.controller.begin.stored (s.withController s.controller.begin) =
          some u ∧ t = u.queued overlong := by
  cases h with
  | turn waiting turned => exact .inl (does_of_turn reacts_perform only waiting turned)
  | expire => exact .inl .requestStop
  | call may performed =>
    rename_i depth turns c r
    rcases may with given | run
    · exact .inl (does_of_perform only (.inl given) performed)
    · cases depth with
      | zero => cases performed
      | succ depth =>
        cases c with
        | run delay =>
          rcases run_eq_some performed with rfl | stuck | ⟨overlong, u, idle, told, same⟩
          · exact .inl .refl
          · exact .inr (.inl stuck)
          · exact .inr (.inr ⟨_, overlong, u, reacts_perform, idle, told, same⟩)
        | _ => cases run

/-- While the worker has its turns between the calls of the caller or when it is asked for, it only matters that
no observer starts a run. -/
theorem History.idle_of_caller (only : s.Only fun c => ¬c.IsRun)
    (history : History (fun c _ => (c.Throughout fun c => ¬c.IsRun) ∨ c.IsRun) s t) :
    s.Adds (fun driver before => driver = .caller → before.status = .idle) t := by
  have none (delay : Delay) : ¬¬(Call.run delay).IsRun := fun h => h trivial
  have idle {s t : Session} (h : Does (fun c => ¬c.IsRun) s t) :
      s.Adds (fun driver before => driver = .caller → before.status = .idle) t :=
    h.adds.mono fun _ _ holds is => (holds.2 is).resolve_right fun ⟨_, run⟩ => none _ run
  suffices s.Adds (fun driver before => driver = .caller → before.status = .idle) t ∧
      t.Only fun c => ¬c.IsRun from this.1
  induction history with
  | refl => exact ⟨.of_eq rfl, only⟩
  | tail _ move ih =>
    rename_i between _ _
    obtain ⟨adds, only⟩ := ih
    rcases move.does_or_run only with made | ⟨-, rfl⟩ | ⟨react, overlong, u, reacts, -, told, rfl⟩
    · exact ⟨adds.trans (idle made), made.only only⟩
    · exact ⟨adds.trans (.of_eq rfl), only.congr rfl⟩
    · have only : (between.withController between.controller.begin).Only _ := only
      have told := does_of_notify reacts only told
      have added := idle told
      exact ⟨adds.trans (u := u.queued overlong) added, (told.only only).congr rfl⟩

end Session

end PocketMips.Simulator
