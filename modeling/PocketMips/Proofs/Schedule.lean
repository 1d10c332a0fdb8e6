import PocketMips.Proofs.Proceeding

/-!
# A session is a schedule of the threads

In a session the worker has its turns between the calls of the caller, or when one of them asks for a job. If no
observer starts a run, closes the pool of the worker or makes a call at the start of a run, all that the session
does the two threads do, in one of the orders in which they may move.
-/
namespace PocketMips.Simulator

namespace Session

variable {s : Session}

/-- No job is unfinished. -/
def AllEnded (s : Session) : Prop := ∀ j, ¬s.Unfinished j

theorem AllEnded.all (h : s.AllEnded) : s.jobs.all Job.hasEnded := by
  refine List.all_eq_true.mpr fun job mem => ?_
  obtain ⟨j, is⟩ := List.mem_iff_getElem?.mp mem
  exact hasEnded_of_not_unfinished is (h j)

end Session

namespace Threads

variable {T : Threads} {thread : Thread} {s t : Session} {op : Op} {react : Reaction}
  (reacts : Session.Reacts Call.Subdued react) (follows : Follows react)

/-! ## Waiting and pausing -/

section Pauses

variable (free : T.Free thread) (fits : Fits thread s) (only : s.Only Call.Subdued)
include reacts follows free fits only

omit reacts follows free fits only in
theorem working_of_demand {j turns : Nat} (h : Session.demand react j turns s = some (.unfinished, t)) :
    t.jobs[j]? = some .working := by
  fun_induction Session.demand react j turns s with
  | case1 _ s working =>
    cases h
    exact Session.getElem?_of_getD working (by rintro ⟨⟩)
  | case2 => cases h
  | case3 => cases h
  | case4 s overlong waiting turns ih =>
    obtain ⟨u, -, h⟩ := Option.bind_eq_some_iff.mp h
    exact ih u h

/-- Whoever asks for the current job waits while the worker has turns, or asks from the turn of that job. -/
theorem proceeds_ask (op : Op) {j turns : Nat} {answer : Session.JobEnd} (current : s.current = some j)
    (other : op.role ≠ .start) (h : Session.demand react j turns s = some (answer, t)) :
    T.Proceeds thread s [⟨[], op⟩] t [⟨[], op⟩] ∧ ((answer = .unfinished ∧ thread = .worker) ∨
      ∃ failure, answer = .ended failure ∧ thread = .caller ∧
        t.jobs[j]?.getD (.ended none) = .ended failure) := by
  cases thread with
  | caller =>
    obtain ⟨made, ended⟩ := Session.does_of_demand reacts only h
    have turns : (T.doing .caller s [⟨[], op⟩]).Proceeds .worker s [] t [] :=
      proceeds_demand reacts follows ⟨(free.doing other).calm, nofun⟩ only (free.alone rfl) fits h
    refine ⟨turns, .inr ?_⟩
    cases answer with
    | unfinished => exact absurd (working_of_demand h) ((fits.does made).resting rfl j)
    | ended failure => exact ⟨failure, rfl, rfl, ended failure rfl⟩
  | worker =>
    obtain ⟨k, is, working⟩ := fits.engaged rfl
    rw [current] at is
    cases is
    unfold Session.demand at h
    rw [working] at h
    cases h
    exact ⟨.refl, .inl ⟨rfl, rfl⟩⟩

theorem proceeds_wait {turns : Nat} {r : Except Failure Reply}
    (h : Session.wait react turns s = some (r, t)) : T.Proceeds thread s [⟨[], .wait⟩] t [] := by
  unfold Session.wait at h
  split at h <;> rename_i current
  · cases h
    exact proceeds_leave (by rw [Op.exec, current])
  · rename_i j
    obtain ⟨⟨answer, u⟩, demanded, h⟩ := Option.bind_eq_some_iff.mp h
    obtain ⟨asked, ended⟩ :=
      proceeds_ask reacts follows free fits only (.join j) current (by rintro ⟨⟩) demanded
    have asks : T.Proceeds thread s [⟨[], .wait⟩] u [⟨[], .join j⟩] :=
      .trans (proceeds_goOn (by rw [Op.exec, current])) asked
    rcases ended with ⟨rfl, -⟩ | ⟨failure, rfl, -, stands⟩
    · cases h
      exact .trans asks proceeds_stopJoining
    · have joined : T.Proceeds thread u [⟨[], .join j⟩] u [] := proceeds_leave (if_pos (by rw [stands]; rfl))
      cases failure <;> cases h <;> exact .trans asks joined

theorem proceeds_rest (after : After) {r : Except Failure Reply} (ended : s.AllEnded)
    (h : Session.rest react s = some (r, t)) :
    T.Proceeds thread s [⟨[], .rest after⟩] t (unlessFailed r after.op) ∧ t.AllEnded := by
  unfold Session.rest at h
  split at h
  · rename_i lost
    cases h
    exact ⟨proceeds_leave (if_pos lost), ended⟩
  · rename_i kept
    obtain ⟨u, told, same⟩ := Option.bind_eq_some_iff.mp h
    cases same
    have ended : (s.withController s.controller.settle).AllEnded := ended
    have fits : Fits thread (s.withController s.controller.settle) :=
      ⟨⟨fun j going => absurd going (ended j), fun j _ waiting =>
        absurd (Session.unfinished_of_pending waiting) (ended j)⟩, fits.resting, fits.engaged⟩
    have only : (s.withController s.controller.settle).Only Call.Subdued := only.congr rfl
    have made := Session.does_of_notify reacts only told
    have told : T.Proceeds thread _ [⟨[(.paused, s.controller.settle.stored)], after.op⟩] t
        [⟨[], after.op⟩] :=
      proceeds_notify reacts follows free fits only (by rw [after.role_op]; nofun) told
    exact ⟨.trans (proceeds_goOn (if_neg kept)) told,
      (made.spent (fun _ given => given.not_run trivial) ended).1⟩

/-- A pause comes to its end or is given up, or it fails by the failure of the job. If it is the caller's, its
end is that of all jobs. -/
theorem proceeds_pause (after : After) {turns : Nat} {r : Except Failure Reply}
    (h : Session.pause react turns s = some (r, t)) :
    T.Proceeds thread s [⟨[], .pause after⟩] t (unlessFailed r after.op) ∧
      (thread = .caller → (s.controller.status = .idle → s.AllEnded) → (∃ reply, r = .ok reply) →
        t.AllEnded) := by
  unfold Session.pause at h
  split at h
  · rename_i quiet
    replace quiet : ¬s.controller.isRunning := by simpa using quiet
    cases h
    exact ⟨proceeds_goOn (by rw [Op.exec, if_neg quiet]),
      fun _ ended _ => ended (Controller.idle_of_not_running quiet)⟩
  · rename_i running
    dsimp only at h
    have asks : T.Proceeds thread s [⟨[], .pause after⟩] (s.withController s.controller.requestStop)
        [⟨[], .seek after⟩] :=
      .trans (proceeds_goOn (by rw [Op.exec, if_pos (by simpa using running)])) (proceeds_goOn rfl)
    have fits : Fits thread (s.withController s.controller.requestStop) := fits.keeps ⟨rfl, rfl, rfl⟩
    have only : (s.withController s.controller.requestStop).Only Call.Subdued := only.congr rfl
    generalize s.withController s.controller.requestStop = u at h fits only asks
    suffices T.Proceeds thread u [⟨[], .seek after⟩] t (unlessFailed r after.op) ∧
        (thread = .caller → (∃ reply, r = .ok reply) → t.AllEnded) from
      ⟨.trans asks this.1, fun is _ => this.2 is⟩
    split at h <;> rename_i current
    · have ended : u.AllEnded := fun j going => by
        have is := fits.orderly.current j going
        rw [current] at is
        cases is
      have seeks : T.Proceeds thread u [⟨[], .seek after⟩] u [⟨[], .rest after⟩] :=
        proceeds_goOn (by rw [Op.exec, current])
      obtain ⟨rests, ended⟩ := proceeds_rest reacts follows free fits only after ended h
      exact ⟨.trans seeks rests, fun _ _ => ended⟩
    · rename_i j
      obtain ⟨⟨answer, v⟩, demanded, h⟩ := Option.bind_eq_some_iff.mp h
      obtain ⟨asked, ended⟩ :=
        proceeds_ask reacts follows free fits only (.await j after) current (by rintro ⟨⟩) demanded
      have seeks : T.Proceeds thread u [⟨[], .seek after⟩] v [⟨[], .await j after⟩] :=
        .trans (proceeds_goOn (by rw [Op.exec, current])) asked
      rcases ended with ⟨rfl, rfl⟩ | ⟨failure, rfl, rfl, stands⟩
      · cases h
        exact ⟨.trans seeks proceeds_stopAwaiting, by rintro ⟨⟩⟩
      · cases failure with
        | some e =>
          cases h
          exact ⟨.trans seeks (proceeds_leave (by rw [Op.exec, stands])), by rintro _ ⟨_, ⟨⟩⟩⟩
        | none =>
          have made := (Session.does_of_demand reacts only demanded).1
          have awaited : v.Awaited := fun k is => by
            rcases made.current (fun _ given => given.not_run trivial) with same | gone
            · rw [same, current] at is
              cases is
              exact ⟨_, stands⟩
            · rw [gone] at is
              cases is
          have all : v.AllEnded := (fits.does made).orderly.not_unfinished awaited
          have fits : Fits .caller { v with current := none } :=
            ⟨⟨fun k going => absurd going (all k), (fits.does made).orderly.running⟩,
              (fits.does made).resting, by rintro ⟨⟩⟩
          have awaits : T.Proceeds .caller v [⟨[], .await j after⟩] v [⟨[], .release after⟩] :=
            proceeds_goOn (by rw [Op.exec, stands])
          have releases : T.Proceeds .caller v [⟨[], .release after⟩] { v with current := none }
              [⟨[], .rest after⟩] := proceeds_goOn rfl
          obtain ⟨rests, all⟩ := proceeds_rest reacts follows free fits ((made.only only).congr rfl) after
            all h
          exact ⟨.trans seeks (.trans awaits (.trans releases rests)), fun _ _ => all⟩

/-- A call pauses if a run is in progress, and goes on unless that fails. -/
theorem proceeds_pauseIfRunning (after : After) {turns : Nat} {r : Except Failure Unit}
    (h : Session.pauseIfRunning react turns s = some (r, t)) :
    T.Proceeds thread s [⟨[], .pauseIfRunning after⟩] t (unlessFailed r after.op) ∧
      (thread = .caller → (s.controller.status = .idle → s.AllEnded) → r = .ok () → t.AllEnded) := by
  unfold Session.pauseIfRunning at h
  split at h
  · rename_i running
    obtain ⟨⟨r', u⟩, paused, same⟩ := Option.map_eq_some_iff.mp h
    cases same
    obtain ⟨pauses, ended⟩ := proceeds_pause reacts follows free fits only after paused
    refine ⟨.trans (proceeds_goOn (by rw [Op.exec, if_pos running])) ?_, fun is idle ok => ?_⟩
    · cases r' <;> exact pauses
    · cases r' with
      | ok reply => exact ended is idle ⟨reply, rfl⟩
      | error => cases ok
  · rename_i quiet
    cases h
    exact ⟨proceeds_goOn (by rw [Op.exec, if_neg quiet]),
      fun _ ended _ => ended (Controller.idle_of_not_running quiet)⟩

theorem proceeds_reset {turns : Nat} {r : Except Failure Reply}
    (h : Session.reset react turns s = some (r, t)) :
    T.Proceeds thread s [⟨[], .pauseIfRunning .reset⟩] t [] := by
  obtain ⟨⟨r', u⟩, paused, h⟩ := Option.bind_eq_some_iff.mp h
  obtain ⟨pauses, -⟩ := proceeds_pauseIfRunning reacts follows free fits only .reset paused
  have made := Session.does_of_pauseIfRunning reacts only paused
  cases r' with
  | error e =>
    cases h
    exact pauses
  | ok _ =>
    refine .trans pauses ?_
    dsimp only at h
    split at h
    · rename_i refused
      cases h
      exact proceeds_refused refused
    · rename_i idle
      exact .trans (proceeds_enter idle)
        (proceeds_install reacts follows free (fits.does made) (made.only only) rfl h)

end Pauses

/-! ## Calls -/

include reacts follows in
/-- What a call does, a thread does. -/
theorem follows_respond {turns : Nat} : Follows (Session.respond react turns) := by
  intro T thread c s t r free fits given only h
  cases c with
  | load | loadWords | loadBytes => exact proceeds_load reacts follows free fits only trivial h
  | step => exact proceeds_step reacts follows free fits only h
  | runToCompletion => exact proceeds_runToCompletion reacts follows free fits only h
  | run => exact absurd trivial given.self.not_run
  | wait => exact proceeds_wait reacts follows free fits only h
  | pause =>
    obtain ⟨pauses, -⟩ := proceeds_pause reacts follows free fits only .nothing h
    cases r with
    | ok => exact .trans pauses (proceeds_leave rfl)
    | error => exact pauses
  | reset => exact proceeds_reset reacts follows free fits only h
  | shutdown => exact absurd rfl given.self.2
  | setClock => exact proceeds_setClock reacts follows free fits only h
  | setRegister index value =>
    have written : (s.setRegister index value).2 = t := congrArg Prod.snd (Option.some.inj h)
    exact proceeds_leave (by rw [← written]; rfl)
  | memory access =>
    have written : (s.accessMemory access).2 = t := congrArg Prod.snd (Option.some.inj h)
    exact proceeds_leave (by rw [← written]; rfl)
  | setPc | register | wordAt | timeText =>
    cases h
    exact proceeds_leave rfl
  | mute =>
    cases h
    exact .trans (proceeds_look (.remove .recorder)) (proceeds_leave rfl)
  | subscribe name event turn acts fails =>
    cases h
    exact .trans (proceeds_look (.subscribe name ⟨event, turn, acts, fails, 0⟩)) (proceeds_leave rfl)
  | unsubscribe name =>
    cases h
    exact .trans (proceeds_look (.unsubscribe name)) (proceeds_leave rfl)

theorem follows_perform {depth turns : Nat} : Follows (Session.perform depth turns) := by
  induction depth with
  | zero =>
    intro T thread c s t r _ _ _ _ h
    cases h
  | succ depth ih => exact follows_respond Session.reacts_perform ih

end Threads

/-! ## Schedules -/

namespace Session

variable {s t : Session}

/-- The caller makes a call, a job that waits for its turn has it, or a pause of the caller asks the current job
to stop and gives up waiting for it. -/
inductive Serves : Session → Session → Prop
  | call {s t : Session} {depth turns : Nat} {c : Call} {r : Except Failure Reply} :
    c.Throughout Call.Subdued ∨ c.IsRun ∨ c = .shutdown → perform depth turns c s = some (r, t) →
    Serves s t
  | turn {s t : Session} {depth turns j : Nat} {overlong : Bool} :
    s.jobs[j]? = some (.pending overlong) → turn (perform depth turns) j overlong s = some t → Serves s t
  | expire {s : Session} {j : Nat} : s.controller.isRunning → s.current = some j →
    Serves s (s.withController s.controller.requestStop)

theorem Serves.moves (h : Serves s t) : Moves (fun c _ => c.Throughout Call.Quiet ∨ c.IsRun) s t := by
  cases h with
  | call may performed =>
    refine .call ?_ performed
    rcases may with given | run | rfl
    · exact .inl (given.mono fun _ given => given.1)
    · exact .inr run
    · exact .inl (.of_nil trivial rfl)
  | turn waiting turned => exact .turn waiting turned
  | expire running => exact .expire running

end Session

namespace Threads

variable {s t : Session} {pool : Pool}

/-- No observer is to start a run, to close the pool or to do anything at the start of a run, and no turn is in
progress. -/
structure Ready (s : Session) : Prop where
  settled : s.Settled
  only : s.Only Call.Subdued

theorem Ready.fits (h : Ready s) : Fits .caller s := ⟨h.settled.orderly, fun _ => h.settled.resting, nofun⟩

theorem free_resting {thread : Thread} : ({ session := s, pool } : Threads).Free thread :=
  ⟨by rintro ⟨_, ⟨⟩, -⟩, fun _ => rfl⟩

theorem step_call (c : Call) :
    Step Discreet { session := s, pool } { session := s, pool, caller := [⟨[], c.op⟩] } := by
  have called : ({ session := s, pool } : Threads).move (.call c) =
      some { session := s, pool, caller := [⟨[], c.op⟩] } := rfl
  refine .move ?_ called
  trivial

theorem execution_of_proceeds {c : Call}
    (h : ({ session := s, pool } : Threads).Proceeds .caller s [⟨[], c.op⟩] t []) :
    Execution Discreet { session := s, pool } { session := t, pool } :=
  .head (step_call c) h

section Reactions

variable {react : Reaction} (reacts : Session.Reacts Call.Subdued react) (follows : Follows react)
  (ready : Ready s) (opened : pool ≠ .closed)
include reacts follows ready opened

/-- The caller shuts down: the pool is closed and waited for. -/
theorem execution_of_shutdown {turns : Nat} {r : Except Failure Reply}
    (h : Session.shutdown react turns s = some (r, t)) :
    ∃ pool', pool' ≠ .closed ∧
      Execution Discreet { session := s, pool } { session := t, pool := pool' } := by
  obtain ⟨⟨r', u⟩, paused, same⟩ := Option.map_eq_some_iff.mp h
  cases same
  obtain ⟨pauses, past⟩ := proceeds_pauseIfRunning (T := { session := s, pool }) reacts
    follows free_resting ready.fits ready.only .shutdown paused
  have starts : Execution Discreet { session := s, pool }
      { session := t, pool, caller := unlessFailed r' .close } :=
    .head (step_call .shutdown) (by cases r' <;> exact pauses)
  cases r' with
  | error e => exact ⟨pool, opened, starts⟩
  | ok _ =>
    have ended : t.jobs.all Job.hasEnded := (past rfl (fun idle => ready.settled.spent idle) rfl).all
    have go (s : Threads) : s.Discreet (.go .caller) := trivial
    cases pool with
    | closed => exact absurd rfl opened
    | absent => exact ⟨.absent, nofun, starts.tail (.move (go _) rfl)⟩
    | serving =>
      refine ⟨.absent, nofun, (starts.tail (.move (go _) rfl)).tail (.move (go _) (move_of_moved ?_))⟩
      have drained : Op.drain.exec .caller ⟨t, .closed⟩ = some (⟨t, .absent⟩, none) := if_pos ended
      have moved := Moved.exec (s := { session := t, pool := .closed, caller := [⟨[], .drain⟩] }) rfl drained
      exact moved

omit reacts follows in
/-- The caller starts a run: the observers of the start watch it, and then the worker has a job. -/
theorem execution_of_run {delay : Delay} {r : Except Failure Reply}
    (h : Session.run react delay s = some (r, t)) :
    ∃ pool', pool' ≠ .closed ∧
      Execution Discreet { session := s, pool } { session := t, pool := pool' } := by
  let T : Threads := { session := s, pool }
  have ends (h : T.Proceeds .caller s [⟨[], .enter (.run delay)⟩] t []) : ∃ pool', pool' ≠ .closed ∧
      Execution Discreet { session := s, pool } { session := t, pool := pool' } :=
    ⟨pool, opened, execution_of_proceeds (c := .run delay) h⟩
  unfold Session.run at h
  split at h
  · rename_i refused
    cases h
    exact ends (proceeds_refused refused)
  · rename_i idle
    have enters : T.Proceeds .caller s [⟨[], .enter (.run delay)⟩] s [⟨[], .pace delay⟩] :=
      proceeds_enter idle
    split at h <;> rename_i checked
    · cases h
      exact ends (.trans enters (proceeds_leave (by rw [Op.exec, checked])))
    · rename_i overlong
      have paces : T.Proceeds .caller s [⟨[], .enter (.run delay)⟩] s [⟨[], .begin overlong⟩] :=
        .trans enters (proceeds_goOn (by rw [Op.exec, checked]))
      split at h
      · rename_i lost
        cases h
        exact ends (.trans paces (proceeds_leave (if_pos lost)))
      · rename_i kept
        obtain ⟨u, told, same⟩ := Option.bind_eq_some_iff.mp h
        cases same
        have silent : (s.withController s.controller.begin).Silent .started := ready.settled.silent
        obtain ⟨controller, jobs, current, adds⟩ := Session.notify_of_silent silent told
        have begins : T.Proceeds .caller s [⟨[], .enter (.run delay)⟩] u [⟨[], .submit overlong⟩] :=
          .trans paces (.trans (proceeds_goOn (if_neg kept))
            (.trans (proceeds_look ⟨controller, jobs, current, adds⟩) proceeds_tell))
        have starts : Execution Discreet { session := s, pool }
            { session := u, pool, caller := [⟨[], .submit overlong⟩] } :=
          .head (step_call (.run delay)) begins
        have go (s : Threads) : s.Discreet (.go .caller) := trivial
        let submitted : Threads :=
          { session := { u with jobs := u.jobs ++ [.pending overlong] }, pool := .serving,
            caller := [⟨[], .keep u.jobs.length⟩] }
        have submits : Execution Discreet { session := s, pool } submitted := by
          refine starts.tail (.move (go _) ?_)
          cases pool with
          | closed => exact absurd rfl opened
          | absent | serving => rfl
        exact ⟨.serving, by rintro ⟨⟩, submits.tail (.move (go submitted) rfl)⟩

end Reactions

/-- What a session does at once, the threads do in some moves. -/
theorem execution_of_serves (ready : Ready s) (opened : pool ≠ .closed) (h : s.Serves t) :
    Ready t ∧ ∃ pool', pool' ≠ .closed ∧
      Execution Discreet { session := s, pool } { session := t, pool := pool' } := by
  have settled := (h.moves.settled ready.settled).1
  cases h with
  | turn waiting turned =>
    have made := Session.does_of_turn Session.reacts_perform ready.only waiting turned
    exact ⟨⟨settled, made.only ready.only⟩, pool, opened,
      proceeds_turn (T := { session := s, pool }) Session.reacts_perform follows_perform free_resting
        ready.only rfl ready.settled.orderly waiting turned⟩
  | expire running current =>
    rename_i j
    refine ⟨⟨settled, ready.only⟩, pool, opened, execution_of_proceeds (c := .pause) ?_⟩
    let T : Threads := { session := s, pool }
    have pauses : T.Proceeds .caller s [⟨[], .pause .nothing⟩] s [⟨[], .requestStop .nothing⟩] :=
      proceeds_goOn (by rw [Op.exec, if_pos running])
    have asks : T.Proceeds .caller s [⟨[], .requestStop .nothing⟩]
        (s.withController s.controller.requestStop) [⟨[], .seek .nothing⟩] := proceeds_goOn rfl
    replace current : (s.withController s.controller.requestStop).current = some j := current
    generalize s.withController s.controller.requestStop = t at asks current ⊢
    have seeks : T.Proceeds .caller t [⟨[], .seek .nothing⟩] t [⟨[], .await j .nothing⟩] :=
      proceeds_goOn (by rw [Op.exec, current])
    exact .trans pauses (.trans asks (.trans seeks (.trans proceeds_stopAwaiting (proceeds_leave rfl))))
  | call may performed =>
    rename_i depth turns c r
    cases depth with
    | zero => cases performed
    | succ depth =>
      rcases may with given | run | rfl
      · have made := Session.does_of_perform ready.only (.inl given) performed
        have follows : Follows (Session.perform (depth + 1) turns) := follows_perform
        exact ⟨⟨settled, made.only ready.only⟩, pool, opened, execution_of_proceeds
          (follows free_resting ready.fits given ready.only performed)⟩
      · cases c with
        | run delay =>
          refine ⟨⟨settled, ?_⟩, execution_of_run ready opened performed⟩
          rcases Session.run_eq_some performed with rfl | ⟨-, rfl⟩ | ⟨overlong, u, -, told, rfl⟩
          · exact ready.only
          · exact ready.only
          · have only : (s.withController s.controller.begin).Only Call.Subdued := ready.only
            exact (Session.does_of_notify Session.reacts_perform only told).only only
        | _ => cases run
      · have made := Session.does_of_shutdown Session.reacts_perform ready.only performed
        exact ⟨⟨settled, made.only ready.only⟩,
          execution_of_shutdown Session.reacts_perform follows_perform ready opened performed⟩

/-- **A session is a schedule of the threads.** All that a session goes through without runs and shutdowns by
observers, and without calls at the start of a run, two threads go through as well. -/
theorem execution_of_session {c : Controller} {recorded : Bool}
    (lived : Relation.ReflTransGen Session.Serves (.create c recorded) s) :
    ∃ pool, Execution Discreet (ofSession (.create c recorded)) { session := s, pool } := by
  suffices Ready s ∧ ∃ pool, pool ≠ .closed ∧
      Execution Discreet (ofSession (.create c recorded)) { session := s, pool } by
    obtain ⟨-, pool, -, execution⟩ := this
    exact ⟨pool, execution⟩
  induction lived with
  | refl => exact ⟨⟨Session.settled_create c recorded, nofun⟩, .absent, nofun, .refl⟩
  | tail _ serves ih =>
    obtain ⟨ready, pool, opened, first⟩ := ih
    obtain ⟨ready, pool', opened, next⟩ := execution_of_serves ready opened serves
    exact ⟨ready, pool', opened, first.trans next⟩

end Threads

end PocketMips.Simulator
