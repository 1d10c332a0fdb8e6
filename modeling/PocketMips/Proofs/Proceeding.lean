import PocketMips.Proofs.Handover
import PocketMips.Proofs.Turns

/-!
# A thread proceeds as a session does

While the other thread waits, a thread may do in its own moves what a session does at once: tell the observers,
execute instructions, put programs in place, and have turns. The observers' calls are followed in the same way.
-/
namespace PocketMips.Simulator

namespace Call

/-- Starts no run, does not close the pool of the worker, and subscribes only observers without calls of their
own to the starts of runs. -/
def Subdued (c : Call) : Prop := c.Quiet ∧ c ≠ .shutdown

theorem Subdued.not_run {c : Call} (h : c.Subdued) : ¬c.IsRun := by
  cases c with
  | run => exact absurd h.1 id
  | _ => exact id

end Call

namespace Session

variable {s : Session}

theorem Looks.told (who : ObserverId) (event : Event) (snapshot : Snapshot) :
    s.Looks (s.log (.told who event snapshot s.controller)) :=
  ⟨rfl, rfl, rfl, .of_cons rfl fun _ _ is => by cases is⟩

theorem Looks.replied (c : Call) (r : Except Failure Reply) : s.Looks (s.log (.replied c r)) :=
  ⟨rfl, rfl, rfl, .of_cons rfl fun _ _ is => by cases is⟩

theorem Looks.seen (who : ObserverId) : s.Looks (s.countSeen who) := ⟨rfl, rfl, rfl, .of_eq rfl⟩

theorem Looks.subscribe (name : String) (o : Observer) : s.Looks (s.subscribe name o) :=
  ⟨rfl, rfl, rfl, .of_eq rfl⟩

theorem Looks.remove (who : ObserverId) : s.Looks (s.remove who) := ⟨rfl, rfl, rfl, .of_eq rfl⟩

theorem Looks.unsubscribe (name : String) : s.Looks (s.unsubscribe name) := by
  unfold Session.unsubscribe
  split
  · exact ⟨rfl, rfl, rfl, .of_eq rfl⟩
  · exact .remove _

end Session

namespace Threads

/-! ## What a thread is at -/

variable {T : Threads} {thread : Thread} {s t u : Session} {op : Op} {told : Event × Snapshot} {news : News}
  {frames : List Frame}

/-- The session is another one, and a thread is at something else first. -/
def doing (T : Threads) (thread : Thread) (s : Session) (frames : List Frame) : Threads :=
  { T with session := s }.withFrames (frames ++ T.frames thread) thread

theorem frames_doing : (T.doing thread s frames).frames thread = frames ++ T.frames thread :=
  frames_withFrames _

theorem toShared_doing : (T.doing thread s frames).toShared = ⟨s, T.pool⟩ :=
  toShared_withFrames _

theorem withFrames_doing {frames' : List Frame} :
    { T.doing thread s frames with toShared := ⟨t, T.pool⟩ }.withFrames (frames' ++ T.frames thread)
      thread = T.doing thread t frames' := by
  cases thread <;> rfl

/-- A thread does something while the other one waits. -/
abbrev Proceeds (T : Threads) (thread : Thread) (s : Session) (before : List Frame) (t : Session)
    (after : List Frame) : Prop :=
  Execution Discreet (T.doing thread s before) (T.doing thread t after)

theorem proceeds_of_moved (choice : Choice) (frames' : List Frame)
    (may : (T.doing thread s frames).Discreet choice)
    (moved : (T.doing thread s frames).Moved choice
      ({ T.doing thread s frames with toShared := ⟨t, T.pool⟩ }.withFrames (frames' ++ T.frames thread)
        thread)) :
    T.Proceeds thread s frames t frames' := by
  rw [withFrames_doing] at moved
  exact .single (.move may (move_of_moved moved))

/-- A call goes on unless it has failed. -/
def unlessFailed {α : Type} (r : Except Failure α) (next : Op) : List Frame :=
  match r with
  | .ok _ => [⟨[], next⟩]
  | .error _ => []

theorem proceeds_leave (executed : op.exec thread ⟨s, T.pool⟩ = Shared.leave ⟨s, T.pool⟩ t) :
    T.Proceeds thread s [⟨[], op⟩] t [] := by
  have executed : op.exec thread (T.doing thread s [⟨[], op⟩]).toShared = some (⟨t, T.pool⟩, none) := by
    rw [toShared_doing, executed]
    rfl
  have moved := Moved.exec frames_doing executed
  exact proceeds_of_moved (.go thread) [] trivial moved

theorem proceeds_goOn {next : Op}
    (executed : op.exec thread ⟨s, T.pool⟩ = Shared.goOn ⟨s, T.pool⟩ t next news) :
    T.Proceeds thread s [⟨[], op⟩] t [⟨news, next⟩] := by
  have executed : op.exec thread (T.doing thread s [⟨[], op⟩]).toShared =
      some (⟨t, T.pool⟩, some ⟨news, next⟩) := by
    rw [toShared_doing, executed]
    rfl
  have moved := Moved.exec frames_doing executed
  exact proceeds_of_moved (.go thread) [_] trivial moved

theorem proceeds_enter {action : String} {c : Call} (idle : s.requireIdle action = .ok ()) :
    T.Proceeds thread s [⟨[], .enter c⟩] s [⟨[], s.entered c⟩] := by
  unfold Session.requireIdle at idle
  split at idle
  · cases idle
  · exact proceeds_goOn (if_neg ‹_›)

theorem proceeds_refused {action : String} {c : Call} {e : Failure} (busy : s.requireIdle action = .error e) :
    T.Proceeds thread s [⟨[], .enter c⟩] s [] := by
  unfold Session.requireIdle at busy
  split at busy
  · exact proceeds_leave (if_pos ‹_›)
  · cases busy

theorem proceeds_stopAwaiting {j : Nat} {after : After} :
    T.Proceeds thread s [⟨[], .await j after⟩] s [⟨[], after.op⟩] :=
  proceeds_of_moved (.giveUp thread) [_] trivial
    (toShared_doing ▸ .stopAwaiting frames_doing)

theorem proceeds_stopJoining {j : Nat} : T.Proceeds thread s [⟨[], .join j⟩] s [] :=
  proceeds_of_moved (.giveUp thread) [] trivial
    (toShared_doing ▸ .stopJoining frames_doing)

/-- The worker takes up a job, the only unfinished one. -/
theorem proceeds_take {j : Nat} {overlong : Bool} (resting : T.worker = []) (orderly : s.Orderly)
    (waiting : s.jobs[j]? = some (.pending overlong)) :
    T.Proceeds .worker s [] (s.setJob j .working) [⟨[], .turn j overlong⟩] := by
  have current := orderly.current j (Session.unfinished_of_pending waiting)
  have first : (s.jobs.take j).all Job.hasEnded := by
    refine List.all_eq_true.mpr fun job mem => ?_
    obtain ⟨i, less, is⟩ := List.mem_take_iff_getElem.mp mem
    refine Session.hasEnded_of_not_unfinished (List.getElem?_eq_some_iff.mpr ⟨_, is⟩) fun going => ?_
    have same := orderly.current i going
    rw [current] at same
    cases same
    omega
  refine proceeds_of_moved (.take j) [_] trivial ?_
  rw [show T.frames .worker = [] from resting]
  exact .take (by rw [doing, show T.frames .worker = [] from resting]; rfl) waiting first

theorem proceeds_tell : T.Proceeds thread s [⟨told :: news, op⟩] s [⟨news, op⟩] :=
  proceeds_of_moved (.go thread) [_] trivial (toShared_doing ▸ .tell frames_doing)

theorem proceeds_act {c : Call} (may : (T.doing thread s [⟨told :: news, op⟩]).Discreet (.act thread c)) :
    T.Proceeds thread s [⟨told :: news, op⟩] s [⟨[], c.op⟩, ⟨told :: news, op⟩] :=
  proceeds_of_moved (.act thread c) [_, _] may (toShared_doing ▸ .act frames_doing)

theorem proceeds_look (looks : s.Looks t) : T.Proceeds thread s frames t frames := by
  have same : { T.doing thread s frames with session := t } = T.doing thread t frames := by
    cases thread <;> rfl
  have step : Step Discreet (T.doing thread s frames) { T.doing thread s frames with session := t } :=
    .look (by rwa [toShared_doing])
  exact .single (same ▸ step)

/-- A thread proceeds so whatever it comes back to. -/
theorem proceeds_doing {before after frames : List Frame}
    (h : (T.doing thread u frames).Proceeds thread s before t after) :
    T.Proceeds thread s (before ++ frames) t (after ++ frames) := by
  have same (s : Session) (inner : List Frame) :
      (T.doing thread u frames).doing thread s inner = T.doing thread s (inner ++ frames) := by
    cases thread <;> simp only [doing, withFrames, Threads.frames, List.append_assoc]
  rw [Proceeds, same, same] at h
  exact h

/-! ## Observers -/

/-- What a session has to be like for a thread to do something: no more than one job is unfinished, and it has
its turn if the worker does that. -/
structure Fits (thread : Thread) (s : Session) : Prop where
  orderly : s.Orderly
  resting : thread = .caller → ∀ j : Nat, s.jobs[j]? ≠ some .working
  engaged : thread = .worker → ∃ j, s.Engaged j

theorem Fits.does (h : Fits thread s) (made : Session.Does Call.Subdued s t) : Fits thread t := by
  obtain ⟨orderly, keeps, -⟩ := made.orderly (fun _ given => given.not_run trivial) h.orderly
  refine ⟨orderly, fun is j working => h.resting is j (made.working working), fun is => ?_⟩
  obtain ⟨j, engaged⟩ := h.engaged is
  exact ⟨j, (keeps j engaged).1⟩

theorem Fits.keeps (h : Fits thread s) (keeps : s.Keeps t) : Fits thread t := by
  refine ⟨h.orderly.congr keeps.jobs keeps.current keeps.status, fun is j => ?_, fun is => ?_⟩
  · rw [keeps.jobs]
    exact h.resting is j
  · obtain ⟨j, is, working⟩ := h.engaged is
    exact ⟨j, keeps.current.trans is, by rw [keeps.jobs, working]⟩

/-- The other threads' part: the caller starts nothing, and the worker waits for its turn if the caller does
something. -/
structure Free (T : Threads) (thread : Thread) : Prop where
  calm : ¬T.outline.Starting
  alone : thread = .caller → T.worker = []

theorem Free.doing (h : T.Free thread) (other : op.role ≠ .start) :
    (T.doing thread s [⟨news, op⟩]).Free thread := by
  cases thread with
  | caller =>
    refine ⟨?_, h.alone⟩
    rintro ⟨op', mem, start⟩
    rcases List.mem_cons.mp mem with rfl | mem
    · exact other start
    · exact h.calm ⟨op', mem, start⟩
  | worker => exact ⟨h.calm, nofun⟩

/-- What observers call, a thread does. -/
def Follows (react : Reaction) : Prop :=
  ∀ {T : Threads} {thread : Thread} {c : Call} {s t : Session} {r : Except Failure Reply}, T.Free thread →
    Fits thread s → c.Throughout Call.Subdued → s.Only Call.Subdued → react c s = some (r, t) →
    T.Proceeds thread s [⟨[], c.op⟩] t []

variable {react : Reaction} (reacts : Session.Reacts Call.Subdued react) (follows : Follows react)

section Calls

variable (free : T.Free thread) (fits : Fits thread s) (only : s.Only Call.Subdued)
include reacts follows free fits only

theorem proceeds_notify {event : Event} {snapshot : Snapshot} (other : op.role ≠ .start)
    (h : Session.notify react event snapshot s = some t) :
    T.Proceeds thread s [⟨(event, snapshot) :: news, op⟩] t [⟨news, op⟩] := by
  let R (s t : Session) : Prop := Fits thread s → Fits thread t ∧
    T.Proceeds thread s [⟨(event, snapshot) :: news, op⟩] t [⟨(event, snapshot) :: news, op⟩]
  have looking {s t : Session} (looks : s.Looks t) : R s t :=
    fun fits => ⟨fits.keeps looks.keeps, proceeds_look looks⟩
  have tells : Session.Telling R := {
    refl := fun fits => ⟨fits, .refl⟩
    trans := fun first second fits =>
      ⟨(second (first fits).1).1, (first fits).2.trans (second (first fits).1).2⟩
    told := fun who event snapshot => looking (.told who event snapshot)
    replied := fun c r => looking (.replied c r)
    seen := fun who => looking (.seen who) }
  have calls {c : Call} {s t : Session} {r : Except Failure Reply} (given : c.Throughout Call.Subdued)
      (only : s.Only Call.Subdued) (h : react c s = some (r, t)) : R s t ∧ t.Only Call.Subdued := by
    have made := reacts given only h
    refine ⟨fun fits => ⟨fits.does made, ?_⟩, made.only only⟩
    have may : (T.doing thread s [⟨(event, snapshot) :: news, op⟩]).Discreet (.act thread c) :=
      ⟨given.self.not_run, fun starting => absurd starting (free.doing other).calm⟩
    exact .trans (proceeds_act may) (proceeds_doing (u := s) (follows (free.doing other) fits given only h))
  exact .trans ((Session.rel_of_notify tells calls only h).1 fits).2 proceeds_tell

/-! ## Executing instructions -/

theorem proceeds_announce {news : News} (other : op.role ≠ .start)
    (h : Session.announce react news s = some t) :
    T.Proceeds thread s [⟨news, op⟩] t [⟨[], op⟩] := by
  induction news generalizing s with
  | nil =>
    cases h
    exact .refl
  | cons told news ih =>
    obtain ⟨event, snapshot⟩ := told
    obtain ⟨u, first, rest⟩ := Option.bind_eq_some_iff.mp h
    have made := Session.does_of_notify reacts only first
    exact .trans (proceeds_notify reacts follows free fits only other first)
      (ih (fits.does made) (made.only only) rest)

/-- Observers are told of a cycle, and the answer is by what has been executed. -/
theorem proceeds_advance {driver : Driver} {r : Except Failure Snapshot}
    (kept : s.controller.lost = false) (h : Session.advance react driver s = some (r, t)) :
    r = Session.answerOf (s.executed driver).controller s.controller.executeNext.1 ∧
      ∀ op : Op, op.role ≠ .start →
        T.Proceeds thread (s.executed driver) [⟨s.controller.news, op⟩] t [⟨[], op⟩] := by
  rw [Session.advance_eq kept] at h
  obtain ⟨u, told, same⟩ := Option.map_eq_some_iff.mp h
  cases same
  exact ⟨rfl, fun op other => proceeds_announce reacts follows free
    (fits.keeps (.executed s driver)) (only.congr rfl) other told⟩

/-- An instruction is executed for a caller, who goes on unless it fails. -/
theorem proceeds_execute (limit : Option Nat) {r : Except Failure Snapshot}
    (h : Session.advance react .caller s = some (r, t)) :
    T.Proceeds thread s [⟨[], .execute limit⟩] t
      (unlessFailed r (limit.elim .done .complete)) := by
  cases lost : s.controller.lost with
  | true =>
    rw [Session.advance_of_lost lost] at h
    cases h
    exact proceeds_leave (by rw [Op.exec, if_pos lost])
  | false =>
    obtain ⟨answer, told⟩ := proceeds_advance reacts follows free fits only lost h
    have next : (limit.elim Op.done Op.complete).role ≠ .start := by
      cases limit <;> rintro ⟨⟩
    have executed : (Op.execute limit).exec thread ⟨s, T.pool⟩ = _ := if_neg (by simp [lost])
    cases outcome : s.controller.executeNext.1 with
    | completed | stepped finished =>
      simp only [outcome] at executed answer
      subst answer
      exact .trans (proceeds_goOn executed) (told _ next)
    | failed f =>
      simp only [outcome] at executed answer
      subst answer
      exact .trans (proceeds_goOn executed) (.trans (told _ (by rintro ⟨⟩)) (proceeds_leave rfl))
    | overflow =>
      rw [Session.advance_eq lost, Controller.news, outcome] at h
      simp only [outcome] at executed
      cases h
      exact proceeds_leave executed

/-- Instructions are executed for a caller until a run to completion is over. -/
theorem proceeds_complete {limit : Nat} {snapshot : Snapshot} {r : Except Failure Snapshot}
    (idle : s.controller.status = .idle) (h : Session.complete react limit snapshot s = some (r, t)) :
    T.Proceeds thread s [⟨[], .complete limit⟩] t [] := by
  induction limit generalizing s snapshot with
  | zero =>
    cases h
    exact proceeds_leave (ite_self _)
  | succ limit ih =>
    unfold Session.complete at h
    split at h
    · rename_i finished
      cases h
      exact proceeds_leave (if_pos (by simp [finished]))
    · rename_i unfinished
      obtain ⟨⟨r', u⟩, advanced, h⟩ := Option.bind_eq_some_iff.mp h
      cases lost : s.controller.lost with
      | true =>
        rw [Session.advance_of_lost lost] at advanced
        cases advanced
        cases h
        exact proceeds_leave (if_pos (by simp [lost]))
      | false =>
        have executed : (Op.complete (limit + 1)).exec thread ⟨s, T.pool⟩ =
            Shared.goOn ⟨s, T.pool⟩ s (.execute (some limit)) := if_neg (by simp [lost, unfinished])
        refine .trans (proceeds_goOn executed) ?_
        have first := proceeds_execute reacts follows free fits only (some limit) advanced
        have made := Session.does_of_single reacts only (.inl idle) advanced
        cases r' with
        | error e =>
          cases h
          exact first
        | ok snapshot =>
          have still := made.idle (fun _ given => given.not_run trivial) idle
          exact .trans first (ih (fits.does made) (made.only only) still h)

/-! ## Loading and setting -/

/-- A program is put in place, if that is possible, and the observers are told. -/
theorem proceeds_install {program : List Word} {labels : Assembly.Labels} {event : Event}
    {reply : Controller → Reply} {r : Except Failure Reply}
    (executed : op.exec thread ⟨s, T.pool⟩ = Shared.install ⟨s, T.pool⟩ program labels event)
    (h : Session.install react s program labels event reply = some (r, t)) :
    T.Proceeds thread s [⟨[], op⟩] t [] := by
  unfold Session.install at h
  unfold Shared.install at executed
  split at h <;> rename_i after placed <;> simp only [placed] at executed
  · cases h
    exact proceeds_leave executed
  · obtain ⟨u, told, same⟩ := Option.map_eq_some_iff.mp h
    cases same
    have keeps : s.Keeps ((s.withController after).log .placed) :=
      ⟨rfl, rfl, Controller.place_status placed⟩
    have told : T.Proceeds thread _ [⟨[(event, after.stored)], .done⟩] t [⟨[], .done⟩] :=
      proceeds_notify reacts follows free (fits.keeps keeps) (only.congr rfl) nofun told
    exact .trans (proceeds_goOn executed) (.trans told (proceeds_leave rfl))

theorem proceeds_load {turns : Nat} {c : Call} {r : Except Failure Reply} (loads : c.Loads)
    (h : Session.respond react turns c s = some (r, t)) : T.Proceeds thread s [⟨[], .enter c⟩] t [] := by
  cases c with
  | load source =>
    replace h : Session.load react source s = some (r, t) := h
    unfold Session.load at h
    split at h
    · rename_i refused
      cases h
      exact proceeds_refused refused
    · rename_i idle
      refine .trans (proceeds_enter idle) ?_
      split at h <;> rename_i assembled <;> simp only [Session.entered, assembled]
      · cases h
        exact proceeds_leave rfl
      · exact proceeds_install reacts follows free fits only rfl h
  | loadWords words =>
    replace h : Session.loadWords react words s = some (r, t) := h
    unfold Session.loadWords at h
    split at h
    · rename_i refused
      cases h
      exact proceeds_refused refused
    · rename_i idle
      exact .trans (proceeds_enter idle) (proceeds_install reacts follows free fits only rfl h)
  | loadBytes image =>
    replace h : Session.loadBytes react image s = some (r, t) := h
    unfold Session.loadBytes at h
    split at h
    · rename_i refused
      cases h
      exact proceeds_refused refused
    · rename_i idle
      refine .trans (proceeds_enter idle) ?_
      split at h <;> rename_i read <;> simp only [Session.entered, read]
      · cases h
        exact proceeds_leave rfl
      · exact proceeds_install reacts follows free fits only rfl h
  | _ => cases loads

theorem proceeds_setClock {settings : Value.Entries} {r : Except Failure Reply}
    (h : Session.setClockTo react (Session.clockOf settings) s = some (r, t)) :
    T.Proceeds thread s [⟨[], .setClock settings⟩] t [] := by
  unfold Session.setClockTo at h
  split at h <;> rename_i settled
  · cases h
    exact proceeds_leave (by simp only [Op.exec, settled])
  · rename_i clock
    obtain ⟨u, told, same⟩ := Option.bind_eq_some_iff.mp h
    cases same
    have keeps : s.Keeps (s.withController { s.controller with clock }) := ⟨rfl, rfl, rfl⟩
    have told : T.Proceeds thread _ [⟨[(.clock, s.controller.stored)], .done⟩] t [⟨[], .done⟩] :=
      proceeds_notify reacts follows free (fits.keeps keeps) (only.congr rfl) (by rintro ⟨⟩) told
    exact .trans (proceeds_goOn (by simp only [Op.exec, settled])) (.trans told (proceeds_leave rfl))

theorem proceeds_step {r : Except Failure Reply} (h : Session.step react s = some (r, t)) :
    T.Proceeds thread s [⟨[], .enter .step⟩] t [] := by
  unfold Session.step at h
  split at h
  · rename_i refused
    cases h
    exact proceeds_refused refused
  · rename_i idle
    obtain ⟨⟨r', u⟩, advanced, same⟩ := Option.map_eq_some_iff.mp h
    cases same
    have executed := proceeds_execute reacts follows free fits only none advanced
    refine .trans (proceeds_enter idle) ?_
    cases r' with
    | error e => exact executed
    | ok snapshot => exact .trans executed (proceeds_leave rfl)

theorem proceeds_runToCompletion {limit : Int} {r : Except Failure Reply}
    (h : Session.runToCompletion react limit s = some (r, t)) :
    T.Proceeds thread s [⟨[], .enter (.runToCompletion limit)⟩] t [] := by
  unfold Session.runToCompletion at h
  split at h
  · rename_i refused
    cases h
    exact proceeds_refused refused
  · rename_i idle
    refine .trans (proceeds_enter idle) ?_
    split at h
    · rename_i lost
      cases h
      exact proceeds_leave (if_pos (by simp [lost]))
    · obtain ⟨⟨r', u⟩, completed, same⟩ := Option.map_eq_some_iff.mp h
      cases same
      exact proceeds_complete reacts follows free fits only (Session.idle_of_requireIdle idle) completed

end Calls

/-! ## Turns -/

section Turns

variable (free : T.Free .worker) (only : s.Only Call.Subdued)
include reacts follows free only

theorem proceeds_finish {j : Nat} {failure : Option Failure} (fits : Fits .worker s)
    (h : Session.finish react j failure s = some t) :
    T.Proceeds .worker s [⟨[], .retire j failure⟩] t [] := by
  unfold Session.finish at h
  split at h
  · rename_i lost
    cases h
    exact .trans (proceeds_goOn (if_pos lost)) (proceeds_leave rfl)
  · rename_i kept
    obtain ⟨u, told, same⟩ := Option.bind_eq_some_iff.mp h
    cases same
    have fits : Fits .worker (s.withController s.controller.settle) := by
      obtain ⟨k, engaged⟩ := fits.engaged rfl
      have rested := fits.orderly.rested engaged
      rw [Session.rested, if_neg kept] at rested
      exact ⟨rested.1, nofun, fun _ => ⟨k, rested.2⟩⟩
    have told : T.Proceeds .worker _ [⟨[(.stopped, s.controller.settle.stored)], .fulfil j failure⟩] u
        [⟨[], .fulfil j failure⟩] :=
      proceeds_notify reacts follows free fits (only.congr rfl) nofun told
    exact .trans (proceeds_goOn (if_neg kept)) (.trans told (proceeds_leave rfl))

/-- The worker has a turn. -/
theorem proceeds_turn {j : Nat} {overlong : Bool} (resting : T.worker = []) (orderly : s.Orderly)
    (waiting : s.jobs[j]? = some (.pending overlong))
    (h : Session.turn react j overlong s = some t) : T.Proceeds .worker s [] t [] := by
  unfold Session.turn at h
  dsimp only at h
  obtain ⟨orderly', engaged⟩ := orderly.setJob_working waiting
  have fits : Fits .worker (s.setJob j .working) := ⟨orderly', nofun, fun _ => ⟨j, engaged⟩⟩
  have only : (s.setJob j .working).Only Call.Subdued := only.congr rfl
  refine .trans (proceeds_take resting orderly waiting) ?_
  split at h
  · rename_i stopped
    exact .trans (proceeds_goOn (by rw [Op.exec, if_pos stopped]))
      (proceeds_finish reacts follows free only fits h)
  · rename_i going
    refine .trans (proceeds_goOn (by rw [Op.exec, if_neg going])) ?_
    generalize s.setJob j .working = s at h fits only
    obtain ⟨⟨r, u⟩, advanced, h⟩ := Option.bind_eq_some_iff.mp h
    cases lost : s.controller.lost with
    | true =>
      rw [Session.advance_of_lost lost] at advanced
      cases advanced
      exact .trans (proceeds_goOn (if_pos lost)) (proceeds_finish reacts follows free only fits h)
    | false =>
      have made : Session.Does Call.Subdued (s.executed .worker) u :=
        Session.does_of_advance reacts only lost advanced
      obtain ⟨answer, told⟩ := proceeds_advance reacts follows free fits only lost advanced
      have left {failure : Option Failure} (h : Session.finish react j failure u = some t) :
          T.Proceeds .worker u [⟨[], .retire j failure⟩] t [] :=
        proceeds_finish reacts follows free (made.only (only.congr rfl))
          ((fits.keeps (.executed s .worker)).does made) h
      obtain ⟨completed, stepped⟩ := s.controller.executeNext_finished
      have executed : (Op.work j overlong).exec .worker ⟨s, T.pool⟩ = _ := if_neg (by simp [lost])
      cases outcome : s.controller.executeNext.1 with
      | completed =>
        have shown : (s.executed .worker).controller.stored.finished = true := completed outcome
        simp only [outcome] at executed answer
        subst answer
        dsimp only [Session.answerOf] at h
        rw [if_pos shown] at h
        exact .trans (proceeds_goOn executed) (.trans (told _ (by rintro ⟨⟩)) (left h))
      | stepped finished =>
        have shown : (s.executed .worker).controller.stored.finished = finished := stepped finished outcome
        simp only [outcome] at executed answer
        subst answer
        dsimp only [Session.answerOf] at h
        cases finished with
        | true =>
          rw [if_pos shown] at h
          exact .trans (proceeds_goOn executed) (.trans (told _ (by rintro ⟨⟩)) (left h))
        | false =>
          rw [if_neg (by rw [shown]; rintro ⟨⟩)] at h
          refine .trans (proceeds_goOn executed) (.trans (told _ (by rintro ⟨⟩)) ?_)
          split at h
          · rename_i wait
            exact .trans (proceeds_goOn (if_pos wait)) (left h)
          · rename_i wait
            cases h
            exact proceeds_leave (if_neg wait)
      | failed f =>
        simp only [outcome] at executed answer
        subst answer
        dsimp only [Session.answerOf] at h
        rw [Session.ofRun?_failureOf] at h
        exact .trans (proceeds_goOn executed) (.trans (told _ (by rintro ⟨⟩)) (left h))
      | overflow =>
        simp only [outcome] at executed answer
        subst answer
        exact .trans (proceeds_goOn executed) (.trans (told _ (by rintro ⟨⟩)) (left h))

/-- The worker has turns until a job has ended. -/
theorem proceeds_demand {j turns : Nat} {answer : Session.JobEnd} (resting : T.worker = [])
    (fits : Fits .caller s) (h : Session.demand react j turns s = some (answer, t)) :
    T.Proceeds .worker s [] t [] := by
  fun_induction Session.demand react j turns s with
  | case1 | case2 =>
    cases h
    exact .refl
  | case3 => cases h
  | case4 s overlong waiting turns ih =>
    have waiting := Session.getElem?_of_getD waiting (by rintro ⟨⟩)
    obtain ⟨u, turned, h⟩ := Option.bind_eq_some_iff.mp h
    have made := Session.does_of_turn reacts only waiting turned
    exact .trans (proceeds_turn reacts follows free only resting fits.orderly waiting turned)
      (ih u (made.only only) (fits.does made) h)

end Turns

end Threads

end PocketMips.Simulator
