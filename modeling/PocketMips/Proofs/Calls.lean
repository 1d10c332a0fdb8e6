import PocketMips.Proofs.Execution
import PocketMips.Proofs.Extent

/-!
# What calls do

Every call that returns is a sequence of the changes of a session, whatever the observers are and do. A
change that a call alone can make is there only if such a call is made.
-/
namespace PocketMips.Simulator.Session

variable {P : Call → Prop} {react : Reaction} {s t : Session}

section Reactions

variable (reacts : Reacts P react) (only : s.Only P)
include reacts only

omit reacts only in
theorem idle_of_requireIdle {action : String} (h : s.requireIdle action = .ok ()) :
    s.controller.status = .idle := by
  unfold requireIdle at h
  split at h
  · cases h
  · exact Controller.idle_of_not_running ‹_›

theorem does_of_install {c : Call} {program : List Word} {labels : Assembly.Labels} {event : Event}
    {reply : Controller → Reply} {r : Except Failure Reply} (given : P c ∨ ∃ e, r = .error e)
    (replaces : c.Replaces) (idle : s.controller.status = .idle)
    (source : c.Loads ∨ (program = s.controller.program ∧ labels = s.controller.labels))
    (h : install react s program labels event reply = some (r, t)) : Does P s t := by
  unfold install at h
  split at h
  · rename_i placed
    cases h
    exact .misplace idle placed
  · rename_i placed
    obtain ⟨u, told, same⟩ := Option.map_eq_some_iff.mp h
    cases same
    have given : P c := given.resolve_right (by rintro ⟨e, ⟨⟩⟩)
    exact .trans (.place given replaces idle placed source)
      (does_of_notify reacts (only.congr rfl) told)

omit reacts only in
/-- A load is refused, or it puts a program in place while the controller is idle. -/
theorem respond_load {turns : Nat} {c : Call} {r : Except Failure Reply} (loads : c.Loads)
    (h : respond react turns c s = some (r, t)) :
    ((∃ e, r = .error e) ∧ t = s) ∨ (s.controller.status = .idle ∧
      ∃ program labels, installNew react s program labels = some (r, t)) := by
  cases c with
  | load source =>
    replace h : load react source s = _ := h
    unfold load at h
    split at h
    · cases h
      exact .inl ⟨⟨_, rfl⟩, rfl⟩
    · rename_i free
      split at h
      · cases h
        exact .inl ⟨⟨_, rfl⟩, rfl⟩
      · exact .inr ⟨idle_of_requireIdle free, _, _, h⟩
  | loadWords words =>
    replace h : loadWords react words s = _ := h
    unfold loadWords at h
    split at h
    · cases h
      exact .inl ⟨⟨_, rfl⟩, rfl⟩
    · rename_i free
      exact .inr ⟨idle_of_requireIdle free, _, _, h⟩
  | loadBytes image =>
    replace h : loadBytes react image s = _ := h
    unfold loadBytes at h
    split at h
    · cases h
      exact .inl ⟨⟨_, rfl⟩, rfl⟩
    · rename_i free
      split at h
      · cases h
        exact .inl ⟨⟨_, rfl⟩, rfl⟩
      · exact .inr ⟨idle_of_requireIdle free, _, _, h⟩
  | _ => cases loads

omit reacts only in
/-- A load that succeeds has put its program in place, and the observers have been told. -/
theorem respond_load_eq_ok {turns : Nat} {c : Call} {reply : Reply} (loads : c.Loads)
    (h : respond react turns c s = some (.ok reply, t)) :
    ∃ program labels after, s.controller.place program labels = (.ok (), after) ∧
      reply = .words program ∧
      notify react .loaded after.stored ((s.withController after).log .placed) = some t := by
  rcases respond_load loads h with ⟨⟨e, ⟨⟩⟩, -⟩ | ⟨-, program, labels, h⟩
  unfold installNew install at h
  split at h
  · cases h
  · rename_i after placed
    obtain ⟨u, told, same⟩ := Option.map_eq_some_iff.mp h
    cases same
    exact ⟨program, labels, after, placed, rfl, told⟩

theorem does_of_load {turns : Nat} {c : Call} {r : Except Failure Reply} (loads : c.Loads)
    (given : P c ∨ ∃ e, r = .error e) (h : respond react turns c s = some (r, t)) : Does P s t := by
  rcases respond_load loads h with ⟨-, rfl⟩ | ⟨idle, program, labels, h⟩
  · exact .refl
  · exact does_of_install reacts only given (.inl loads) idle (.inl loads) h

theorem does_of_step {r : Except Failure Reply} (h : step react s = some (r, t)) : Does P s t := by
  unfold step at h
  split at h
  · cases h
    exact .refl
  · rename_i free
    obtain ⟨⟨r', u⟩, advanced, same⟩ := Option.map_eq_some_iff.mp h
    cases same
    exact does_of_single reacts only (.inl (idle_of_requireIdle free)) advanced

theorem does_of_runToCompletion {limit : Int} {r : Except Failure Reply}
    (h : runToCompletion react limit s = some (r, t)) : Does P s t := by
  unfold runToCompletion at h
  split at h
  · cases h
    exact .refl
  · rename_i free
    split at h
    · cases h
      exact .refl
    · obtain ⟨⟨r', u⟩, completed, same⟩ := Option.map_eq_some_iff.mp h
      cases same
      exact does_of_complete reacts only (.inl (idle_of_requireIdle free)) completed

omit reacts only in
/-- A run is refused, or the controller takes it for started only, or the observers are told of it and
there is a job. -/
theorem run_eq_some {delay : Delay} {r : Except Failure Reply} (h : run react delay s = some (r, t)) :
    t = s ∨ (s.controller.lost = true ∧ t = s.withController s.controller.running) ∨
      ∃ overlong u, s.controller.status = .idle ∧
        notify react .started s.controller.begin.stored (s.withController s.controller.begin) =
          some u ∧ t = u.queued overlong := by
  unfold run at h
  split at h
  · cases h
    exact .inl rfl
  · rename_i free
    split at h
    · cases h
      exact .inl rfl
    · rename_i overlong _
      split at h
      · rename_i lost
        cases h
        exact .inr (.inl ⟨lost, rfl⟩)
      · obtain ⟨u, told, same⟩ := Option.bind_eq_some_iff.mp h
        cases same
        exact .inr (.inr ⟨overlong, u, idle_of_requireIdle free, told, rfl⟩)

theorem does_of_run {delay : Delay} {r : Except Failure Reply} (given : P (.run delay))
    (h : run react delay s = some (r, t)) : Does P s t := by
  rcases run_eq_some h with rfl | ⟨lost, rfl⟩ | ⟨overlong, u, idle, told, rfl⟩
  · exact .refl
  · exact .stick given lost
  · exact .launch overlong given idle (does_of_notify reacts (only.congr rfl) told)

theorem does_of_wait {turns : Nat} {r : Except Failure Reply} (h : wait react turns s = some (r, t)) :
    Does P s t := by
  unfold wait at h
  split at h
  · cases h
    exact .refl
  · obtain ⟨⟨answer, u⟩, demanded, h⟩ := Option.bind_eq_some_iff.mp h
    have made := (does_of_demand reacts only demanded).1
    split at h <;> (rename_i same; cases same; cases h; exact made)

theorem does_of_rest {r : Except Failure Reply} (awaited : s.Awaited ∨ ∃ delay, P (.run delay))
    (h : rest react { s with current := none } = some (r, t)) : Does P s t := by
  refine .trans (.rest awaited) ?_
  unfold rest at h
  unfold rested
  split at h
  · rename_i lost
    cases h
    rw [if_pos lost]
    exact .refl
  · rename_i kept
    obtain ⟨u, told, same⟩ := Option.bind_eq_some_iff.mp h
    cases same
    rw [if_neg kept]
    exact does_of_notify reacts (only.congr rfl) told

theorem does_of_pause {turns : Nat} {r : Except Failure Reply} (h : pause react turns s = some (r, t)) :
    Does P s t := by
  unfold pause at h
  split at h
  · cases h
    exact .refl
  · dsimp only at h
    have only := (Does.requestStop (P := P)).only only
    refine .trans .requestStop ?_
    generalize s.withController s.controller.requestStop = s at h only
    split at h
    · rename_i nothing
      have same : { s with current := none } = s := by rw [← nothing]
      rw [← same] at h
      exact does_of_rest reacts only (.inl fun j is => by rw [nothing] at is; cases is) h
    · rename_i j waited
      obtain ⟨⟨answer, u⟩, demanded, h⟩ := Option.bind_eq_some_iff.mp h
      obtain ⟨made, ended⟩ := does_of_demand reacts only demanded
      refine .trans made ?_
      split at h
      · rename_i same
        cases same
        cases h
        exact .refl
      · rename_i same
        cases same
        cases h
        exact .refl
      · rename_i same
        cases same
        refine does_of_rest reacts (made.only only) ?_ h
        by_cases runs : ∃ delay, P (.run delay)
        · exact .inr runs
        · refine .inl fun k is => ⟨none, ?_⟩
          rcases made.current (not_exists.mp runs) with same | gone
          · rw [same, waited] at is
            cases is
            exact ended _ rfl
          · rw [gone] at is
            cases is

theorem does_of_pauseIfRunning {turns : Nat} {r : Except Failure Unit}
    (h : pauseIfRunning react turns s = some (r, t)) : Does P s t := by
  unfold pauseIfRunning at h
  split at h
  · obtain ⟨⟨r', u⟩, paused, same⟩ := Option.map_eq_some_iff.mp h
    cases same
    exact does_of_pause reacts only paused
  · cases h
    exact .refl

theorem does_of_reset {turns : Nat} {r : Except Failure Reply}
    (given : P .reset ∨ ∃ e, r = .error e) (h : reset react turns s = some (r, t)) : Does P s t := by
  obtain ⟨⟨r', u⟩, paused, h⟩ := Option.bind_eq_some_iff.mp h
  have made := does_of_pauseIfRunning reacts only paused
  refine .trans made ?_
  split at h
  · rename_i same
    cases same
    cases h
    exact .refl
  · rename_i same
    cases same
    split at h
    · cases h
      exact .refl
    · rename_i free
      exact does_of_install reacts (made.only only) given (.inr rfl) (idle_of_requireIdle free)
        (.inr ⟨rfl, rfl⟩) h

theorem does_of_shutdown {turns : Nat} {r : Except Failure Reply}
    (h : shutdown react turns s = some (r, t)) : Does P s t := by
  obtain ⟨⟨r', u⟩, paused, same⟩ := Option.map_eq_some_iff.mp h
  cases same
  exact does_of_pauseIfRunning reacts only paused

theorem does_of_setClock {settings : Value.Entries} {r : Except Failure Reply}
    (given : P (.setClock settings))
    (h : setClockTo react (clockOf settings) s = some (r, t)) : Does P s t := by
  unfold setClockTo at h
  split at h
  · cases h
    exact .refl
  · rename_i clock _
    obtain ⟨u, told, same⟩ := Option.bind_eq_some_iff.mp h
    cases same
    exact .trans (.setClock clock given) (does_of_notify reacts (only.congr rfl) told)

theorem does_of_respond {turns : Nat} {c : Call} {r : Except Failure Reply}
    (given : c.Throughout P ∨ c.Replaces ∧ ∃ e, r = .error e)
    (h : respond react turns c s = some (r, t)) : Does P s t := by
  have made := given.imp_left Call.Throughout.self
  have other (keeps : ¬c.Replaces) : P c := made.resolve_right fun failed => keeps failed.1
  cases c with
  | load source | loadWords words | loadBytes image =>
    exact does_of_load reacts only (by trivial) (made.imp_right And.right) h
  | step => exact does_of_step reacts only h
  | runToCompletion limit => exact does_of_runToCompletion reacts only h
  | run delay => exact does_of_run reacts only (other nofun) h
  | wait => exact does_of_wait reacts only h
  | pause => exact does_of_pause reacts only h
  | reset => exact does_of_reset reacts only (made.imp_right And.right) h
  | shutdown => exact does_of_shutdown reacts only h
  | setClock settings => exact does_of_setClock reacts only (other nofun) h
  | setRegister index value =>
    have written : s.setRegister index value = (r, t) := Option.some.inj h
    unfold setRegister at written
    dsimp only at written
    split at written
    · cases written
      exact .write _ (other nofun) trivial rfl
    · cases written
      exact .refl
  | setPc value =>
    cases h
    exact .setPc (other nofun)
  | memory access =>
    have written : s.accessMemory access = (r, t) := Option.some.inj h
    unfold accessMemory at written
    dsimp only at written
    split at written
    · rename_i performed
      cases written
      exact .write _ (other nofun) trivial (Memory.extent_of_perform performed)
    · cases written
      exact .refl
  | mute =>
    cases h
    exact .remove _
  | subscribe name event turn acts fails =>
    cases h
    exact .subscribe (given.resolve_right nofun)
  | unsubscribe name =>
    cases h
    unfold unsubscribe
    split
    · exact .refl
    · exact .remove _
  | register name | wordAt address | timeText =>
    cases h
    exact .refl

end Reactions

/-- The calls of observers do what calls with the same property do, however deep they are. -/
theorem reacts_perform {depth turns : Nat} : Reacts P (perform depth turns) := by
  induction depth with
  | zero =>
    intro c s t r _ _ h
    cases h
  | succ depth ih =>
    intro c s t r given only h
    exact does_of_respond ih only (.inl given) h

theorem does_of_perform {depth turns : Nat} {c : Call} {r : Except Failure Reply} (only : s.Only P)
    (given : c.Throughout P ∨ c.Replaces ∧ ∃ e, r = .error e)
    (h : perform depth turns c s = some (r, t)) : Does P s t := by
  cases depth with
  | zero => cases h
  | succ depth => exact does_of_respond reacts_perform only given h

/-- A load that succeeds answers with its program. -/
theorem reply_of_load {depth turns : Nat} {c : Call} {reply : Reply} (loads : c.Loads)
    (h : perform depth turns c s = some (.ok reply, t)) : ∃ program, reply = .words program := by
  cases depth with
  | zero => cases h
  | succ depth =>
    obtain ⟨program, -, -, -, same, -⟩ := respond_load_eq_ok loads h
    exact ⟨program, same⟩

/-- A change of the clock is refused, or the observers are told of it and that is all. -/
theorem setClock_eq_some {depth turns : Nat} {settings : Value.Entries} {r : Except Failure Reply}
    (h : perform depth turns (.setClock settings) s = some (r, t)) :
    ((∃ e, r = .error e) ∧ t = s) ∨ ((∃ reply, r = .ok reply) ∧ ∃ depth' clock,
      notify (perform depth' turns) .clock s.controller.stored
        (s.withController { s.controller with clock }) = some t) := by
  cases depth with
  | zero => cases h
  | succ depth =>
    replace h : setClockTo (perform depth turns) (clockOf settings) s = some (r, t) := h
    unfold setClockTo at h
    split at h
    · cases h
      exact .inl ⟨⟨_, rfl⟩, rfl⟩
    · rename_i clock _
      obtain ⟨u, told, same⟩ := Option.bind_eq_some_iff.mp h
      cases same
      exact .inr ⟨⟨_, rfl⟩, depth, clock, told⟩

end PocketMips.Simulator.Session
