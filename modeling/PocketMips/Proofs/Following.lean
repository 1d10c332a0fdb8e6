import PocketMips.Proofs.History

/-!
# The simulator computes what the machine computes

However a loaded program is driven, the machine of the controller is where the freshly loaded one comes by
as many cycles as the statistics count.
-/
namespace PocketMips

namespace Machine

variable {m fresh : Machine} {start : Int}

/-- A load of no instructions leaves nothing to execute, in a blank memory. -/
theorem load_nil (loaded : m.load [] start = .ok fresh) :
    fresh.hasFinished = true ∧ fresh.memory = .blank fresh.memory.extent := by
  obtain ⟨cleared, memory, clear, written, rfl⟩ := load_eq_ok loaded
  have same : memory = cleared := by
    unfold Memory.writeBytes at written
    split at written
    · cases written
    · rw [if_pos rfl] at written
      cases written
      rfl
  refine ⟨by simp [hasFinished], ?_⟩
  subst same
  unfold Memory.clear at clear
  split at clear
  · cases clear
  · cases clear
    rfl

end Machine

namespace Simulator

/-! ## The controller -/

/-- A program is in place at the load address, and the machine is where the freshly loaded one comes by as
many cycles as the controller counts, each of them executed before the program has finished. -/
structure Controller.Follows (start : Int) (program : List Word) (fresh : Machine) (c : Controller) :
    Prop where
  serves : c.setup.loadAddress.Serves start program
  reached : ∃ instrs, fresh.cycles c.statistics.total = .ok (instrs, c.machine)
  going : ∀ k < c.statistics.total, ∀ instrs m, fresh.cycles k = .ok (instrs, m) →
    m.hasFinished = false

namespace Controller.Follows

variable {start : Int} {program : List Word} {fresh : Machine} {c c' : Controller}

theorem congr (h : c.Follows start program fresh) (machine : c'.machine = c.machine)
    (statistics : c'.statistics = c.statistics) (setup : c'.setup = c.setup) :
    c'.Follows start program fresh := by
  refine ⟨?_, ?_, ?_⟩
  · rw [setup]
    exact h.serves
  · rw [machine, statistics]
    exact h.reached
  · rw [statistics]
    exact h.going

theorem of_place {program' : List Word} {labels : Assembly.Labels}
    (placed : c.place program' labels = (.ok (), c')) :
    ∃ start fresh, c.setup.loadAddress.Serves start program' ∧
      c.machine.load (Image.ofWords (program'.map fun w => w.toNat)) start = .ok fresh ∧
      c'.Follows start program' fresh := by
  obtain ⟨start, placed, serves, installed, shown⟩ := place_eq_ok placed
  obtain ⟨loaded, zero, -, setup⟩ := reinstall_eq_ok installed
  have follows : placed.Follows start program' placed.machine := by
    refine ⟨by rwa [setup], ⟨[], ?_⟩, ?_⟩
    · rw [zero]
      rfl
    · rw [zero]
      exact fun k lt => absurd lt (Nat.not_lt_zero k)
  refine ⟨start, placed.machine, serves, loaded, ?_⟩
  rcases shown with rfl | ⟨v, rfl⟩
  · exact follows
  · exact follows.congr rfl rfl rfl

theorem executeNext (h : c.Follows start program fresh) :
    c.executeNext.2.Follows start program fresh := by
  have setup := c.executeNext_frame.2
  rcases c.executeNext_cycle with ⟨machine, statistics⟩ | ⟨going, ⟨instr, cycled⟩, counted⟩
  · exact h.congr machine statistics setup
  · obtain ⟨instrs, reached⟩ := h.reached
    refine ⟨?_, ⟨instrs ++ [instr], ?_⟩, fun k lt instrs' m run => ?_⟩
    · rw [setup]
      exact h.serves
    · rw [counted]
      exact Machine.cycles_concat reached cycled
    · rw [counted] at lt
      rcases Nat.lt_or_eq_of_le (Nat.lt_succ_iff.mp lt) with lt | rfl
      · exact h.going k lt instrs' m run
      · rw [reached] at run
        cases run
        exact going

/-- A program that cannot be put in place leaves the one that is there: where the memory has been
cleared for it, only a program without instructions can be in place. -/
theorem place_error {m : Machine} {program' : List Word} {labels : Assembly.Labels} {e : Failure}
    (loaded : m.load (Image.ofWords (program.map fun w => w.toNat)) start = .ok fresh)
    (h : c.Follows start program fresh) (failed : c.place program' labels = (.error e, c')) :
    c'.Follows start program fresh := by
  rcases place_eq_error failed with rfl | ⟨none, cleared⟩
  · exact h
  · cases none start program h.serves
    obtain ⟨finished, blank⟩ := Machine.load_nil loaded
    -- no cycle has been counted, since the program has finished as it is loaded
    have nothing : c.statistics.total = 0 := by
      rcases Nat.eq_zero_or_pos c.statistics.total with zero | pos
      · exact zero
      · have going := h.going 0 pos [] fresh rfl
        rw [finished] at going
        cases going
    obtain ⟨instrs, reached⟩ := h.reached
    rw [nothing] at reached
    cases reached
    have same : c.cleared.machine = c.machine := by
      rw [Controller.cleared, ← blank]
    rcases cleared with rfl | rfl <;> exact h.congr same rfl rfl

end Controller.Follows

namespace Session

/-! ## The session -/

variable {s₀ s t : Session} {start : Int} {program : List Word} {m fresh : Machine}

theorem Does.follows
    (loaded : m.load (Image.ofWords (program.map fun w => w.toNat)) start = .ok fresh)
    (h : Does Call.Drives s t) (follows : s.controller.Follows start program fresh) :
    t.controller.Follows start program fresh ∧
      s.Adds (fun _ before => before.Follows start program fresh ∧
        before.machine.hasFinished = false) t := by
  have rested {s : Session} (follows : s.controller.Follows start program fresh) :
      s.rested.controller.Follows start program fresh := by
    unfold Session.rested
    split <;> exact follows.congr rfl rfl rfl
  induction h with
  | trans _ _ first second =>
    obtain ⟨between, adds⟩ := first follows
    obtain ⟨after, adds'⟩ := second between
    exact ⟨after, adds.trans adds'⟩
  | told | replied => exact ⟨follows, .of_cons rfl fun _ _ same => by cases same⟩
  | single _ => exact ⟨follows.executeNext, .executed fun going => ⟨follows, going⟩⟩
  | goOn _ _ _ ih =>
    obtain ⟨after, adds⟩ := ih follows.executeNext
    exact ⟨after, .trans (.executed fun going => ⟨follows, going⟩) adds⟩
  | leave _ _ _ _ first second =>
    obtain ⟨between, adds⟩ := first follows.executeNext
    obtain ⟨after, adds'⟩ := second (rested between)
    have executed := Adds.trans (.executed fun going => ⟨follows, going⟩) adds
    exact ⟨after, executed.trans adds'⟩
  | drop _ _ ih => exact ih (rested follows)
  | rest _ => exact ⟨rested follows, .of_eq rfl⟩
  | launch _ _ _ _ ih => exact ih (follows.congr rfl rfl rfl)
  | place made replaces => exact absurd replaces made.1
  | misplace _ failed => exact ⟨follows.place_error loaded failed, .of_eq rfl⟩
  | write _ made writes => exact absurd writes made.2
  | setPc made => exact absurd trivial made.2
  | _ => exact ⟨follows.congr rfl rfl rfl, .of_eq rfl⟩

/-- A load that succeeds puts its program in place, and from there all is done by calls that drive. -/
theorem does_of_loaded {depth turns : Nat} {c : Call} (driven : s₀.Only Call.Drives) (loads : c.Loads)
    (loaded : perform depth turns c s₀ = some (.ok (.words program), s))
    (history : History (fun c r => c.Throughout Call.Drives ∨ c.Replaces ∧ ∃ e, r = .error e) s t) :
    ∃ labels after, s₀.controller.place program labels = (.ok (), after) ∧
      Does Call.Drives ((s₀.withController after).log .placed) t := by
  cases depth with
  | zero => cases loaded
  | succ depth =>
    obtain ⟨_, labels, after, placed, ⟨⟩, told⟩ := respond_load_eq_ok loads loaded
    have told : Does Call.Drives ((s₀.withController after).log .placed) s :=
      does_of_notify reacts_perform (driven.congr rfl) told
    have lived := history.does (fun _ _ => id) (told.only (driven.congr rfl))
    exact ⟨labels, after, placed, told.trans lived⟩

/-- **The simulator computes what the machine computes.** After a load that succeeds, drive the simulator
by any calls that do not put another program in place or write to the machine, by turns of the worker, and
by pauses that give up waiting; loads and resets that fail may be among the calls, and the observers may
drive it as well. Then the machine is where the freshly loaded one comes by as many cycles as the statistics
count, and every cycle, also one that has failed, has been executed on this way and before the program had
finished. -/
theorem history_follows_machine {depth turns : Nat} {c : Call}
    (driven : s₀.Only Call.Drives) (loads : c.Loads)
    (loaded : perform depth turns c s₀ = some (.ok (.words program), s))
    (history : History (fun c r => c.Throughout Call.Drives ∨ c.Replaces ∧ ∃ e, r = .error e) s t) :
    ∃ start fresh, s₀.controller.setup.loadAddress.Serves start program ∧
      s₀.controller.machine.load (Image.ofWords (program.map fun w => w.toNat)) start = .ok fresh ∧
      t.controller.Follows start program fresh ∧
      s₀.Adds (fun _ before => before.Follows start program fresh ∧
        before.machine.hasFinished = false) t := by
  obtain ⟨labels, after, placed, lived⟩ := does_of_loaded driven loads loaded history
  obtain ⟨start, fresh, serves, loaded, follows⟩ := Controller.Follows.of_place placed
  obtain ⟨reached, adds⟩ := lived.follows loaded follows
  exact ⟨start, fresh, serves, loaded, reached, adds.placed⟩

/-- An observer that fails at the first step. -/
def watched : Session :=
  bare.subscribe "watcher" { event := some .step, turn := 1, acts := [], fails := true }

/-- One instruction is executed by the worker, one by a step after a pause, and the last one by a run to
completion. -/
theorem paused_run_follows_machine : ∃ s t start fresh,
    perform 3 3 (.loadWords [0x20080001, 0x21080002, 0x21080003]) watched =
        some (.ok (.words [0x20080001, 0x21080002, 0x21080003]), s) ∧
      History (fun c r => c.Throughout Call.Drives ∨ c.Replaces ∧ ∃ e, r = .error e) s t ∧
      watched.controller.machine.load
        (Image.ofWords ([0x20080001, 0x21080002, 0x21080003].map fun w : Word => w.toNat)) start =
          .ok fresh ∧
      t.controller.Follows start [0x20080001, 0x21080002, 0x21080003] fresh ∧
      t.controller.statistics.total = 3 := by
  have lived : (do
      let loaded ← succeeds 3 3 (.loadWords [0x20080001, 0x21080002, 0x21080003]) watched
      let u ← calls 3 3 [.run .period] loaded.2
      let v ← worked 3 3 0 u
      let t ← calls 3 3 [.pause, .step, .runToCompletion 9] v
      return (programOf? loaded.1, t.controller.statistics.total)) =
        some (some [0x20080001, 0x21080002, 0x21080003], 3) := by
    decide +kernel
  have drives : ∀ c ∈ [Call.run .period, .pause, .step, .runToCompletion 9],
      ∀ r : Except Failure Reply, c.Throughout Call.Drives ∨ c.Replaces ∧ ∃ e, r = .error e := by
    have plain : ∀ c ∈ [Call.run .period, .pause, .step, .runToCompletion 9],
        c.acts = [] ∧ c.Drives := by
      simp [Call.acts, Call.Drives, Call.Replaces, Call.Loads, Call.Writes]
    exact fun c mem r => .inl (.of_nil (plain c mem).2 (plain c mem).1)
  rw [List.forall_mem_cons] at drives
  obtain ⟨⟨reply, s⟩, loaded, lived⟩ := Option.bind_eq_some_iff.mp lived
  obtain ⟨u, started, lived⟩ := Option.bind_eq_some_iff.mp lived
  obtain ⟨v, turned, lived⟩ := Option.bind_eq_some_iff.mp lived
  obtain ⟨t, ended, lived⟩ := Option.bind_eq_some_iff.mp lived
  obtain ⟨replied, counted⟩ := Prod.mk.inj (Option.some.inj lived)
  cases eq_of_programOf? replied
  replace loaded := perform_of_succeeds loaded
  have history : History _ s t :=
    (history_of_calls (by simpa using drives.1) started).trans
      (.head (moves_of_worked turned) (history_of_calls drives.2 ended))
  have passive : watched.Only Call.Drives := by
    intro o mem
    cases List.mem_singleton.mp mem
    nofun
  obtain ⟨start, fresh, -, installed, follows, -⟩ :=
    history_follows_machine passive (by trivial) loaded history
  exact ⟨s, t, start, fresh, loaded, history, installed, follows, counted⟩

end Session

end Simulator

end PocketMips
