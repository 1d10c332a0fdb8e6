import PocketMips.Proofs.History

/-!
# The stored snapshot is current

At an integer load address every change of the simulator stores a new snapshot before anyone is told of it.
Only an instruction whose time is too large for a number, and writes behind the controller's back, leave an
old one.
-/
namespace PocketMips.Simulator

/-! ## The controller -/

namespace Controller

variable {c c' : Controller} {program : List Word} {labels : Assembly.Labels}

/-- The stored snapshot shows the present state, of a controller that loads at an integer. -/
structure Shows (c : Controller) : Prop where
  whole : ∃ start, c.setup.loadAddress = .whole start
  kept : c.lost = false
  stored : c.stored = c.observe

theorem Shows.create (memory : Memory) (clock : Clock) (start window : Int) :
    (create memory clock { loadAddress := .whole start, window }).Shows :=
  ⟨⟨start, rfl⟩, rfl, rfl⟩

theorem Shows.executeNext (h : c.Shows) (timely : c.executeNext.1 ≠ .overflow) :
    c.executeNext.2.Shows := by
  unfold Controller.executeNext at timely ⊢
  split
  · exact ⟨h.whole, h.kept, rfl⟩
  · rename_i going
    rw [if_neg going] at timely
    split
    · exact ⟨h.whole, h.kept, rfl⟩
    · rename_i cycled
      rw [cycled] at timely
      dsimp only at timely ⊢
      split
      · rename_i recorded
        rw [recorded] at timely
        exact absurd rfl timely
      · exact ⟨h.whole, h.kept, rfl⟩

theorem Shows.place {r : Except Failure Unit} (h : c.Shows)
    (placed : c.place program labels = (r, c')) : c'.Shows := by
  obtain ⟨start, whole⟩ := h.whole
  cases r with
  | error e => rwa [eq_of_place_error whole placed]
  | ok =>
    obtain ⟨machine, -, rfl⟩ := reinstall_eq_ok_iff.mp ((place_eq_ok_iff whole).mp placed)
    exact ⟨h.whole, h.kept, rfl⟩

end Controller

/-! ## The session -/

namespace Entry

/-- A cycle that is executed has no time that is too large for a number. -/
def Timely : Entry → Prop
  | cycle _ before => before.executeNext.1 ≠ .overflow
  | told _ _ _ _ | replied _ _ | placed => True

/-- An observer that is told of something finds the stored snapshot current. -/
def Current : Entry → Prop
  | told _ _ _ controller => controller.stored = controller.observe
  | cycle _ _ | replied _ _ | placed => True

instance : DecidablePred Timely
  | cycle _ before => inferInstanceAs (Decidable (before.executeNext.1 ≠ .overflow))
  | told _ _ _ _ | replied _ _ | placed => .isTrue trivial

end Entry

namespace Session

variable {P : Call → Prop} {s t : Session} {driver : Driver}

/-- No instruction that was executed has a time that is too large for a number. Such an instruction makes
the call fail that executes it, or the job. -/
def Timely (s : Session) : Prop := ∀ e ∈ s.journal, e.Timely

instance (s : Session) : Decidable s.Timely := inferInstanceAs (Decidable (∀ e ∈ s.journal, e.Timely))

/-- The stored snapshot is current, every observer has found it so when it was told of something, and none
of them writes to the machine. -/
structure Current (s : Session) : Prop where
  shows : s.controller.Shows
  told : ∀ e ∈ s.journal, e.Current
  only : s.Only fun c => ¬c.Writes

/-- The journal is only continued. -/
theorem Timely.of_does (h : Does P s t) (timely : t.Timely) : s.Timely := by
  obtain ⟨new, same, -⟩ := h.adds
  intro e mem
  exact timely e (same ▸ List.mem_append_right new mem)

theorem Timely.executed (timely : (s.executed driver).Timely) :
    s.controller.executeNext.1 ≠ .overflow := by
  cases finished : s.controller.machine.hasFinished with
  | true =>
    rw [Controller.executeNext, if_pos finished]
    nofun
  | false =>
    have begun : s.begun driver = [.cycle driver s.controller] := by simp [Session.begun, finished]
    refine timely (.cycle driver s.controller) (List.mem_append_left _ ?_)
    rw [begun]
    exact List.mem_singleton_self _

namespace Current

theorem withController {c : Controller} (h : s.Current) (shows : c.Shows) :
    (s.withController c).Current :=
  ⟨shows, h.told, h.only⟩

theorem log {e : Entry} (h : s.Current) (current : e.Current) : (s.log e).Current :=
  ⟨h.shows, List.forall_mem_cons.mpr ⟨current, h.told⟩, h.only⟩

theorem executed (h : s.Current) (timely : (s.executed driver).Timely) :
    (s.executed driver).Current := by
  refine ⟨h.shows.executeNext timely.executed, fun e mem => ?_, h.only⟩
  rcases List.mem_append.mp mem with mem | mem
  · unfold Session.begun at mem
    split at mem
    · cases mem
    · cases List.mem_singleton.mp mem
      trivial
  · exact h.told e mem

theorem rested (h : s.Current) : s.rested.Current := by
  unfold Session.rested
  rw [h.shows.kept]
  exact h.withController ⟨h.shows.whole, h.shows.kept, rfl⟩

theorem setJob (h : s.Current) (j : Nat) (job : Job) : (s.setJob j job).Current :=
  ⟨h.shows, h.told, h.only⟩

end Current

/-- Every change leaves a current snapshot. -/
theorem Does.current_snapshot (h : Does (fun c => ¬c.Writes) s t) (current : s.Current)
    (timely : t.Timely) : t.Current := by
  induction h with
  | refl => exact current
  | trans _ second ih ih' => exact ih' (ih current (.of_does second timely)) timely
  | told who event snapshot => exact current.log current.shows.stored
  | replied => exact current.log trivial
  | seen who => exact ⟨current.shows, current.told, (Does.seen who).only current.only⟩
  | single _ => exact current.executed timely
  | goOn _ _ made ih =>
    exact (ih ((current.setJob _ _).executed (.of_does made timely)) timely).setJob _ _
  | leave _ _ first second ih ih' =>
    have timely' := Timely.of_does second timely
    have before := ih ((current.setJob _ _).executed (.of_does first timely')) timely'
    exact (ih' before.rested timely).setJob _ _
  | drop _ _ ih => exact (ih (current.setJob _ _).rested timely).setJob _ _
  | requestStop =>
    have shows := current.shows
    exact current.withController ⟨shows.whole, shows.kept, shows.stored⟩
  | @rest s _ =>
    have unwaited : Session.Current { s with current := none } :=
      ⟨current.shows, current.told, current.only⟩
    exact unwaited.rested
  | launch _ _ _ _ ih =>
    have begun := ih (current.withController ⟨current.shows.whole, current.shows.kept, rfl⟩) timely
    exact ⟨begun.shows, begun.told, begun.only⟩
  | stick _ lost =>
    rw [current.shows.kept] at lost
    cases lost
  | place _ _ _ placed _ => exact (current.withController (current.shows.place placed)).log trivial
  | misplace _ placed => exact current.withController (current.shows.place placed)
  | setClock clock _ =>
    have shows := current.shows
    exact current.withController ⟨shows.whole, shows.kept, shows.stored⟩
  | write _ quiet writes _ => exact absurd writes quiet
  | setPc quiet => exact absurd trivial quiet
  | subscribe made => exact ⟨current.shows, current.told, (Does.subscribe made).only current.only⟩
  | remove who => exact ⟨current.shows, current.told, current.only⟩

/-- **The stored snapshot is never stale**, at an integer load address: it is current at first, and every
call, turn of a job and pause that a session goes through leaves it current, as long as nobody writes
behind the controller's back and no instruction has a time that is too large for a number. Whoever was
told of something in between found it current, and so it is after each call that an observer makes. -/
theorem snapshot_stays_current :
    (∀ memory clock start window recorded,
      (create (.create memory clock { loadAddress := .whole start, window }) recorded).Current) ∧
    (∀ s t, s.Current → History (fun c _ => c.Throughout fun c => ¬c.Writes) s t → t.Timely →
      t.Current) ∧
    (∀ depth turns acts s t, s.Current → (∀ a ∈ acts, a.Throughout fun c => ¬c.Writes) →
      act (perform depth turns) acts s = some t → t.Timely → t.Current) := by
  refine ⟨fun memory clock start window recorded => ?_, fun s t current history timely => ?_,
    fun depth turns acts s t current given acted timely => ?_⟩
  · exact ⟨.create memory clock start window, fun e mem => absurd mem List.not_mem_nil,
      only_create _ _⟩
  · exact (history.does (fun _ _ => .inl) current.only).current_snapshot current timely
  · have made := rel_of_act telling_does (fun given only performed =>
      have made := does_of_perform only (.inl given) performed
      ⟨made, made.only only⟩) current.only given acted
    exact made.1.current_snapshot current timely

/-- One observer executes a step of its own and fails, another one pauses a run and is refused a reset; then
a load and a step fail. -/
theorem meddled_snapshot_stays_current : ∃ t,
    History (fun c _ => c.Throughout fun c => ¬c.Writes) bare t ∧ t.Timely ∧ t.Current ∧
      (t.found .caller).length = 2 ∧ (t.found .worker).length = 2 ∧
      t.controller.lastError.isSome := by
  have lived : (calls 5 9 [
      .subscribe "stepper" (some .loaded) 1 [.step] true,
      .subscribe "pauser" (some .step) 3 [.pause, .reset] false,
      .loadWords [0x20080001, 0x20080002, 0x20080003, 0xFC000000], .run .period, .wait,
      .load (.text ['?']), .step] bare).map (fun t => (decide t.Timely, (t.found .caller).length,
        (t.found .worker).length, t.controller.lastError.isSome)) = some (true, 2, 2, true) := by
    decide +kernel
  obtain ⟨t, called, same⟩ := Option.map_eq_some_iff.mp lived
  simp only [Prod.mk.injEq, decide_eq_true_eq] at same
  obtain ⟨timely, callers, workers, failed⟩ := same
  have history : History (fun c _ => c.Throughout fun c => ¬c.Writes) bare t := by
    refine history_of_calls (fun c mem r => ?_) called
    simp only [List.mem_cons, List.not_mem_nil, or_false] at mem
    rcases mem with rfl | rfl | rfl | rfl | rfl | rfl | rfl
    case inl =>
      refine .intro id fun a mem => ?_
      cases List.mem_singleton.mp mem
      exact .of_nil id rfl
    case inr.inl =>
      refine .intro id fun a mem => ?_
      simp only [Call.acts, List.mem_cons, List.not_mem_nil, or_false] at mem
      rcases mem with rfl | rfl <;> exact .of_nil id rfl
    all_goals exact .of_nil id rfl
  have current : bare.Current := snapshot_stays_current.1 (.blank .sparse) .standard 0 1024 false
  exact ⟨t, history, timely, snapshot_stays_current.2.1 bare t current history timely, callers,
    workers, failed⟩

end Session

end PocketMips.Simulator
