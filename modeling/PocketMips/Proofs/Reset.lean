import PocketMips.Proofs.History
import PocketMips.Proofs.Watching

/-!
# A reset puts the program back

Whatever happens to a loaded program, the controller keeps its words and labels, and the memory its extent.
A reset needs nothing else to put the simulator back to where the load has left it.
-/
namespace PocketMips.Simulator

/-! ## Calls -/

namespace Call

variable {c : Call}

/-- Does not load a program, and the observers that it gives only watch. -/
def Retains (c : Call) : Prop := ¬c.Loads ∧ ∀ a ∈ c.acts, a.Throughout Watches

theorem Watches.retains (watches : c.Watches) (given : ∀ a ∈ c.acts, a.Throughout Watches) :
    c.Retains := by
  refine ⟨fun loads => ?_, given⟩
  cases c with
  | load | loadWords | loadBytes => cases watches
  | _ => cases loads

theorem retains_of_watches (h : c.Throughout Watches) : c.Throughout Retains := by
  induction h with
  | intro watches given ih => exact .intro (watches.retains given) ih

theorem Retains.throughout (h : c.Retains) : c.Throughout Retains :=
  .intro h fun a mem => retains_of_watches (h.2 a mem)

end Call

/-! ## The controller -/

namespace Controller

variable {c c' loaded : Controller} {start : Int} {program : List Word} {labels : Assembly.Labels}

/-- The program and where it belongs have not changed, nor has the extent of the memory. -/
structure Keeps (c c' : Controller) : Prop where
  setup : c'.setup = c.setup
  program : c'.program = c.program
  labels : c'.labels = c.labels
  lost : c'.lost = c.lost
  extent : c'.machine.memory.extent = c.machine.memory.extent

namespace Keeps

theorem refl (c : Controller) : c.Keeps c := ⟨rfl, rfl, rfl, rfl, rfl⟩

theorem trans {c'' : Controller} (first : c.Keeps c') (second : c'.Keeps c'') : c.Keeps c'' :=
  ⟨second.setup.trans first.setup, second.program.trans first.program,
    second.labels.trans first.labels, second.lost.trans first.lost,
    second.extent.trans first.extent⟩

theorem whole (kept : c.Keeps c') (whole : c.setup.loadAddress = .whole start) :
    c'.setup.loadAddress = .whole start := by
  rw [kept.setup, whole]

theorem executeNext (c : Controller) : c.Keeps c.executeNext.2 := by
  have extent : c.executeNext.2.machine.memory.extent = c.machine.memory.extent := by
    rcases c.executeNext_cycle with ⟨same, -⟩ | ⟨-, ⟨instr, cycled⟩, -⟩
    · rw [same]
    · exact (Machine.sameProgram_of_cycle cycled).extent
  obtain ⟨machine, statistics, instr, error, stored, shownPc, same⟩ := c.executeNext_fields
  rw [same] at extent ⊢
  exact ⟨rfl, rfl, rfl, rfl, extent⟩

/-- The program is put in place once more, or it cannot be. -/
theorem place {r : Except Failure Unit} (whole : c.setup.loadAddress = .whole start)
    (placed : c.place c.program c.labels = (r, c')) : c.Keeps c' := by
  cases r with
  | error e =>
    rw [eq_of_place_error whole placed]
    exact .refl c
  | ok =>
    obtain ⟨machine, loaded, rfl⟩ := reinstall_eq_ok_iff.mp ((place_eq_ok_iff whole).mp placed)
    exact ⟨rfl, rfl, rfl, rfl, Machine.extent_of_load loaded⟩

end Keeps

/-- What has been put in place can be put in place again, and that changes nothing. -/
theorem reinstall_again (h : c.reinstall start program labels = .ok loaded) :
    loaded.reinstall start loaded.program loaded.labels = .ok loaded := by
  obtain ⟨machine, done, rfl⟩ := reinstall_eq_ok_iff.mp h
  refine reinstall_eq_ok_iff.mpr ⟨machine, ?_, rfl⟩
  rw [← done]
  exact Machine.load_congr (Machine.extent_of_load done) _ _

/-- The controller as it was loaded, but for the clock in force and a request to stop. -/
def restored (loaded c : Controller) : Controller :=
  { loaded with clock := c.clock, stopRequested := c.stopRequested }

/-- The program goes back to where it was loaded, from whatever has become of it. -/
theorem reinstall_of_keeps (fresh : loaded.reinstall start loaded.program loaded.labels = .ok loaded)
    (kept : loaded.Keeps c) (status : c.status = loaded.status) :
    c.reinstall start c.program c.labels = .ok (loaded.restored c) := by
  obtain ⟨machine, done, same⟩ := reinstall_eq_ok_iff.mp fresh
  refine reinstall_eq_ok_iff.mpr ⟨machine, ?_, ?_⟩
  · rw [kept.program, ← done]
    exact Machine.load_congr kept.extent _ _
  · rw [restored, same]
    simp only [reloaded, refresh, observe, kept.setup, kept.program, kept.labels, kept.lost, status]

end Controller

/-! ## The session -/

namespace Session

variable {s t u : Session} {start : Int} {depth turns : Nat}

theorem only_retains (only : s.Only Call.Watches) : s.Only Call.Retains :=
  fun o mem a given => Call.retains_of_watches (only o mem a given)

/-- Observers that only watch are joined by others that only watch. -/
theorem Does.only_watches (h : Does Call.Retains s t) (only : s.Only Call.Watches) :
    t.Only Call.Watches :=
  h.observers (Q := fun o => ∀ a ∈ o.acts, a.Throughout Call.Watches) (fun _ _ => id)
    (fun _ _ _ _ _ made => made.self.2) only

theorem keeps_rested (s : Session) : s.controller.Keeps s.rested.controller := by
  unfold rested
  split <;> exact ⟨rfl, rfl, rfl, rfl, rfl⟩

/-- Every change keeps the program. -/
theorem Does.keeps (h : Does Call.Retains s t) (whole : s.controller.setup.loadAddress = .whole start) :
    s.controller.Keeps t.controller := by
  induction h with
  | trans _ _ first second =>
    have kept := first whole
    exact kept.trans (second (kept.whole whole))
  | single _ => exact .executeNext _
  | @goOn s _ _ _ _ _ _ ih =>
    have kept := Controller.Keeps.executeNext s.controller
    exact kept.trans (ih (kept.whole whole))
  | @leave s t _ _ _ _ _ _ _ _ first second =>
    have kept := Controller.Keeps.executeNext s.controller
    have kept := kept.trans (first (kept.whole whole))
    have kept := kept.trans (keeps_rested t)
    exact kept.trans (second (kept.whole whole))
  | @drop s _ j _ _ _ _ ih =>
    have kept := keeps_rested (s.setJob j .working)
    exact kept.trans (ih (kept.whole whole))
  | @rest s _ => exact keeps_rested { s with current := none }
  | @launch s t _ _ _ _ _ ih =>
    have kept : s.controller.Keeps s.controller.begin := ⟨rfl, rfl, rfl, rfl, rfl⟩
    exact kept.trans (ih whole)
  | place retains _ _ placed source =>
    obtain ⟨rfl, rfl⟩ := source.resolve_left retains.1
    exact .place whole placed
  | misplace _ placed =>
    rw [withController, Controller.eq_of_place_error whole placed]
    exact .refl _
  | write _ _ _ extent => exact ⟨rfl, rfl, rfl, rfl, extent⟩
  | _ => exact ⟨rfl, rfl, rfl, rfl, rfl⟩

theorem pauseIfRunning_of_idle {react : Reaction} (idle : s.controller.status = .idle) (turns : Nat) :
    pauseIfRunning react turns s = some (.ok (), s) := by
  rw [pauseIfRunning, Controller.isRunning, idle]
  rfl

/-- A reset that finds the simulator idle, or has made it idle, puts the program back to where it was
loaded. -/
theorem reset_of_keeps {loaded : Controller} (whole : loaded.setup.loadAddress = .whole start)
    (fresh : loaded.reinstall start loaded.program loaded.labels = .ok loaded)
    (status : loaded.status = .idle) (kept : loaded.Keeps t.controller) (only : t.Only Call.Watches)
    (idle : t.controller.status = .idle)
    (paused : pauseIfRunning (perform (depth + 1) turns) turns s = some (.ok (), t)) :
    ∃ u, perform (depth + 2) turns .reset s = some (.ok (.snapshot u.controller.stored), u) ∧
      u.controller = loaded.restored t.controller ∧ u.Only Call.Watches := by
  have placed : t.controller.place t.controller.program t.controller.labels =
      (.ok (), loaded.restored t.controller) :=
    (Controller.place_eq_ok_iff (kept.whole whole)).mpr
      (Controller.reinstall_of_keeps fresh kept (idle.trans status.symm))
  have only : ((t.withController (loaded.restored t.controller)).log .placed).Only Call.Watches :=
    only.congr rfl
  obtain ⟨u, told⟩ := exists_notify depth turns .reset (loaded.restored t.controller).stored only
  obtain ⟨unmoved, only⟩ := unmoved_of_notify only told
  refine ⟨u, ?_, unmoved.controller, only⟩
  have free : t.requireIdle "reset" = .ok () := by
    rw [requireIdle, Controller.isRunning, idle]
    rfl
  show reset (perform (depth + 1) turns) turns s = _
  rw [reset, paused]
  simp only [Option.bind_eq_bind, Option.bind_some, free, install, placed, told, Option.map_some,
    unmoved.controller]
  rfl

/-- **A reset equals a fresh load.** Whatever has happened to a program since it was loaded at an integer
address, under observers that only watch, a reset that finds the simulator idle or makes it idle succeeds
and leaves everything as the load has left it, but for the clock in force and a request to stop; a second
reset leaves everything as it is. -/
theorem reset_restores_load {s₀ : Session} {c : Call} {reply : Reply} {depth' turns' : Nat}
    (whole : s₀.controller.setup.loadAddress = .whole start) (only : s₀.Only Call.Watches)
    (loads : c.Loads) (loaded : perform depth turns c s₀ = some (.ok reply, s))
    (history : History (fun c r => c.Retains ∨ c.Loads ∧ ∃ e, r = .error e) s t)
    (paused : pauseIfRunning (perform (depth' + 1) turns') turns' t = some (.ok (), u))
    (idle : u.controller.status = .idle) :
    ∃ v, perform (depth' + 2) turns' .reset t = some (.ok (.snapshot v.controller.stored), v) ∧
      v.controller = { s.controller with
        clock := u.controller.clock
        stopRequested := u.controller.stopRequested } ∧
      ∃ w, perform (depth' + 2) turns' .reset v = some (.ok (.snapshot w.controller.stored), w) ∧
        w.controller = v.controller := by
  obtain ⟨program, labels, resting, placed, only⟩ := load_of_watches loads only loaded
  have installed := (Controller.place_eq_ok_iff whole).mp placed
  have fresh := Controller.reinstall_again installed
  have whole : s.controller.setup.loadAddress = .whole start := by
    rw [(Controller.reinstall_eq_ok installed).2.2.2, whole]
  have status : s.controller.status = .idle := (Controller.place_status placed).trans resting
  -- all that has happened since the load
  have lived : Does Call.Retains s t := by
    refine history.does (fun c r may => ?_) (only_retains only)
    rcases may with retains | ⟨loads, failed⟩
    · exact .inl retains.throughout
    · exact .inr ⟨.inl loads, failed⟩
  have watched := lived.only_watches only
  have pausing := does_of_pauseIfRunning reacts_perform (only_retains watched) paused
  have made := Does.trans lived pausing
  obtain ⟨v, reset, same, watched⟩ :=
    reset_of_keeps whole fresh status (made.keeps whole) (pausing.only_watches watched) idle paused
  refine ⟨v, reset, same, ?_⟩
  -- and once more
  have kept : s.controller.Keeps v.controller := by
    rw [same]
    exact ⟨rfl, rfl, rfl, rfl, rfl⟩
  have idle : v.controller.status = .idle := by
    rw [same]
    exact status
  obtain ⟨w, reset, same', -⟩ := reset_of_keeps whole fresh status kept watched idle
    (pauseIfRunning_of_idle idle turns')
  refine ⟨w, reset, ?_⟩
  rw [same', same]
  rfl

/-- A program that changes itself is stepped and written to, a load fails, and a reset stops a run. -/
theorem meddled_reset_restores_load : ∃ s t v loaded,
    perform 3 9 (.loadWords [0x21080001, 0xAC080000, 0x08000000]) bare = some (.ok loaded, s) ∧
      History (fun c r => c.Retains ∨ c.Loads ∧ ∃ e, r = .error e) s t ∧
      t.controller.status = .running ∧ t.controller.machine.pc ≠ s.controller.machine.pc ∧
      perform 4 9 .reset t = some (.ok (.snapshot v.controller.stored), v) ∧
      v.controller.machine = s.controller.machine ∧ v.controller.stored = s.controller.stored := by
  have lived : (do
      let loaded ← succeeds 3 9 (.loadWords [0x21080001, 0xAC080000, 0x08000000]) bare
      let t ← calls 3 9 [.subscribe "reader" (some .step) 1 [.register (.text "t0")] true, .step,
        .step, .setRegister 9 7, .setPc 8, .memory (.writeByte 64 255)] loaded.2
      let refused ← fails 3 9 (.load (.text ['?'])) t
      let t ← calls 3 9 [.run .period] refused.2
      let paused ← pauseIfRunning (perform 3 9) 9 t
      return ([t.controller.status, paused.2.controller.status], paused.1.isOk,
        [loaded.2.controller.machine.pc, t.controller.machine.pc])) =
          some ([.running, .idle], true, [0, 8]) := by
    decide +kernel
  obtain ⟨⟨loaded, s⟩, installed, lived⟩ := Option.bind_eq_some_iff.mp lived
  obtain ⟨t₁, called, lived⟩ := Option.bind_eq_some_iff.mp lived
  obtain ⟨⟨e, t₂⟩, refused, lived⟩ := Option.bind_eq_some_iff.mp lived
  obtain ⟨t, started, lived⟩ := Option.bind_eq_some_iff.mp lived
  obtain ⟨⟨r, u⟩, paused, lived⟩ := Option.bind_eq_some_iff.mp lived
  have parts := Option.some.inj lived
  simp only [Prod.mk.injEq, List.cons.injEq, and_true] at parts
  obtain ⟨⟨running, idle⟩, answered, pc, pc'⟩ := parts
  cases r with
  | error e => cases answered
  | ok =>
    have before : History (fun c r => c.Retains ∨ c.Loads ∧ ∃ e, r = .error e) s t₁ := by
      refine history_of_calls (fun c mem r => .inl ?_) called
      simp only [List.mem_cons, List.not_mem_nil, or_false] at mem
      rcases mem with rfl | rfl | rfl | rfl | rfl | rfl
      case inl =>
        refine ⟨id, fun a mem => ?_⟩
        cases List.mem_singleton.mp mem
        exact .of_nil trivial rfl
      all_goals exact ⟨id, fun a mem => absurd mem List.not_mem_nil⟩
    have after : History (fun c r => c.Retains ∨ c.Loads ∧ ∃ e, r = .error e) t₂ t := by
      refine history_of_calls (fun c mem r => .inl ?_) started
      cases List.mem_singleton.mp mem
      exact ⟨id, fun a mem => absurd mem List.not_mem_nil⟩
    have history := before.trans
      (.head (.call (.inr ⟨by trivial, e, rfl⟩) (perform_of_fails refused)) after)
    obtain ⟨v, reset, same, -⟩ := reset_restores_load rfl (only_create _ _) (by trivial)
      (perform_of_succeeds installed) history paused idle
    refine ⟨s, t, v, loaded, perform_of_succeeds installed, history, running, ?_, reset, ?_, ?_⟩
    · rw [pc, pc']
      decide
    · rw [same]
    · rw [same]

end Session

end PocketMips.Simulator
