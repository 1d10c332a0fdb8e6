import PocketMips.Proofs.Execution

/-!
# Sessions in step

Two sessions with the same jobs, whose controllers differ in labels at most, answer every call alike, as long as
telling their observers does not set them apart. How their labels may differ, and how they may differ in what
the simulator itself does not look at, is up to the relation between them.
-/
namespace PocketMips.Simulator

open Assembly

/-! ## Relations of optional values -/

section Options

variable {α β γ δ : Type} {r : α → β → Prop} {r' : γ → δ → Prop} {x : Option α} {y : Option β}

theorem rel_bind {f : α → Option γ} {g : β → Option δ} (h : Option.Rel r x y)
    (next : ∀ {a b}, r a b → Option.Rel r' (f a) (g b)) : Option.Rel r' (x >>= f) (y >>= g) := by
  cases h with
  | none => exact .none
  | some related => exact next related

theorem rel_map {f : α → γ} {g : β → δ} (h : Option.Rel r x y)
    (next : ∀ {a b}, r a b → r' (f a) (g b)) : Option.Rel r' (x.map f) (y.map g) := by
  cases h with
  | none => exact .none
  | some related => exact .some (next related)

end Options

/-! ## The controller -/

namespace Controller

variable {c d : Controller} {labels labels' : Labels} {ρ : Labels → Labels → Prop}

/-- The controller with other labels. -/
def relabelled (c : Controller) (labels : Labels) : Controller := { c with labels }

theorem executeNext_relabelled (c : Controller) (labels : Labels) :
    (c.relabelled labels).executeNext = (c.executeNext.1, c.executeNext.2.relabelled labels) := by
  have machine : (c.relabelled labels).machine = c.machine := rfl
  have record (kind : Kind) : (c.relabelled labels).statistics.record kind (c.relabelled labels).clock =
      c.statistics.record kind c.clock := rfl
  unfold executeNext
  rw [machine]
  cases c.machine.hasFinished with
  | true => rfl
  | false =>
    cases c.machine.cycle with
    | error f => rfl
    | ok next =>
      obtain ⟨instr, m⟩ := next
      simp only [record]
      rcases c.statistics.record instr.kind c.clock with ⟨statistics, _ | _⟩ <;> rfl

theorem reinstall_relabelled (labels labels' labels'' : Labels) (start : Int) (program : List Word) :
    (c.relabelled labels).reinstall start program labels' =
      (c.reinstall start program labels'').map (·.relabelled labels') := by
  have machine : (c.relabelled labels).machine = c.machine := rfl
  simp only [reinstall, machine]
  cases c.machine.load (Image.ofWords (program.map fun w => w.toNat)) start <;> rfl

/-- The controllers differ in labels at most, and as far as a relation allows. -/
structure Matches (ρ : Labels → Labels → Prop) (c d : Controller) : Prop where
  labels : ρ c.labels d.labels
  relabelled : d = c.relabelled d.labels

namespace Matches

theorem eq (h : c.Matches Eq d) : d = c := by
  rw [h.relabelled, ← h.labels]
  rfl

theorem change (h : c.Matches ρ d) {f : Controller → Controller}
    (keeps : ∀ c labels, f (c.relabelled labels) = (f c).relabelled labels) : (f c).Matches ρ (f d) := by
  have labels (c : Controller) : (f c).labels = c.labels := by
    have same : f c = (f c).relabelled c.labels := keeps c c.labels
    rw [same]
    rfl
  exact ⟨by rw [labels, labels]; exact h.labels, by rw [labels, ← keeps, ← h.relabelled]⟩

theorem showing (h : c.Matches ρ d) (v : Value) : (c.showingPc v).Matches ρ (d.showingPc v) :=
  h.change (f := fun c => c.showingPc v) fun _ _ => rfl

theorem executeNext (h : c.Matches ρ d) :
    d.executeNext.1 = c.executeNext.1 ∧ c.executeNext.2.Matches ρ d.executeNext.2 := by
  refine ⟨?_, h.change (f := fun c => c.executeNext.2) fun c labels => ?_⟩
  · rw [h.relabelled, executeNext_relabelled]
  · rw [executeNext_relabelled]

theorem reinstall (h : c.Matches ρ d) (given : ρ labels labels') (start : Int) (program : List Word) :
    (∃ f, c.reinstall start program labels = .error f ∧ d.reinstall start program labels' = .error f) ∨
      ∃ c' d', c.reinstall start program labels = .ok c' ∧ d.reinstall start program labels' = .ok d' ∧
        c'.Matches ρ d' := by
  have same : d.reinstall start program labels' =
      (c.reinstall start program labels).map (·.relabelled labels') := by
    rw [h.relabelled]
    exact reinstall_relabelled _ _ _ _ _
  cases installed : c.reinstall start program labels with
  | error f =>
    rw [installed] at same
    exact .inl ⟨f, rfl, same⟩
  | ok c' =>
    rw [installed] at same
    obtain ⟨machine, -, rfl⟩ := reinstall_eq_ok_iff.mp installed
    exact .inr ⟨_, _, rfl, same, given, rfl⟩

theorem place (h : c.Matches ρ d) (given : ρ labels labels') (program : List Word) :
    (d.place program labels').1 = (c.place program labels).1 ∧
      (c.place program labels).2.Matches ρ (d.place program labels').2 := by
  have address : d.setup.loadAddress = c.setup.loadAddress := by rw [h.relabelled]; rfl
  have extent : d.machine.memory.extent = c.machine.memory.extent := by rw [h.relabelled]; rfl
  have cleared : c.cleared.Matches ρ d.cleared := h.change fun _ _ => rfl
  unfold Controller.place
  rw [address, extent]
  cases c.setup.loadAddress with
  | whole start =>
    rcases h.reinstall given start program with
      ⟨f, first, second⟩ | ⟨c', d', first, second, placed⟩
    all_goals
      dsimp only
      rw [first, second]
    · exact ⟨rfl, h⟩
    · exact ⟨rfl, placed⟩
  | flag b =>
    rcases h.reinstall given (LoadAddress.ofFlag b) program with
      ⟨f, first, second⟩ | ⟨c', d', first, second, placed⟩
    all_goals
      dsimp only
      rw [first, second]
    · exact ⟨rfl, h⟩
    · exact ⟨rfl, placed.showing _⟩
  | float x =>
    dsimp only
    split
    · rcases h.reinstall given 0 [] with
        ⟨f, first, second⟩ | ⟨c', d', first, second, placed⟩
      all_goals rw [first, second]
      · exact ⟨rfl, h⟩
      · exact ⟨rfl, placed.showing _⟩
    · split
      · exact ⟨rfl, h⟩
      · exact ⟨rfl, cleared⟩
  | unusable =>
    dsimp only
    split
    · exact ⟨rfl, h.change (f := fun c => { c.cleared with lost := true }) fun _ _ => rfl⟩
    · split
      · exact ⟨rfl, h⟩
      all_goals exact ⟨rfl, cleared⟩

end Matches

end Controller

/-! ## Sessions -/

/-- Changes who is told of events. -/
def Call.Subscribes : Call → Prop
  | .mute | .subscribe .. | .unsubscribe _ => True
  | _ => False

namespace Session

variable {s t : Session} {react : Reaction} {ρ : Labels → Labels → Prop} {R : Session → Session → Prop}

/-- A relation of sessions whose controllers match and which have the same jobs. It is kept by what the
simulator does to both, apart from telling and changing observers. -/
structure Lockstep (ρ : Labels → Labels → Prop) (R : Session → Session → Prop) : Prop where
  labels (labels : Labels) : ρ labels labels
  controller {s t : Session} : R s t → s.controller.Matches ρ t.controller
  jobs {s t : Session} : R s t → t.jobs = s.jobs
  current {s t : Session} : R s t → t.current = s.current
  withController {s t : Session} {c d : Controller} : R s t → c.Matches ρ d →
    R (s.withController c) (t.withController d)
  withJobs {s t : Session} (jobs : List Job) (current : Option Nat) : R s t →
    R { s with jobs, current } { t with jobs, current }
  cycle {s t : Session} (driver : Driver) : R s t →
    R (s.log (.cycle driver s.controller)) (t.log (.cycle driver t.controller))
  replied {s t : Session} (c : Call) (r : Except Failure Reply) : R s t →
    R (s.log (.replied c r)) (t.log (.replied c r))
  placed {s t : Session} : R s t → R (s.log .placed) (t.log .placed)
  seen {s t : Session} (who : ObserverId) : R s t → R (s.countSeen who) (t.countSeen who)

/-- The results are the same, of sessions that are in a relation. -/
def InStep {α : Type} (R : Session → Session → Prop) :
    Option (α × Session) → Option (α × Session) → Prop :=
  Option.Rel fun p q => p.1 = q.1 ∧ R p.2 q.2

theorem inStep_some {α : Type} (a : α) (related : R s t) : InStep R (some (a, s)) (some (a, t)) :=
  .some ⟨rfl, related⟩

theorem inStep_map {α : Type} {x y : Option Session} (a : α) (h : Option.Rel R x y) :
    InStep R (x.map fun s => (a, s)) (y.map fun s => (a, s)) :=
  rel_map h fun related => ⟨rfl, related⟩

namespace InStep

variable {α β : Type} {x y : Option (α × Session)}

theorem map (h : InStep R x y) (f : α → β) :
    InStep R (x.map fun (a, s) => (f a, s)) (y.map fun (a, s) => (f a, s)) :=
  rel_map h fun related => ⟨congrArg f related.1, related.2⟩

theorem bind (h : InStep R x y) {γ δ : Type} {r : γ → δ → Prop} {f : α × Session → Option γ}
    {g : α × Session → Option δ}
    (next : ∀ a {s t : Session}, R s t → Option.Rel r (f (a, s)) (g (a, t))) :
    Option.Rel r (x >>= f) (y >>= g) := by
  refine rel_bind h fun {p q} related => ?_
  obtain ⟨a, s⟩ := p
  obtain ⟨b, t⟩ := q
  obtain ⟨rfl, related⟩ := related
  exact next a related

end InStep

/-- Telling the observers of two sessions keeps them in a relation. -/
def Notifies (R : Session → Session → Prop) (react : Reaction) : Prop :=
  ∀ (event : Event) (snapshot : Snapshot) {s t : Session}, R s t →
    Option.Rel R (notify react event snapshot s) (notify react event snapshot t)

theorem executed_of_finished {driver : Driver} (finished : s.controller.machine.hasFinished = true) :
    s.executed driver = s.withController s.controller.executeNext.2 := by
  rw [executed, begun, if_pos finished]
  rfl

theorem executed_of_unfinished {driver : Driver} (going : s.controller.machine.hasFinished = false) :
    s.executed driver =
      (s.log (.cycle driver s.controller)).withController s.controller.executeNext.2 := by
  rw [executed, begun, if_neg (by simp [going])]
  rfl

namespace Lockstep

/-! ### What sessions in step have in common -/

section Common

variable (steps : Lockstep ρ R) (related : R s t)
include steps related

/-- What does not depend on the labels is the same of both controllers. -/
theorem congr {α : Type} {f : Controller → α} (kept : ∀ c labels, f (c.relabelled labels) = f c) :
    f t.controller = f s.controller := by
  rw [(steps.controller related).relabelled, kept]

theorem machine : t.controller.machine = s.controller.machine :=
  steps.congr related (f := Controller.machine) fun _ _ => rfl

theorem stored : t.controller.stored = s.controller.stored :=
  steps.congr related (f := Controller.stored) fun _ _ => rfl

theorem lost : t.controller.lost = s.controller.lost :=
  steps.congr related (f := Controller.lost) fun _ _ => rfl

theorem stopRequested : t.controller.stopRequested = s.controller.stopRequested :=
  steps.congr related (f := Controller.stopRequested) fun _ _ => rfl

theorem isRunning : t.controller.isRunning = s.controller.isRunning :=
  steps.congr related (f := Controller.isRunning) fun _ _ => rfl

theorem requireIdle (action : String) : t.requireIdle action = s.requireIdle action := by
  rw [Session.requireIdle, steps.isRunning related]
  rfl

theorem change {f : Controller → Controller}
    (keeps : ∀ c labels, f (c.relabelled labels) = (f c).relabelled labels) :
    R (s.withController (f s.controller)) (t.withController (f t.controller)) :=
  steps.withController related ((steps.controller related).change keeps)

theorem setJob (j : Nat) (job : Job) : R (s.setJob j job) (t.setJob j job) := by
  show R { s with jobs := s.jobs.set j job, current := s.current }
    { t with jobs := t.jobs.set j job, current := t.current }
  rw [steps.jobs related, steps.current related]
  exact steps.withJobs _ _ related

theorem forgetCurrent : R { s with current := none } { t with current := none } := by
  show R { s with jobs := s.jobs, current := none } { t with jobs := t.jobs, current := none }
  rw [steps.jobs related]
  exact steps.withJobs _ _ related

theorem queued (overlong : Bool) : R (s.queued overlong) (t.queued overlong) := by
  rw [Session.queued, Session.queued, steps.jobs related]
  exact steps.withJobs _ _ related

theorem executed (driver : Driver) : R (s.executed driver) (t.executed driver) := by
  have outcome := (steps.controller related).executeNext.2
  have same : t.controller.machine.hasFinished = s.controller.machine.hasFinished := by
    rw [steps.machine related]
  cases finished : s.controller.machine.hasFinished with
  | true =>
    rw [executed_of_finished finished, executed_of_finished (same.trans finished)]
    exact steps.withController related outcome
  | false =>
    rw [executed_of_unfinished finished, executed_of_unfinished (same.trans finished)]
    exact steps.withController (steps.cycle driver related) outcome

end Common

/-! ### Telling the observers -/

section Observers

variable (steps : Lockstep ρ R)
include steps

theorem act {acts : List Call}
    (calls : ∀ c ∈ acts, ∀ {s t : Session}, R s t → InStep R (react c s) (react c t)) (related : R s t) :
    Option.Rel R (act react acts s) (act react acts t) := by
  induction acts generalizing s t with
  | nil => exact .some related
  | cons c acts ih =>
    rw [List.forall_mem_cons] at calls
    exact (calls.1 related).bind fun r {s t} related => ih calls.2 (steps.replied c r related)

/-- Observers whose calls are answered alike are told alike; whether they fail does not matter. -/
theorem tell {event : Event} {snapshot : Snapshot} {who : ObserverId}
    (told : R (s.log (.told who event snapshot s.controller)) (t.log (.told who event snapshot t.controller)))
    (same : t.observer? who = s.observer? who)
    (calls : ∀ {o}, s.observer? who = some o → ∀ c ∈ o.acts, ∀ {s t : Session}, R s t →
      InStep R (react c s) (react c t)) :
    Option.Rel R ((tell react event snapshot s who).map (·.2))
      ((tell react event snapshot t who).map (·.2)) := by
  have observers (s : Session) : (s.log (.told who event snapshot s.controller)).observer? who =
      s.observer? who := rfl
  unfold Session.tell
  dsimp only
  rw [observers, observers, same]
  split
  · exact .some told
  · rename_i o found
    split
    · split
      · simp only [Option.map_map]
        exact rel_map (steps.act (calls found) (steps.seen who told)) id
      · exact .some (steps.seen who told)
    · exact .some told

end Observers

/-! ### Execution -/

section Reactions

variable (steps : Lockstep ρ R) (notified : Notifies R react) (related : R s t)
include steps notified related

omit steps related in
theorem announce (news : News) {s t : Session} (related : R s t) :
    Option.Rel R (announce react news s) (announce react news t) := by
  induction news generalizing s t with
  | nil => exact .some related
  | cons told news ih => exact rel_bind (notified told.1 told.2 related) ih

theorem advance (driver : Driver) : InStep R (advance react driver s) (advance react driver t) := by
  cases lost : s.controller.lost with
  | true =>
    rw [advance_of_lost lost, advance_of_lost ((steps.lost related).trans lost)]
    exact inStep_some _ related
  | false =>
    have outcome := (steps.controller related).executeNext.1
    have executed := steps.executed related driver
    have stored : t.controller.executeNext.2.stored = s.controller.executeNext.2.stored :=
      steps.stored executed
    have news : t.controller.news = s.controller.news := by
      rw [Controller.news, Controller.news, outcome, stored]
    have answer : answerOf (t.executed driver).controller s.controller.executeNext.1 =
        answerOf (s.executed driver).controller s.controller.executeNext.1 :=
      steps.congr executed (f := fun c => answerOf c s.controller.executeNext.1) fun _ _ => by
        cases s.controller.executeNext.1 <;> rfl
    rw [advance_eq lost, advance_eq ((steps.lost related).trans lost), outcome, news, answer]
    exact inStep_map _ (announce notified s.controller.news executed)

theorem complete (limit : Nat) (snapshot : Snapshot) :
    InStep R (complete react limit snapshot s) (complete react limit snapshot t) := by
  induction limit generalizing s t snapshot with
  | zero => exact inStep_some _ related
  | succ limit ih =>
    unfold Session.complete
    rw [steps.machine related]
    split
    · exact inStep_some _ related
    · refine (steps.advance notified related .caller).bind fun r {s t} related => ?_
      cases r with
      | error e => exact inStep_some _ related
      | ok snapshot => exact ih related snapshot

theorem finish (j : Nat) (failure : Option Failure) :
    Option.Rel R (finish react j failure s) (finish react j failure t) := by
  unfold Session.finish
  rw [steps.lost related]
  split
  · exact .some (steps.setJob (steps.change related fun _ _ => rfl) j _)
  · have settled : R (s.withController s.controller.settle) (t.withController t.controller.settle) :=
      steps.change related fun _ _ => rfl
    dsimp only
    rw [steps.stored settled]
    exact rel_bind (notified _ _ settled) fun related => .some (steps.setJob related j _)

theorem turn (j : Nat) (overlong : Bool) :
    Option.Rel R (turn react j overlong s) (turn react j overlong t) := by
  have related := steps.setJob related j .working
  unfold Session.turn
  dsimp only
  rw [steps.stopRequested related]
  split
  · exact steps.finish notified related j none
  · refine (steps.advance notified related .worker).bind fun r {s t} related => ?_
    cases r with
    | error e => exact steps.finish notified related j _
    | ok snapshot =>
      dsimp only
      rw [steps.stopRequested related]
      split
      · exact steps.finish notified related j none
      · split
        · exact steps.finish notified related j _
        · exact .some (steps.setJob related j _)

theorem demand (j turns : Nat) : InStep R (demand react j turns s) (demand react j turns t) := by
  induction turns generalizing s t with
  | zero =>
    unfold Session.demand
    rw [steps.jobs related]
    split
    · exact inStep_some _ related
    · exact inStep_some _ related
    · exact .none
  | succ turns ih =>
    unfold Session.demand
    rw [steps.jobs related]
    split
    · exact inStep_some _ related
    · exact inStep_some _ related
    · exact rel_bind (steps.turn notified related j _) ih

/-! ### Calls -/

theorem install {labels labels' : Labels} (given : ρ labels labels') (program : List Word) (event : Event)
    {reply : Controller → Reply} (shows : ∀ c labels, reply (c.relabelled labels) = reply c) :
    InStep R (install react s program labels event reply) (install react t program labels' event reply) := by
  obtain ⟨same, placed⟩ := (steps.controller related).place given program
  unfold Session.install
  rcases first : s.controller.place program labels with ⟨e | ⟨⟨⟩⟩, c⟩ <;>
    rcases second : t.controller.place program labels' with ⟨e' | ⟨⟨⟩⟩, d⟩ <;>
    rw [first, second] at same placed <;> cases same
  · exact inStep_some _ (steps.withController related placed)
  · replace placed : c.Matches ρ d := placed
    have replies : reply d = reply c := by rw [placed.relabelled, shows]
    have stored : d.stored = c.stored := by rw [placed.relabelled]; rfl
    dsimp only
    rw [replies, stored]
    exact inStep_map _ (notified _ _ (steps.placed (steps.withController related placed)))

theorem installNew (program : List Word) (labels : Labels) :
    InStep R (installNew react s program labels) (installNew react t program labels) :=
  steps.install notified related (steps.labels labels) program _ fun _ _ => rfl

theorem load (source : Source) : InStep R (load react source s) (load react source t) := by
  have assembles : t.assemble source = s.assemble source := by
    rw [assemble, (steps.controller related).relabelled]
    rfl
  unfold Session.load
  rw [steps.requireIdle related, assembles]
  split
  · exact inStep_some _ related
  · split
    · exact inStep_some _ related
    · exact steps.installNew notified related _ _

theorem run (delay : Delay) : InStep R (run react delay s) (run react delay t) := by
  have checked : t.checkDelay delay = s.checkDelay delay := by
    simp only [checkDelay]
    rw [(steps.controller related).relabelled]
    rfl
  unfold Session.run
  rw [steps.requireIdle related, checked, steps.lost related]
  split
  · exact inStep_some _ related
  · split
    · exact inStep_some _ related
    · split
      · exact inStep_some _ (steps.change related fun _ _ => rfl)
      · have begun : R (s.withController s.controller.begin) (t.withController t.controller.begin) :=
          steps.change related fun _ _ => rfl
        have stored : t.controller.begin.stored = s.controller.begin.stored := steps.stored begun
        dsimp only
        rw [stored]
        exact rel_bind (notified _ _ begun) fun related => inStep_some _ (steps.queued related _)

theorem wait (turns : Nat) : InStep R (wait react turns s) (wait react turns t) := by
  unfold Session.wait
  rw [steps.current related, steps.stored related]
  split
  · exact inStep_some _ related
  · refine (steps.demand notified related _ turns).bind fun answer {s t} related => ?_
    rcases answer with _ | _ | e
    · exact inStep_some _ related
    · dsimp only
      rw [steps.stored related]
      exact inStep_some _ related
    · exact inStep_some _ related

theorem rest : InStep R (rest react s) (rest react t) := by
  unfold Session.rest
  rw [steps.lost related]
  split
  · exact inStep_some _ (steps.change related fun _ _ => rfl)
  · have settled : R (s.withController s.controller.settle) (t.withController t.controller.settle) :=
      steps.change related fun _ _ => rfl
    have stored : t.controller.settle.stored = s.controller.settle.stored := steps.stored settled
    dsimp only
    rw [stored]
    exact rel_bind (notified _ _ settled) fun related => inStep_some _ related

theorem pause (turns : Nat) : InStep R (pause react turns s) (pause react turns t) := by
  unfold Session.pause
  rw [steps.isRunning related, steps.stored related]
  split
  · exact inStep_some _ related
  · have asked : R (s.withController s.controller.requestStop) (t.withController t.controller.requestStop) :=
      steps.change related fun _ _ => rfl
    dsimp only
    rw [steps.current asked]
    split
    · exact steps.rest notified asked
    · refine (steps.demand notified asked _ turns).bind fun answer {s t} related => ?_
      rcases answer with _ | _ | e
      · dsimp only
        rw [steps.stored related]
        exact inStep_some _ related
      · exact steps.rest notified (steps.forgetCurrent related)
      · exact inStep_some _ related

theorem pauseIfRunning (turns : Nat) :
    InStep R (pauseIfRunning react turns s) (pauseIfRunning react turns t) := by
  unfold Session.pauseIfRunning
  rw [steps.isRunning related]
  split
  · exact (steps.pause notified related turns).map _
  · exact inStep_some _ related

theorem reset (turns : Nat) : InStep R (reset react turns s) (reset react turns t) := by
  refine (steps.pauseIfRunning notified related turns).bind fun r {s t} related => ?_
  cases r with
  | error e => exact inStep_some _ related
  | ok =>
    dsimp only
    rw [steps.requireIdle related]
    split
    · exact inStep_some _ related
    · have program : t.controller.program = s.controller.program := by
        rw [(steps.controller related).relabelled]
        rfl
      rw [program]
      exact steps.install notified related (steps.controller related).labels _ _ fun _ _ => rfl

theorem setClockTo (clock : Except Failure Clock) :
    InStep R (setClockTo react clock s) (setClockTo react clock t) := by
  unfold Session.setClockTo
  split
  · exact inStep_some _ related
  · rename_i clock
    have set : R (s.withController { s.controller with clock }) (t.withController { t.controller with clock }) :=
      steps.change related (f := fun c => { c with clock }) fun _ _ => rfl
    rw [steps.stored related]
    refine rel_bind (notified _ _ set) fun {u v} related => ?_
    have clock : v.controller.clock = u.controller.clock :=
      steps.congr related (f := Controller.clock) fun _ _ => rfl
    rw [clock]
    exact inStep_some _ related

/-- Sessions in step answer alike what is no change of their observers. -/
theorem respond (turns : Nat) {c : Call} (other : ¬c.Subscribes) :
    InStep R (respond react turns c s) (respond react turns c t) := by
  have withMachine (m : Machine) : R (s.withMachine m) (t.withMachine m) :=
    steps.change related (f := fun c => { c with machine := m }) fun _ _ => rfl
  have asked {r r' : Except Failure Reply} (same : r' = r) : InStep R (some (r, s)) (some (r', t)) := by
    rw [same]
    exact inStep_some _ related
  cases c with
  | load source => exact steps.load notified related source
  | loadWords words =>
    show InStep R (loadWords react words s) (loadWords react words t)
    unfold loadWords
    rw [steps.requireIdle related]
    split
    · exact inStep_some _ related
    · exact steps.installNew notified related _ _
  | loadBytes image =>
    show InStep R (loadBytes react image s) (loadBytes react image t)
    unfold loadBytes
    rw [steps.requireIdle related]
    split
    · exact inStep_some _ related
    · split
      · exact inStep_some _ related
      · exact steps.installNew notified related _ _
  | step =>
    show InStep R (step react s) (step react t)
    unfold step
    rw [steps.requireIdle related]
    split
    · exact inStep_some _ related
    · exact (steps.advance notified related .caller).map _
  | runToCompletion limit =>
    show InStep R (runToCompletion react limit s) (runToCompletion react limit t)
    unfold runToCompletion
    rw [steps.requireIdle related, steps.lost related, steps.stored related]
    split
    · exact inStep_some _ related
    · split
      · exact inStep_some _ related
      · exact (steps.complete notified related _ _).map _
  | run delay => exact steps.run notified related delay
  | wait => exact steps.wait notified related turns
  | pause => exact steps.pause notified related turns
  | reset => exact steps.reset notified related turns
  | shutdown => exact (steps.pauseIfRunning notified related turns).map _
  | setClock settings => exact steps.setClockTo notified related _
  | register name =>
    have same : t.register name = s.register name := by
      unfold register
      rw [steps.stored related]
    exact asked (congrArg _ same)
  | wordAt address => exact asked (by rw [steps.stored related])
  | setRegister index value =>
    show InStep R (some (s.setRegister index value)) (some (t.setRegister index value))
    unfold setRegister
    rw [steps.machine related]
    dsimp only
    split
    · exact inStep_some _ (withMachine _)
    · exact inStep_some _ related
  | setPc value =>
    exact inStep_some _ (steps.change related (f := fun c =>
      { c with machine := { c.machine with pc := value }, shownPc := none }) fun _ _ => rfl)
  | timeText =>
    have statistics : t.controller.statistics = s.controller.statistics :=
      steps.congr related (f := Controller.statistics) fun _ _ => rfl
    exact asked (by rw [statistics])
  | memory access =>
    show InStep R (some (s.accessMemory access)) (some (t.accessMemory access))
    unfold accessMemory
    rw [steps.machine related]
    dsimp only
    split
    · exact inStep_some _ (withMachine _)
    · exact inStep_some _ related
  | mute | subscribe | unsubscribe => exact absurd trivial other

end Reactions

end Lockstep

end Session

end PocketMips.Simulator
