import PocketMips.Proofs.Turns

/-!
# The two ways to run a program agree

A run in the background and a run to completion execute the same instructions from the same state, though the
one looks at the end of the program after a cycle, and the other before it. They go through states that
differ in what the controller keeps of the run itself.
-/
namespace PocketMips.Simulator

/-! ## The controller -/

namespace Controller

variable {c d e : Controller} {failure : Option Machine.Fault}

/-- Controllers that differ at most in what they keep of a run, and in the stored snapshot. -/
def Alike (c d : Controller) : Prop :=
  ∃ status stopRequested stored, d = { c with status, stopRequested, stored }

namespace Alike

theorem trans (first : c.Alike d) (second : d.Alike e) : c.Alike e := by
  obtain ⟨_, _, _, rfl⟩ := first
  obtain ⟨_, _, _, rfl⟩ := second
  exact ⟨_, _, _, rfl⟩

theorem symm (h : c.Alike d) : d.Alike c := by
  obtain ⟨_, _, _, rfl⟩ := h
  exact ⟨_, _, _, rfl⟩

theorem begin (c : Controller) : c.Alike c.begin := ⟨_, _, _, rfl⟩

theorem settle (c : Controller) : c.Alike c.settle := ⟨_, _, _, rfl⟩

theorem executeNext (h : c.Alike d) :
    d.executeNext.1 = c.executeNext.1 ∧ c.executeNext.2.Alike d.executeNext.2 := by
  obtain ⟨status, stopRequested, stored, rfl⟩ := h
  cases finished : c.machine.hasFinished with
  | true =>
    simp only [Controller.executeNext, finished, if_true]
    exact ⟨trivial, _, _, _, rfl⟩
  | false =>
    cases cycled : c.machine.cycle with
    | error f =>
      simp only [Controller.executeNext, finished, cycled]
      exact ⟨rfl, _, _, _, rfl⟩
    | ok next =>
      obtain ⟨instr, machine⟩ := next
      simp only [Controller.executeNext, finished, cycled]
      rcases c.statistics.record instr.kind c.clock with ⟨statistics, _ | _⟩ <;>
        exact ⟨rfl, _, _, _, rfl⟩

theorem machine (h : c.Alike d) : d.machine = c.machine := by
  obtain ⟨_, _, _, rfl⟩ := h
  rfl

theorem kept (h : c.Alike d) (kept : c.lost = false) : d.lost = false := by
  obtain ⟨_, _, _, rfl⟩ := h
  exact kept

theorem observe (h : c.Alike d) (status : d.status = c.status) : d.observe = c.observe := by
  obtain ⟨_, _, _, rfl⟩ := h
  simp_all [Controller.observe]

end Alike

/-- A program has ended: it has finished, or the machine refuses the instruction that is next. -/
def EndedBy (c : Controller) : Option Machine.Fault → Prop
  | none => c.machine.hasFinished = true
  | some f => c.machine.hasFinished = false ∧ c.machine.cycle = .error f ∧ c.lastError = some f

end Controller

namespace Session

variable {b s t u : Session} {depth turns j : Nat}

/-! ## The run to completion -/

theorem exists_announce (depth turns : Nat) (news : News) (only : s.Only Call.Watches) :
    ∃ t, announce (perform (depth + 1) turns) news s = some t := by
  induction news generalizing s with
  | nil => exact ⟨s, rfl⟩
  | cons told news ih =>
    obtain ⟨event, snapshot⟩ := told
    obtain ⟨u, first⟩ := exists_notify depth turns event snapshot only
    obtain ⟨t, rest⟩ := ih (unmoved_of_notify only first).2
    exact ⟨t, Option.bind_eq_some_iff.mpr ⟨u, first, rest⟩⟩

theorem exists_advance (depth turns : Nat) (driver : Driver) (kept : s.controller.lost = false)
    (only : s.Only Call.Watches) :
    ∃ t, advance (perform (depth + 1) turns) driver s =
        some (answerOf t.controller s.controller.executeNext.1, t) ∧
      t.controller = s.controller.executeNext.2 ∧ t.Only Call.Watches := by
  suffices ∃ r t, advance (perform (depth + 1) turns) driver s = some (r, t) by
    obtain ⟨r, t, advanced⟩ := this
    obtain ⟨unmoved, only, rfl⟩ := advance_of_watches kept only advanced
    exact ⟨t, advanced, unmoved.controller, only⟩
  have only : (s.executed driver).Only Call.Watches := only.congr rfl
  obtain ⟨u, told⟩ := exists_announce depth turns s.controller.news only
  exact ⟨_, u, by rw [advance_eq kept, told]; rfl⟩

theorem complete_of_finished {react : Reaction} (finished : s.controller.machine.hasFinished = true)
    (limit : Nat) (snapshot : Snapshot) :
    complete react limit snapshot s = some (.ok snapshot, s) := by
  cases limit <;> simp [complete, finished]

theorem exists_complete_step (depth turns limit : Nat) (kept : s.controller.lost = false)
    (only : s.Only Call.Watches) (idle : s.controller.status = .idle) {finished : Bool}
    (outcome : s.controller.executeNext.1 = .stepped finished) :
    ∃ v, complete (perform (depth + 1) turns) (limit + 1) s.controller.stored s =
        complete (perform (depth + 1) turns) limit v.controller.stored v ∧
      v.controller = s.controller.executeNext.2 ∧ v.Only Call.Watches ∧
      v.controller.status = .idle ∧ v.controller.stored = v.controller.observe := by
  obtain ⟨v, advanced, after, only⟩ := exists_advance depth turns .caller kept only
  obtain ⟨instr, executes⟩ := s.controller.executes_of_stepped outcome
  refine ⟨v, ?_, after, only, ?_, by rw [after, executes.stored]⟩
  · rw [complete, if_neg (by simp [executes.going]), advanced, outcome]
    rfl
  · rw [after, s.controller.executeNext_frame.1, idle]

/-! ## The run in the background -/

/-- A run is in progress that nobody has asked to stop. -/
structure Going (s : Session) (j : Nat) : Prop where
  tidy : s.Tidy
  kept : s.controller.lost = false
  free : s.controller.stopRequested = false
  waiting : ∃ overlong, s.jobs[j]? = some (.pending overlong)

/-- A run that is in progress goes on with the next instruction, ends with its program, or fails. -/
theorem Going.works_cases (h : s.Going j) (work : Works s t) :
    t.Tidy ∧ t.current = s.current ∧
      ((s.controller.executeNext.1 = .stepped false ∧ t.controller = s.controller.executeNext.2 ∧
          t.Going j) ∨
        t.controller.status = .idle ∧
          ((s.controller.executeNext.1 ≠ .stepped false ∧ s.controller.executeNext.1 ≠ .overflow ∧
              t.controller = s.controller.executeNext.2.settle ∧ t.jobs[j]? = some (.ended none)) ∨
            t.jobs[j]? = some (.ended (some .overflow)))) := by
  obtain ⟨overlong, waiting⟩ := h.waiting
  obtain ⟨turned, tidy⟩ := h.tidy.turned h.kept waiting work
  have job : t.jobs[j]? = some (s.controller.turn overlong).job := by
    rw [turned.jobs]
    exact getElem?_setJob_self waiting
  refine ⟨tidy, turned.current, ?_⟩
  rcases s.controller.turn_cases overlong h.free with ⟨outcome, turn⟩ | ⟨unfinished, timely, turn⟩ | turn
  · rw [turn] at turned job
    obtain ⟨_, _, _, _, _, _, fields⟩ := s.controller.executeNext_fields
    refine .inl ⟨outcome, turned.controller, tidy, ?_, ?_, ⟨false, job⟩⟩
    · rw [turned.controller, fields]
      exact h.kept
    · rw [turned.controller, fields]
      exact h.free
  · rw [turn] at turned job
    refine .inr ⟨?_, .inl ⟨unfinished, timely, turned.controller, job⟩⟩
    rw [turned.controller]
    rfl
  · rw [turn] at turned job
    refine .inr ⟨?_, .inr job⟩
    rw [turned.controller]
    rfl

theorem Going.lasts (h : s.Going j) (works : Relation.ReflTransGen Works s t) :
    t.current = some j ∧ ∃ job, t.jobs[j]? = some job := by
  obtain ⟨overlong, waiting⟩ := h.waiting
  have current := h.tidy.orderly.current j (unfinished_of_pending waiting)
  clear waiting
  induction works using Relation.ReflTransGen.head_induction_on with
  | refl =>
    obtain ⟨overlong, waiting⟩ := h.waiting
    exact ⟨current, _, waiting⟩
  | head work works ih =>
    obtain ⟨tidy, same, ⟨-, -, going⟩ | ⟨idle, job⟩⟩ := h.works_cases work
    · exact ih going (same.trans current)
    · rw [← tidy.eq_of_works idle works]
      refine ⟨same.trans current, ?_⟩
      rcases job with ⟨-, -, -, job⟩ | job <;> exact ⟨_, job⟩

/-- A run from one controller to another has executed some instructions and ended with the program, and a
run to completion reproduces it, from any session that differs in what is kept of a run only and under any
limit that suffices; a fault needs one cycle more. -/
structure Reproduced (c e : Controller) (n : Nat) (failure : Option Machine.Fault) : Prop where
  total : e.statistics.total = c.statistics.total + n
  ended : e.EndedBy failure
  completes {s : Session} : c.Alike s.controller → s.controller.status = .idle → s.Only Call.Watches →
    ∀ limit, n + failure.elim 0 (fun _ => 1) ≤ limit → ∀ depth turns, ∃ u,
      complete (perform (depth + 1) turns) limit s.controller.stored s =
        some (answerOf u.controller (failure.elim .completed .failed), u) ∧
      e.Alike u.controller ∧ u.controller.status = .idle ∧
      (u.controller.stored = u.controller.observe ∨
        s.controller.machine.hasFinished = true ∧ u = s)

theorem reproduced_of_finished {c e : Controller} (alike : e.Alike c)
    (finished : c.machine.hasFinished = true) : Reproduced c e 0 none := by
  refine ⟨?_, ?_, fun {s} alike' idle only limit _ depth turns => ?_⟩
  · obtain ⟨_, _, _, rfl⟩ := alike
    rfl
  · rwa [Controller.EndedBy, ← alike.machine]
  · have finished' : s.controller.machine.hasFinished = true := by rwa [alike'.machine]
    exact ⟨s, complete_of_finished finished' limit _, alike.trans alike', idle, .inr ⟨finished', rfl⟩⟩

theorem Reproduced.step {c e : Controller} {n : Nat} {failure : Option Machine.Fault} {finished : Bool}
    (h : Reproduced c.executeNext.2 e n failure) (kept : c.lost = false)
    (outcome : c.executeNext.1 = .stepped finished) : Reproduced c e (n + 1) failure := by
  obtain ⟨instr, executes⟩ := c.executes_of_stepped outcome
  refine ⟨?_, h.ended, fun {s} alike idle only limit enough depth turns => ?_⟩
  · rw [h.total, executes.total]
    omega
  · obtain ⟨limit, rfl⟩ : ∃ l, limit = l + 1 := ⟨limit - 1, by omega⟩
    obtain ⟨outcome', alike'⟩ := alike.executeNext
    obtain ⟨v, step, after, only, idle, stored⟩ :=
      exists_complete_step depth turns limit (alike.kept kept) only idle (outcome'.trans outcome)
    rw [← after] at alike'
    obtain ⟨u, completed, alike, quiet, shown⟩ := h.completes alike' idle only limit (by omega) depth turns
    refine ⟨u, step.trans completed, alike, quiet, .inl ?_⟩
    rcases shown with shown | ⟨-, rfl⟩
    · exact shown
    · exact stored

theorem reproduced_last {c : Controller} (kept : c.lost = false)
    (unfinished : c.executeNext.1 ≠ .stepped false) (timely : c.executeNext.1 ≠ .overflow) :
    ∃ n failure, Reproduced c c.executeNext.2.settle n failure := by
  cases outcome : c.executeNext.1 with
  | completed =>
    obtain ⟨finished, same⟩ := Controller.executeNext_completed outcome
    rw [same]
    exact ⟨0, none, reproduced_of_finished ⟨_, _, _, rfl⟩ finished⟩
  | stepped finished =>
    cases finished with
    | false => exact absurd outcome unfinished
    | true =>
      obtain ⟨instr, executes⟩ := c.executes_of_stepped outcome
      have finished : c.executeNext.2.machine.hasFinished = true := by
        have shown := c.executeNext_finished.2 _ outcome
        rwa [executes.stored] at shown
      exact ⟨1, none, (reproduced_of_finished (Controller.Alike.settle _).symm finished).step kept outcome⟩
  | failed f =>
    obtain ⟨going, failed, same⟩ := Controller.executeNext_failed outcome
    refine ⟨0, some f, by rw [same]; rfl, by rw [same]; exact ⟨going, failed, rfl⟩,
      fun {s} alike idle only limit enough depth turns => ?_⟩
    obtain ⟨limit, rfl⟩ : ∃ l, limit = l + 1 := ⟨limit - 1, by simp at enough; omega⟩
    obtain ⟨outcome', alike'⟩ := alike.executeNext
    obtain ⟨u, advanced, after, only⟩ := exists_advance depth turns .caller (alike.kept kept) only
    rw [outcome'.trans outcome] at advanced
    rw [← after] at alike'
    obtain ⟨going', -, same'⟩ := Controller.executeNext_failed (outcome'.trans outcome)
    refine ⟨u, ?_, (Controller.Alike.settle _).symm.trans alike', ?_, .inl ?_⟩
    · rw [complete, if_neg (by simp [going']), advanced]
      rfl
    · rw [after, s.controller.executeNext_frame.1, idle]
    · rw [after, same']
      rfl
  | overflow => exact absurd outcome timely

/-- **Lockstep.** A run that is in progress and ends by itself is reproduced. -/
theorem reproduced_of_works (works : Relation.ReflTransGen Works b t) (going : b.Going j)
    (ended : t.jobs[j]? = some (.ended none)) :
    (∃ n failure, Reproduced b.controller t.controller n failure) ∧ t.controller.status = .idle ∧
      t.controller.stored = t.controller.observe := by
  -- from the first turn on, since each executes the instruction that the run to completion executes next
  induction works using Relation.ReflTransGen.head_induction_on with
  | refl =>
    obtain ⟨overlong, waiting⟩ := going.waiting
    rw [ended] at waiting
    cases waiting
  | @head b b' work works ih =>
    obtain ⟨tidy, -, ⟨outcome, controller, goes⟩ |
      ⟨quiet, ⟨unfinished, timely, controller, -⟩ | job⟩⟩ := going.works_cases work
    · obtain ⟨⟨n, failure, reproduced⟩, ends⟩ := ih goes
      rw [controller] at reproduced
      exact ⟨⟨n + 1, failure, reproduced.step going.kept outcome⟩, ends⟩
    · cases tidy.eq_of_works quiet works
      rw [controller]
      exact ⟨reproduced_last going.kept unfinished timely, rfl, rfl⟩
    · cases tidy.eq_of_works quiet works
      rw [ended] at job
      cases job

theorem going_of_run {delay : Delay} {reply : Reply} (tidy : s.Tidy)
    (h : perform depth turns (.run delay) s = some (.ok reply, t)) :
    s.controller.status = .idle ∧ t.controller = s.controller.begin ∧ t.Going s.jobs.length := by
  obtain ⟨overlong, idle, kept, controller, jobs, -⟩ := run_of_watches tidy.only h
  refine ⟨idle, controller, tidy.run h, ?_, ?_, overlong, by simp [jobs]⟩
  · rw [controller]
    exact kept
  · rw [controller]
    rfl

end Session

/-- What a run leaves behind, apart from the stored snapshot. -/
structure Controller.SameEnd (c d : Controller) : Prop where
  machine : d.machine = c.machine
  shownPc : d.shownPc = c.shownPc
  statistics : d.statistics = c.statistics
  last : d.lastInstruction = c.lastInstruction
  error : d.lastError = c.lastError
  status : d.status = c.status

namespace Session

/-- **The two ways to run a program agree**, from any idle state that calls, turns and pauses lead to while
observers only watch. A run in the background that is waited for and does not fail has executed some
instructions and ended with the program. Then a run to completion from the same state always ends, under any
limit that allows for as many cycles, and leaves the same behind; it fails by the fault that the other run has
recorded. The stored snapshot is the same as well, but a program that had already finished is left with the
one that it had. -/
theorem drivers_agree {c : Controller} {recorded : Bool} {s s₁ s₂ t : Session} {delay : Delay}
    {reply reply' : Reply} {depth turns depth' turns' : Nat}
    (history : History (fun c _ => c.Passive) (create c recorded) s)
    (started : perform depth turns (.run delay) s = some (.ok reply, s₁))
    (worked : Relation.ReflTransGen Works s₁ s₂)
    (waited : perform depth' turns' .wait s₂ = some (.ok reply', t)) :
    ∃ n failure, t.controller.statistics.total = s.controller.statistics.total + n ∧
      t.controller.EndedBy failure ∧
      ∀ limit : Int, (n + failure.elim 0 (fun _ => 1) : Nat) ≤ limit → ∀ depth turns, ∃ r u,
        perform (depth + 2) turns (.runToCompletion limit) s = some (r, u) ∧
        (failure = none → r = .ok (.snapshot u.controller.stored)) ∧
        (∀ f, failure = some f → r = .error (failureOf u.controller f)) ∧
        t.controller.SameEnd u.controller ∧
        ((s.controller.machine.hasFinished = true → s.controller.stored = s.controller.observe) →
          u.controller.stored = t.controller.stored) ∧
        (s.controller.machine.hasFinished = true → u = s) := by
  have tidy := history.tidy (tidy_create c recorded)
  obtain ⟨idle, controller, going⟩ := going_of_run tidy started
  obtain ⟨working, ended⟩ := works_of_wait waited
  replace ended := ended reply' rfl (going.lasts worked).1
  have works := worked.trans working
  obtain ⟨job, is⟩ := (going.lasts works).2
  rw [is, Option.getD_some] at ended
  obtain ⟨⟨n, failure, reproduced⟩, quiet, stored⟩ := reproduced_of_works works going (ended ▸ is)
  rw [controller] at reproduced
  refine ⟨n, failure, reproduced.total, reproduced.ended, fun limit enough depth turns => ?_⟩
  obtain ⟨u, completed, alike, idle', shown⟩ :=
    reproduced.completes (Controller.Alike.begin _).symm idle tidy.only limit.toNat (by omega) depth turns
  have free : s.requireIdle "run" = .ok () := by
    simp [requireIdle, Controller.isRunning, idle]
  have kept : s.controller.lost = false := by
    have kept := going.kept
    rwa [controller] at kept
  have observe : u.controller.observe = t.controller.stored := by
    rw [stored, alike.observe (idle'.trans quiet.symm)]
  refine ⟨(answerOf u.controller (failure.elim .completed .failed)).map .snapshot, u, ?_, ?_, ?_, ?_,
    fun current => ?_, fun finished => ?_⟩
  · show runToCompletion _ limit s = _
    rw [runToCompletion, free]
    simp only [kept, completed]
    rfl
  · rintro rfl
    rfl
  · rintro f rfl
    rfl
  · obtain ⟨_, _, _, same⟩ := alike
    rw [same] at idle' ⊢
    exact ⟨rfl, rfl, rfl, rfl, rfl, idle'.trans quiet.symm⟩
  · rcases shown with shown | ⟨finished, rfl⟩
    · rw [shown, observe]
    · rw [current finished, observe]
  · rw [complete_of_finished finished] at completed
    exact (congrArg Prod.snd (Option.some.inj completed)).symm

/-- Two instructions are executed, one of them in a turn of its own, and the third one is refused; an observer
reads a register at the first step. -/
theorem refused_drivers_agree : ∃ s s₁ s₂ t u f, ∃ reply reply' : Reply,
    History (fun c _ => c.Passive) bare s ∧ perform 3 3 (.run .period) s = some (.ok reply, s₁) ∧
      Relation.ReflTransGen Works s₁ s₂ ∧ perform 3 3 .wait s₂ = some (.ok reply', t) ∧
      t.controller.statistics.total = 2 ∧ t.controller.lastError = some f ∧
      perform 3 3 (.runToCompletion 3) s = some (.error (failureOf u.controller f), u) ∧
      t.controller.SameEnd u.controller ∧ u.controller.stored = t.controller.stored := by
  have lived : (do
      let s ← calls 3 3 [.subscribe "reader" (some .step) 1 [.register (.text "t0")] true,
        .loadWords [0x2008000A, 0x01084020, 0xFC000000]] bare
      let started ← succeeds 3 3 (.run .period) s
      let s₂ ← worked 3 3 0 started.2
      let waited ← succeeds 3 3 .wait s₂
      return ([s.controller.statistics.total, waited.2.controller.statistics.total],
        s.controller.machine.hasFinished, waited.2.controller.machine.hasFinished)) =
          some ([0, 2], false, false) := by
    decide +kernel
  obtain ⟨s, called, lived⟩ := Option.bind_eq_some_iff.mp lived
  obtain ⟨⟨reply, s₁⟩, started, lived⟩ := Option.bind_eq_some_iff.mp lived
  obtain ⟨s₂, turned, lived⟩ := Option.bind_eq_some_iff.mp lived
  obtain ⟨⟨reply', t⟩, waited, lived⟩ := Option.bind_eq_some_iff.mp lived
  replace started := perform_of_succeeds started
  replace waited := perform_of_succeeds waited
  have parts := Option.some.inj lived
  simp only [Prod.mk.injEq, List.cons.injEq, and_true] at parts
  obtain ⟨⟨none, two⟩, going, unfinished⟩ := parts
  have history : History (fun c _ => c.Passive) bare s := by
    refine history_of_calls (fun c mem r => ?_) called
    simp only [List.mem_cons, List.not_mem_nil, or_false] at mem
    rcases mem with rfl | rfl
    · intro a mem
      cases List.mem_singleton.mp mem
      exact .of_nil trivial rfl
    · nofun
  have works : Relation.ReflTransGen Works s₁ s₂ := by
    unfold worked at turned
    split at turned
    · rename_i waiting
      exact .single ⟨_, _, _, _, waiting, turned⟩
    · cases turned
  obtain ⟨n, failure, total, ended, agrees⟩ := drivers_agree history started works waited
  cases failure with
  | none =>
    rw [Controller.EndedBy, unfinished] at ended
    cases ended
  | some f =>
    rw [none, two] at total
    obtain ⟨r, u, performed, -, fails, same, shown, -⟩ := agrees 3 (by simp; omega) 1 3
    cases fails f rfl
    exact ⟨s, s₁, s₂, t, u, f, reply, reply', history, started, works, waited, two, ended.2.2, performed,
      same, shown (by simp [going])⟩

/-- A register is written behind the back of a controller without a program. A run in the background shows it,
and a run to completion does not. -/
theorem finished_drivers_differ : ∃ s s₁ t u, ∃ reply reply' : Reply, ∃ r,
    History (fun c _ => c.Passive) bare s ∧ s.controller.status = .idle ∧
      perform 3 3 (.run .period) s = some (.ok reply, s₁) ∧ perform 3 3 .wait s₁ = some (.ok reply', t) ∧
      t.controller.statistics.total = s.controller.statistics.total ∧
      perform 3 3 (.runToCompletion 10) s = some (.ok r, u) ∧
      u.controller.stored ≠ t.controller.stored := by
  have lived : (do
      let s ← calls 3 3 [.setRegister 8 5] bare
      let started ← succeeds 3 3 (.run .period) s
      let waited ← succeeds 3 3 .wait started.2
      let completed ← succeeds 3 3 (.runToCompletion 10) s
      return (s.controller.status,
        [s.controller.statistics.total, waited.2.controller.statistics.total],
        [waited.2, completed.2].map fun u => u.controller.stored.machine.registers.read? 8)) =
          some (.idle, [0, 0], [some 5, some 0]) := by
    decide +kernel
  obtain ⟨s, called, lived⟩ := Option.bind_eq_some_iff.mp lived
  obtain ⟨⟨reply, s₁⟩, started, lived⟩ := Option.bind_eq_some_iff.mp lived
  obtain ⟨⟨reply', t⟩, waited, lived⟩ := Option.bind_eq_some_iff.mp lived
  obtain ⟨⟨r, u⟩, completed, lived⟩ := Option.bind_eq_some_iff.mp lived
  have parts := Option.some.inj lived
  simp only [List.map_cons, List.map_nil, Prod.mk.injEq, List.cons.injEq, and_true] at parts
  obtain ⟨idle, ⟨before, after⟩, shown, stale⟩ := parts
  refine ⟨s, s₁, t, u, reply, reply', r, history_of_calls (fun c mem _ => ?_) called, idle,
    perform_of_succeeds started, perform_of_succeeds waited, after.trans before.symm,
    perform_of_succeeds completed, fun same => ?_⟩
  · cases List.mem_singleton.mp mem
    nofun
  · rw [same, shown] at stale
    cases stale

end Session

end PocketMips.Simulator
