import PocketMips.Proofs.Session

/-!
# What executing does

Telling the observers, executing instructions for a caller, and the turns of a job are sequences of the
changes of a session, if the calls of the observers are.
-/
namespace PocketMips.Simulator.Session

variable {P : Call → Prop} {react : Reaction} {driver : Driver} {s t : Session} {j : Nat}

/-! ## Telling the observers -/

/-- Tells the observers of one event after the other. -/
def announce (react : Reaction) : News → Session → Option Session
  | [], s => some s
  | (event, snapshot) :: news, s => do announce react news (← notify react event snapshot s)

/-- What holds of the sessions before and after a notification, whatever the observers call: of nothing at
all, of one thing after another, and of the entries and counts that telling an observer makes. -/
structure Telling (R : Session → Session → Prop) : Prop where
  refl {s : Session} : R s s
  trans {s t u : Session} : R s t → R t u → R s u
  told {s : Session} (who : ObserverId) (event : Event) (snapshot : Snapshot) :
    R s (s.log (.told who event snapshot s.controller))
  replied {s : Session} (c : Call) (r : Except Failure Reply) : R s (s.log (.replied c r))
  seen {s : Session} (who : ObserverId) : R s (s.countSeen who)

section Relations

variable {R : Session → Session → Prop} (tells : Telling R)
  (calls : ∀ {c : Call} {s t : Session} {r : Except Failure Reply}, c.Throughout P → s.Only P →
    react c s = some (r, t) → R s t ∧ t.Only P)
  (only : s.Only P)
include tells calls only

theorem rel_of_act {acts : List Call} (given : ∀ a ∈ acts, a.Throughout P)
    (h : act react acts s = some t) : R s t ∧ t.Only P := by
  induction acts generalizing s with
  | nil =>
    cases h
    exact ⟨tells.refl, only⟩
  | cons c acts ih =>
    rw [List.forall_mem_cons] at given
    obtain ⟨⟨r, u⟩, first, rest⟩ := Option.bind_eq_some_iff.mp h
    obtain ⟨made, only⟩ := calls given.1 only first
    have only : (u.log (.replied c r)).Only P := only.congr rfl
    obtain ⟨more, only⟩ := ih only given.2 rest
    exact ⟨tells.trans made (tells.trans (tells.replied c r) more), only⟩

theorem rel_of_tell {event : Event} {snapshot : Snapshot} {who : ObserverId} {failed : Bool}
    (h : tell react event snapshot s who = some (failed, t)) : R s t ∧ t.Only P := by
  suffices R (s.log (.told who event snapshot s.controller)) t ∧ t.Only P from
    this.imp_left (tells.trans (tells.told who event snapshot))
  have only : (s.log (.told who event snapshot s.controller)).Only P := only.congr rfl
  unfold tell at h
  dsimp only at h
  split at h
  · cases h
    exact ⟨tells.refl, only⟩
  · rename_i o found
    have given : ∀ a ∈ o.acts, a.Throughout P := by
      obtain ⟨p, inside, rfl⟩ := Option.map_eq_some_iff.mp found
      exact only p (List.mem_of_find?_eq_some inside)
    have counted := (Does.seen (P := P) who).only only
    split at h
    · split at h
      · obtain ⟨u, performed, same⟩ := Option.map_eq_some_iff.mp h
        cases same
        exact (rel_of_act tells calls counted given performed).imp_left
          (tells.trans (tells.seen who))
      · cases h
        exact ⟨tells.seen who, counted⟩
    · cases h
      exact ⟨tells.refl, only⟩

theorem rel_of_notify {event : Event} {snapshot : Snapshot}
    (h : notify react event snapshot s = some t) : R s t ∧ t.Only P := by
  unfold notify at h
  generalize s.listeners = listeners at h
  induction listeners generalizing s with
  | nil =>
    cases h
    exact ⟨tells.refl, only⟩
  | cons who listeners ih =>
    rw [List.foldlM_cons] at h
    obtain ⟨_, mapped, rest⟩ := Option.bind_eq_some_iff.mp h
    obtain ⟨⟨failed, u⟩, told, rfl⟩ := Option.map_eq_some_iff.mp mapped
    obtain ⟨first, only⟩ := rel_of_tell tells calls only told
    obtain ⟨more, only⟩ := ih only rest
    exact ⟨tells.trans first more, only⟩

theorem rel_of_announce {news : News} (h : announce react news s = some t) : R s t ∧ t.Only P := by
  induction news generalizing s with
  | nil =>
    cases h
    exact ⟨tells.refl, only⟩
  | cons told news ih =>
    obtain ⟨event, snapshot⟩ := told
    obtain ⟨u, first, rest⟩ := Option.bind_eq_some_iff.mp h
    obtain ⟨made, only⟩ := rel_of_notify tells calls only first
    obtain ⟨more, only⟩ := ih only rest
    exact ⟨tells.trans made more, only⟩

end Relations

/-- The calls of observers, if they have a property, do what calls with the property do. -/
def Reacts (P : Call → Prop) (react : Reaction) : Prop :=
  ∀ {c : Call} {s t : Session} {r : Except Failure Reply}, c.Throughout P → s.Only P →
    react c s = some (r, t) → Does P s t

theorem telling_does : Telling (Does P) := ⟨.refl, .trans, .told, .replied, .seen⟩

section Reactions

variable (reacts : Reacts P react) (only : s.Only P)
include reacts only

theorem does_of_notify {event : Event} {snapshot : Snapshot}
    (h : notify react event snapshot s = some t) : Does P s t :=
  (rel_of_notify telling_does (fun given only h =>
    have made := reacts given only h
    ⟨made, made.only only⟩) only h).1

omit reacts only in
theorem advance_of_lost (lost : s.controller.lost = true) :
    advance react driver s = some (.error .badArgument, s) := by
  rw [advance, if_pos lost]

/-- What is answered for an executed instruction, by the controller after it. -/
def answerOf (after : Controller) : Controller.Outcome → Except Failure Snapshot
  | .completed | .stepped _ => .ok after.stored
  | .failed f => .error (failureOf after f)
  | .overflow => .error .overflow

omit reacts only in
/-- An instruction is executed, and then there is nothing but telling. -/
theorem advance_eq (kept : s.controller.lost = false) :
    advance react driver s = (announce react s.controller.news (s.executed driver)).map
      (answerOf (s.executed driver).controller s.controller.executeNext.1, ·) := by
  have same : (if s.controller.machine.hasFinished then s
      else s.log (.cycle driver s.controller)).controller = s.controller := by
    split <;> rfl
  have next : (if s.controller.machine.hasFinished then s
      else s.log (.cycle driver s.controller)).withController s.controller.executeNext.2 =
        s.executed driver := by
    rw [executed, begun]
    split <;> rfl
  rw [advance, if_neg (by simp [kept])]
  simp only [same, next]
  unfold Controller.news
  cases s.controller.executeNext.1 with
  | completed | failed f => simp [announce, answerOf, executed]
  | stepped finished =>
    cases finished <;> simp [announce, answerOf, executed, Option.map_eq_bind, Option.bind_assoc,
      Function.comp_def]
  | overflow => rfl

theorem does_of_advance {r : Except Failure Snapshot} (kept : s.controller.lost = false)
    (h : advance react driver s = some (r, t)) : Does P (s.executed driver) t := by
  have only : (s.executed driver).Only P := only.congr rfl
  rw [advance_eq kept] at h
  obtain ⟨u, told, same⟩ := Option.map_eq_some_iff.mp h
  cases same
  exact (rel_of_announce telling_does (fun given only h =>
    have made := reacts given only h
    ⟨made, made.only only⟩) only told).1

theorem does_of_single {r : Except Failure Snapshot}
    (free : s.controller.status = .idle ∨ ∃ delay, P (.run delay))
    (h : advance react .caller s = some (r, t)) : Does P s t := by
  cases lost : s.controller.lost with
  | false => exact .trans (.single free) (does_of_advance reacts only lost h)
  | true =>
    rw [advance_of_lost lost] at h
    cases h
    exact .refl

theorem does_of_complete {limit : Nat} {snapshot : Snapshot} {r : Except Failure Snapshot}
    (free : s.controller.status = .idle ∨ ∃ delay, P (.run delay))
    (h : complete react limit snapshot s = some (r, t)) : Does P s t := by
  induction limit generalizing s snapshot with
  | zero =>
    cases h
    exact .refl
  | succ limit ih =>
    unfold complete at h
    split at h
    · cases h
      exact .refl
    · obtain ⟨⟨r', u⟩, advanced, h⟩ := Option.bind_eq_some_iff.mp h
      have made := does_of_single reacts only free advanced
      cases r' with
      | error e =>
        cases h
        exact made
      | ok snapshot =>
        refine .trans made (ih (made.only only) ?_ h)
        -- observers are called between two cycles
        by_cases runs : ∃ delay, P (.run delay)
        · exact .inr runs
        · exact .inl (made.idle (not_exists.mp runs) (free.resolve_right runs))

/-! ## Jobs -/

theorem does_of_finish {failure : Option Failure} (h : finish react j failure s = some t) :
    ∃ u failure, Does P s.rested u ∧ t = u.setJob j (.ended failure) := by
  unfold finish at h
  unfold rested
  split at h
  · rename_i lost
    cases h
    rw [if_pos lost]
    exact ⟨_, _, .refl, rfl⟩
  · rename_i kept
    obtain ⟨u, told, same⟩ := Option.bind_eq_some_iff.mp h
    cases same
    rw [if_neg kept]
    exact ⟨u, _, does_of_notify reacts (only.congr rfl) told, rfl⟩

theorem does_of_turn {overlong : Bool} (waiting : s.jobs[j]? = some (.pending overlong))
    (h : turn react j overlong s = some t) : Does P s t := by
  unfold turn at h
  dsimp only at h
  have only : (s.setJob j .working).Only P := only.congr rfl
  have dropped {failure : Option Failure}
      (h : finish react j failure (s.setJob j .working) = some t) : Does P s t := by
    obtain ⟨u, _, made, rfl⟩ := does_of_finish reacts only h
    exact .drop waiting made
  split at h
  · exact dropped h
  · rename_i going
    replace going : s.controller.stopRequested = false := eq_false_of_ne_true going
    obtain ⟨⟨r, u⟩, advanced, h⟩ := Option.bind_eq_some_iff.mp h
    cases lost : (s.setJob j .working).controller.lost with
    | true =>
      rw [advance_of_lost lost] at advanced
      cases advanced
      exact dropped h
    | false =>
      have made := does_of_advance reacts only lost advanced
      have left {failure : Option Failure} (h : finish react j failure u = some t) : Does P s t := by
        obtain ⟨v, _, rested, rfl⟩ :=
          does_of_finish reacts (made.only (only.congr rfl)) h
        exact .leave waiting going made rested
      cases r with
      | error e => exact left h
      | ok snapshot =>
        dsimp only at h
        split at h
        · exact left h
        · split at h
          · exact left h
          · cases h
            exact .goOn waiting going made

omit reacts only in
theorem getElem?_of_getD {job : Job} (h : s.jobs[j]?.getD (.ended none) = job) (other : job ≠ .ended none) :
    s.jobs[j]? = some job := by
  cases found : s.jobs[j]? with
  | none =>
    rw [found] at h
    exact absurd h.symm other
  | some job' =>
    rw [found] at h
    exact congrArg some h

theorem does_of_demand {turns : Nat} {answer : JobEnd}
    (h : demand react j turns s = some (answer, t)) :
    Does P s t ∧ ∀ failure, answer = .ended failure → t.jobs[j]?.getD (.ended none) = .ended failure := by
  fun_induction demand react j turns s with
  | case1 =>
    cases h
    exact ⟨.refl, nofun⟩
  | case2 _ _ failure ended =>
    cases h
    exact ⟨.refl, fun _ same => by cases same; exact ended⟩
  | case3 => cases h
  | case4 s overlong waiting turns ih =>
    have waiting := getElem?_of_getD waiting nofun
    obtain ⟨u, turned, h⟩ := Option.bind_eq_some_iff.mp h
    have made := does_of_turn reacts only waiting turned
    obtain ⟨rest, ended⟩ := ih u (made.only only) h
    exact ⟨.trans made rest, ended⟩

end Reactions

end PocketMips.Simulator.Session
