import PocketMips.Proofs.Hearing
import PocketMips.Proofs.History
import PocketMips.Proofs.Lockstep

/-!
# Bystanders

Observers that perform no calls are bystanders. What a session does, answers and tells its other observers does
not depend on who stands by, nor on who fails when told: sessions that differ in nothing else are in step, and
stay so when bystanders come and go.
-/
namespace PocketMips.Simulator

/-! ## Lists that agree but for some elements -/

section Folds

variable {σ α : Type} {R : σ → σ → Prop} {G : α → Prop} {p : α → Bool} {f : σ → α → Option σ}
  {as bs : List α} {s t : σ}

theorem rel_foldlM_skip
    (right : ∀ {s t a}, G a → p a = true → R s t → ∃ u, f t a = some u ∧ R s u)
    (fit : ∀ b ∈ bs, G b) (skips : ∀ b ∈ bs, p b = true) (related : R s t) :
    ∃ u, bs.foldlM f t = some u ∧ R s u := by
  induction bs generalizing t with
  | nil => exact ⟨t, rfl, related⟩
  | cons b bs ih =>
    rw [List.forall_mem_cons] at fit skips
    obtain ⟨u, first, related⟩ := right fit.1 skips.1 related
    rw [List.foldlM_cons, first]
    exact ih fit.2 skips.2 related

/-- Two folds are in a relation if steps for equal elements keep it, and so does a step on one side only for an
element that one of the lists may lack. -/
theorem rel_foldlM
    (left : ∀ {s t a}, G a → p a = true → R s t → ∃ u, f s a = some u ∧ R u t)
    (right : ∀ {s t a}, G a → p a = true → R s t → ∃ u, f t a = some u ∧ R s u)
    (both : ∀ {s t a}, G a → p a = false → R s t → Option.Rel R (f s a) (f t a))
    (fit : ∀ a ∈ as, G a) (fit' : ∀ b ∈ bs, G b) (same : bs.filter (!p ·) = as.filter (!p ·))
    (related : R s t) : Option.Rel R (as.foldlM f s) (bs.foldlM f t) := by
  induction as generalizing s t bs with
  | nil =>
    have skips : ∀ b ∈ bs, p b = true := by simpa using List.filter_eq_nil_iff.mp same
    obtain ⟨u, rest, related⟩ := rel_foldlM_skip right fit' skips related
    rw [rest]
    exact .some related
  | cons a as ih =>
    rw [List.forall_mem_cons] at fit
    cases skips : p a with
    | true =>
      obtain ⟨u, first, related⟩ := left fit.1 skips related
      rw [List.foldlM_cons, first]
      rw [List.filter_cons_of_neg (by simp [skips])] at same
      exact ih fit.2 fit' same related
    | false =>
      rw [List.filter_cons_of_pos (by simp [skips])] at same
      -- what the other list has before the element is skipped
      obtain ⟨before, behind, rfl, others, -, same⟩ := List.filter_eq_cons_iff.mp same
      rw [List.forall_mem_append, List.forall_mem_cons] at fit'
      obtain ⟨u, passed, related⟩ := rel_foldlM_skip right fit'.1 (by simpa using others) related
      rw [List.foldlM_append, passed]
      show Option.Rel R _ ((a :: behind).foldlM f u)
      rw [List.foldlM_cons, List.foldlM_cons]
      exact rel_bind (both fit.1 skips related) fun related => ih fit.2 fit'.2.2 same related

end Folds

/-! ## Names and entries -/

/-- The name that an observer is subscribed under; the recorder has none. -/
def ObserverId.name? : ObserverId → Option String
  | .recorder => none
  | .scripted name _ => some name

variable {names : Option String → Bool}

namespace Call

/-- Whoever is subscribed by the call under one of the names performs no calls. -/
def Stands (names : Option String → Bool) : Call → Prop
  | .subscribe name _ _ acts _ => names (some name) = true → acts = []
  | _ => True

/-- Subscribes or unsubscribes an observer of one of the names. -/
def concerns (names : Option String → Bool) : Call → Bool
  | .mute => names none
  | .subscribe name .. | .unsubscribe name => names (some name)
  | _ => false

end Call

def Entry.concerns (names : Option String → Bool) : Entry → Bool
  | .told who .. => names who.name?
  | .cycle .. | .replied .. | .placed => false

namespace Session

variable {s t : Session} {react : Reaction} {who : ObserverId} {event : Event} {snapshot : Snapshot}
  {name : String} {depth turns : Nat}

/-! ## Sessions without their bystanders -/

/-- The session without the observers of some names, without what they have been told, and with nobody failing
but after acts. -/
def without (names : Option String → Bool) (s : Session) : Session :=
  { s with
    observers := s.observers.filter (!names ·.1.name?)
    listeners := s.listeners.filter (!names ·.name?)
    journal := s.journal.filter (!·.concerns names)
    raises := fun _ _ => false }

theorem without_log_of_concerns {e : Entry} (aside : e.concerns names = true) :
    (s.log e).without names = s.without names := by
  simp [without, log, aside]

theorem without_log {e : Entry} (other : e.concerns names = false) :
    (s.log e).without names = (s.without names).log e := by
  simp [without, log, other]

theorem without_countSeen (s : Session) (who : ObserverId) :
    (s.countSeen who).without names = (s.without names).countSeen who := by
  have kept (p : ObserverId × Observer) :
      (if p.1 = who then (p.1, { p.2 with seen := p.2.seen + 1 }) else (p.1, p.2)).1 = p.1 := by
    split <;> rfl
  simp only [without, countSeen, List.filter_map, Function.comp_def, kept]

theorem countSeen_without (aside : names who.name? = true) :
    (s.without names).countSeen who = s.without names := by
  have absent : ∀ p ∈ (s.without names).observers, p.1 ≠ who := by
    rintro p mem rfl
    simp [without, aside] at mem
  have same : ((s.without names).countSeen who).observers = (s.without names).observers := by
    refine (List.map_congr_left fun p mem => ?_).trans (List.map_id _)
    exact if_neg (absent p mem)
  show { s.without names with observers := ((s.without names).countSeen who).observers } = _
  rw [same]

theorem observer?_without (other : names who.name? = false) :
    (s.without names).observer? who = s.observer? who := by
  simp only [observer?, without, List.find?_filter]
  congr 2
  funext p
  by_cases same : p.1 = who <;> simp [same, other]

theorem generations_without (other : names (some name) = false) :
    (s.without names).generations name = s.generations name := by
  simp only [generations, without, List.countP_filter]
  congr 1
  funext p
  obtain ⟨id, o⟩ := p
  cases id with
  | recorder => rfl
  | scripted n g => by_cases same : n = name <;> simp [same, ObserverId.name?, other]

theorem without_remove_of_concerns (aside : names who.name? = true) :
    (s.remove who).without names = s.without names := by
  have absent : who ∉ s.listeners.filter (!names ·.name?) := by simp [aside]
  simp only [without, remove, ← List.erase_filter, List.erase_of_not_mem absent]

theorem without_remove : (s.remove who).without names = (s.without names).remove who := by
  simp only [without, remove, ← List.erase_filter]

theorem without_subscribe_of_concerns (o : Observer) (aside : names (some name) = true) :
    (s.subscribe name o).without names = s.without names := by
  simp [without, subscribe, ObserverId.name?, aside]

theorem without_subscribe (o : Observer) (other : names (some name) = false) :
    (s.subscribe name o).without names = (s.without names).subscribe name o := by
  have generation := generations_without (s := s) other
  simp only [subscribe, generation]
  simp [without, ObserverId.name?, other]

theorem without_unsubscribe_of_concerns (aside : names (some name) = true) :
    (s.unsubscribe name).without names = s.without names := by
  unfold unsubscribe
  split
  · rfl
  · exact without_remove_of_concerns aside

theorem without_unsubscribe (other : names (some name) = false) :
    (s.unsubscribe name).without names = (s.without names).unsubscribe name := by
  unfold unsubscribe
  rw [generations_without other]
  split
  · rfl
  · exact without_remove

theorem heard_without (other : names who.name? = false) : (s.without names).heard who = s.heard who := by
  simp only [heard, without, ← List.filter_reverse, List.filterMap_filter]
  congr 1
  funext e
  cases e with
  | told id _ _ _ => by_cases same : id = who <;> simp [same, Entry.concerns, Entry.heardBy?, other]
  | cycle | replied | placed => rfl

/-! ## Sessions that differ in bystanders -/

/-- The observers of some names are bystanders, and all that are subscribed under them will be. -/
structure Quiet (names : Option String → Bool) (s : Session) : Prop where
  stands : ∀ p ∈ s.observers, names p.1.name? = true → p.2.acts = []
  only : s.Only (Call.Stands names)

namespace Quiet

theorem congr (h : s.Quiet names) (same : t.observers = s.observers) : t.Quiet names :=
  ⟨by rw [same]; exact h.stands, h.only.congr same⟩

theorem countSeen (h : s.Quiet names) (who : ObserverId) : (s.countSeen who).Quiet names := by
  refine ⟨fun p mem aside => ?_, (Does.seen who).only h.only⟩
  obtain ⟨⟨id, o⟩, inside, rfl⟩ := List.mem_map.mp mem
  by_cases same : id = who
  · simp only [same, if_true] at aside ⊢
    exact h.stands _ inside (by simpa [same] using aside)
  · simp only [same, if_false] at aside ⊢
    exact h.stands _ inside aside

theorem subscribe (h : s.Quiet names) {o : Observer} (stands : names (some name) = true → o.acts = [])
    (given : ∀ a ∈ o.acts, a.Throughout (Call.Stands names)) : (s.subscribe name o).Quiet names := by
  constructor
  · intro p mem aside
    rcases List.mem_append.mp mem with mem | mem
    · exact h.stands p mem aside
    · cases List.mem_singleton.mp mem
      exact stands aside
  · intro p mem
    rcases List.mem_append.mp mem with mem | mem
    · exact h.only p mem
    · cases List.mem_singleton.mp mem
      exact given

theorem unsubscribe (h : s.Quiet names) (name : String) : (s.unsubscribe name).Quiet names := by
  unfold Session.unsubscribe
  split
  · exact h
  · exact h.congr rfl

theorem acts (h : s.Quiet names) {o : Observer} (found : s.observer? who = some o) :
    (names who.name? = true → o.acts = []) ∧ ∀ a ∈ o.acts, a.Throughout (Call.Stands names) := by
  obtain ⟨p, inside, rfl⟩ := Option.map_eq_some_iff.mp found
  have is : p.1 = who := by simpa using List.find?_some inside
  have mem := List.mem_of_find?_eq_some inside
  exact ⟨fun aside => h.stands p mem (by rwa [is]), h.only p mem⟩

end Quiet

/-- The sessions differ in bystanders and in who fails only. -/
structure Beside (names : Option String → Bool) (s t : Session) : Prop where
  left : s.Quiet names
  right : t.Quiet names
  same : t.without names = s.without names

namespace Beside

theorem congr (h : s.Beside names t) {α : Type} {f : Session → α}
    (kept : ∀ s : Session, f (s.without names) = f s) : f t = f s := by
  rw [← kept, h.same, kept]

theorem controller (h : s.Beside names t) : t.controller = s.controller := h.congr fun _ => rfl

theorem jobs (h : s.Beside names t) : t.jobs = s.jobs := h.congr fun _ => rfl

theorem current (h : s.Beside names t) : t.current = s.current := h.congr fun _ => rfl

theorem heard (h : s.Beside names t) (other : names who.name? = false) : t.heard who = s.heard who :=
  h.congr fun _ => heard_without other

theorem observer? (h : s.Beside names t) (other : names who.name? = false) :
    t.observer? who = s.observer? who :=
  h.congr (f := fun s => s.observer? who) fun _ => observer?_without other

theorem log (h : s.Beside names t) {e : Entry} (other : e.concerns names = false) :
    (s.log e).Beside names (t.log e) :=
  ⟨h.left.congr rfl, h.right.congr rfl, by rw [without_log other, without_log other, h.same]⟩

theorem told (h : s.Beside names t) (other : names who.name? = false) (event : Event)
    (snapshot : Snapshot) :
    (s.log (.told who event snapshot s.controller)).Beside names
      (t.log (.told who event snapshot t.controller)) := by
  rw [h.controller]
  exact h.log other

theorem countSeen (h : s.Beside names t) (who : ObserverId) :
    (s.countSeen who).Beside names (t.countSeen who) :=
  ⟨h.left.countSeen who, h.right.countSeen who, by rw [without_countSeen, without_countSeen, h.same]⟩

theorem remove (h : s.Beside names t) (who : ObserverId) : (s.remove who).Beside names (t.remove who) :=
  ⟨h.left.congr rfl, h.right.congr rfl, by rw [without_remove, without_remove, h.same]⟩

theorem subscribe (h : s.Beside names t) {o : Observer} (stands : names (some name) = true → o.acts = [])
    (given : ∀ a ∈ o.acts, a.Throughout (Call.Stands names)) :
    (s.subscribe name o).Beside names (t.subscribe name o) := by
  refine ⟨h.left.subscribe stands given, h.right.subscribe stands given, ?_⟩
  cases aside : names (some name) with
  | true => rw [without_subscribe_of_concerns o aside, without_subscribe_of_concerns o aside, h.same]
  | false => rw [without_subscribe o aside, without_subscribe o aside, h.same]

theorem unsubscribe (h : s.Beside names t) (name : String) :
    (s.unsubscribe name).Beside names (t.unsubscribe name) := by
  refine ⟨h.left.unsubscribe name, h.right.unsubscribe name, ?_⟩
  cases aside : names (some name) with
  | true => rw [without_unsubscribe_of_concerns aside, without_unsubscribe_of_concerns aside, h.same]
  | false => rw [without_unsubscribe aside, without_unsubscribe aside, h.same]

end Beside

theorem lockstep_beside : Lockstep Eq (Beside names) where
  labels _ := rfl
  controller h := by
    rw [h.controller]
    exact ⟨rfl, rfl⟩
  jobs h := h.jobs
  current h := h.current
  withController {_ _ c _} h related := by
    rw [related.eq]
    exact ⟨h.left.congr rfl, h.right.congr rfl, congrArg (Session.withController · c) h.same⟩
  withJobs jobs current h :=
    ⟨h.left.congr rfl, h.right.congr rfl, congrArg (fun u : Session => { u with jobs, current }) h.same⟩
  cycle _ h := by
    rw [h.controller]
    exact h.log rfl
  replied _ _ h := h.log rfl
  placed h := h.log rfl
  seen who h := h.countSeen who

/-! ## Telling the observers -/

/-- A bystander is told, and only it takes note of that, whether it fails or not. -/
theorem tell_bystander (react : Reaction) (event : Event) (snapshot : Snapshot) (quiet : s.Quiet names)
    (aside : names who.name? = true) : ∃ u, (tell react event snapshot s who).map (·.2) = some u ∧
      u.Quiet names ∧ u.without names = s.without names := by
  have logged : (s.log (.told who event snapshot s.controller)).without names = s.without names :=
    without_log_of_concerns aside
  have quiet : (s.log (.told who event snapshot s.controller)).Quiet names := quiet.congr rfl
  have counted : ((s.log (.told who event snapshot s.controller)).countSeen who).without names =
      s.without names := by
    rw [without_countSeen, countSeen_without aside, logged]
  unfold tell
  dsimp only
  split
  · exact ⟨_, rfl, quiet, logged⟩
  · rename_i o found
    rw [(quiet.acts found).1 aside]
    split
    · split
      · exact ⟨_, rfl, quiet.countSeen who, counted⟩
      · exact ⟨_, rfl, quiet.countSeen who, counted⟩
    · exact ⟨_, rfl, quiet, logged⟩

/-- The calls of observers are answered alike, whoever stands by. -/
def Undisturbed (names : Option String → Bool) (react : Reaction) : Prop :=
  ∀ {c : Call} {s t : Session}, c.Throughout (Call.Stands names) → s.Beside names t →
    InStep (Beside names) (react c s) (react c t)

section Reactions

variable (undisturbed : Undisturbed names react)
include undisturbed

theorem notifies_beside : Notifies (Beside names) react := by
  intro event snapshot s t beside
  have same : t.listeners.filter (!names ·.name?) = s.listeners.filter (!names ·.name?) :=
    congrArg (fun u : Session => u.listeners) beside.same
  -- a bystander that only one of the sessions has is told on that side only
  refine rel_foldlM (G := fun _ => True) (p := fun who => names who.name?) ?_ ?_ ?_
    (fun _ _ => trivial) (fun _ _ => trivial) same beside
  · intro s t who _ aside beside
    obtain ⟨u, told, quiet, stays⟩ := tell_bystander react event snapshot beside.left aside
    exact ⟨u, told, quiet, beside.right, beside.same.trans stays.symm⟩
  · intro s t who _ aside beside
    obtain ⟨u, told, quiet, stays⟩ := tell_bystander react event snapshot beside.right aside
    exact ⟨u, told, beside.left, quiet, stays.trans beside.same⟩
  · intro s t who _ other beside
    refine lockstep_beside.tell (beside.told other event snapshot) (beside.observer? other) ?_
    intro o found c mem u v related
    exact undisturbed ((beside.left.acts found).2 c mem) related

theorem undisturbed_respond {turns : Nat} : Undisturbed names (respond react turns) := by
  intro c s t given beside
  cases c with
  | mute => exact inStep_some _ (beside.remove _)
  | subscribe name event turn acts fails =>
    exact inStep_some _ (beside.subscribe (fun aside => given.self aside) given.acts)
  | unsubscribe name => exact inStep_some _ (beside.unsubscribe _)
  | _ => exact lockstep_beside.respond (notifies_beside undisturbed) beside turns id

end Reactions

theorem undisturbed_perform : Undisturbed names (perform depth turns) := by
  induction depth with
  | zero => exact fun _ _ => .none
  | succ depth ih => exact undisturbed_respond ih

/-! ## Histories -/

/-- What is done to a session: a call is made, a job that waits for its turn has it, or a pause during a run
has asked it to stop and gives up waiting. -/
inductive Operation
  | call (c : Call)
  | turn (j : Nat)
  | expire

namespace Operation

def concerns (names : Option String → Bool) : Operation → Bool
  | .call c => c.concerns names
  | .turn _ | .expire => false

def Stands (names : Option String → Bool) : Operation → Prop
  | .call c => c.Throughout (Call.Stands names)
  | .turn _ | .expire => True

end Operation

/-- Operations with their answers, if they are calls. -/
abbrev Transcript := List (Operation × Option (Except Failure Reply))

/-- The answer to an operation that can be done and comes to an end, and the session after it. -/
def operate (depth turns : Nat) (s : Session) : Operation → Option (Option (Except Failure Reply) × Session)
  | .call c => (perform depth turns c s).map fun (r, t) => (some r, t)
  | .turn j => (worked depth turns j s).map fun t => (none, t)
  | .expire =>
    if s.controller.isRunning then some (none, s.withController s.controller.requestStop) else none

/-- Operations one after the other. -/
def live (depth turns : Nat) (ops : List Operation) (s : Session) : Option (Transcript × Session) :=
  ops.foldlM (fun p op => (operate depth turns p.2 op).map fun (r, t) => (p.1 ++ [(op, r)], t)) ([], s)

variable {op : Operation} {ops ops' : List Operation}

theorem beside_operate (stands : op.Stands names) (beside : s.Beside names t) :
    InStep (Beside names) (operate depth turns s op) (operate depth turns t op) := by
  cases op with
  | call c => exact (undisturbed_perform stands beside).map some
  | turn j =>
    refine inStep_map none ?_
    unfold worked
    rw [beside.jobs]
    split
    · exact lockstep_beside.turn (notifies_beside undisturbed_perform) beside j _
    · exact .none
  | expire =>
    have asked := lockstep_beside.change beside (f := Controller.requestStop) fun _ _ => rfl
    show InStep _ (if s.controller.isRunning then _ else _) (if t.controller.isRunning then _ else _)
    rw [lockstep_beside.isRunning beside]
    split
    · exact inStep_some _ asked
    · exact .none

theorem operate_bystander (depth turns : Nat) (stands : op.Stands names) (aside : op.concerns names = true)
    (quiet : s.Quiet names) : ∃ r u, operate (depth + 1) turns s op = some (r, u) ∧ u.Quiet names ∧
      u.without names = s.without names := by
  cases op with
  | turn | expire => cases aside
  | call c =>
    cases c with
    | mute => exact ⟨_, _, rfl, quiet.congr rfl, without_remove_of_concerns aside⟩
    | subscribe name event turn acts fails =>
      exact ⟨_, _, rfl, quiet.subscribe stands.self stands.acts, without_subscribe_of_concerns _ aside⟩
    | unsubscribe name => exact ⟨_, _, rfl, quiet.unsubscribe name, without_unsubscribe_of_concerns aside⟩
    | _ => cases aside

/-- Histories that agree but for bystanders leave sessions that differ in bystanders. -/
theorem beside_live (beside : s.Beside names t) (stands : ∀ op ∈ ops, op.Stands names)
    (stands' : ∀ op ∈ ops', op.Stands names)
    (same : ops'.filter (!·.concerns names) = ops.filter (!·.concerns names)) (depth turns : Nat) :
    Option.Rel
      (fun p q => q.1.filter (!·.1.concerns names) = p.1.filter (!·.1.concerns names) ∧ p.2.Beside names q.2)
      (live (depth + 1) turns ops s) (live (depth + 1) turns ops' t) := by
  refine rel_foldlM (G := fun op => op.Stands names) (p := fun op => op.concerns names) ?_ ?_ ?_
    stands stands' same ⟨rfl, beside⟩
  · rintro p q op stands aside ⟨answers, beside⟩
    obtain ⟨r, u, done, quiet, stays⟩ := operate_bystander depth turns stands aside beside.left
    refine ⟨_, by rw [done]; rfl, ?_, quiet, beside.right, beside.same.trans stays.symm⟩
    simp [answers, aside]
  · rintro p q op stands aside ⟨answers, beside⟩
    obtain ⟨r, u, done, quiet, stays⟩ := operate_bystander depth turns stands aside beside.right
    refine ⟨_, by rw [done]; rfl, ?_, beside.left, quiet, stays.trans beside.same⟩
    simp [answers, aside]
  · rintro p q op stands other ⟨answers, beside⟩
    refine rel_map (beside_operate stands beside) fun {a b} related => ?_
    obtain ⟨⟨r, u⟩, ⟨_, v⟩⟩ := a, b
    obtain ⟨rfl, beside⟩ := related
    exact ⟨by simp [answers, other], beside⟩

/-- **Bystanders do not disturb.** Two sessions differ in the observers of some names, which perform no calls,
and in who fails on which of all the times that it is told. They go through the same operations, but for
subscriptions of such observers and their ends. Then either both come to the end or none; all other operations
are answered alike; the simulator is in the same state, with the same jobs; every other observer has heard the
same events with the same snapshots; and apart from what bystanders have been told, the same has happened. -/
theorem bystanders_do_not_disturb (beside : s.Beside names t) (stands : ∀ op ∈ ops, op.Stands names)
    (stands' : ∀ op ∈ ops', op.Stands names)
    (same : ops'.filter (!·.concerns names) = ops.filter (!·.concerns names)) (depth turns : Nat) :
    Option.Rel
      (fun p q =>
        q.1.filter (!·.1.concerns names) = p.1.filter (!·.1.concerns names) ∧
        q.2.controller = p.2.controller ∧ q.2.jobs = p.2.jobs ∧ q.2.current = p.2.current ∧
        (∀ who, names who.name? = false → q.2.heard who = p.2.heard who) ∧
        q.2.without names = p.2.without names)
      (live (depth + 1) turns ops s) (live (depth + 1) turns ops' t) := by
  have lived := beside_live beside stands stands' same depth turns
  generalize live (depth + 1) turns ops s = x at lived
  generalize live (depth + 1) turns ops' t = y at lived
  cases lived with
  | none => exact .none
  | some ended =>
    obtain ⟨answers, beside⟩ := ended
    exact .some ⟨answers, beside.controller, beside.jobs, beside.current, fun _ => beside.heard, beside.same⟩

def watcher (name : Option String) : Bool := name = some "watcher"

/-- A session where the watcher fails whenever it is told of an event. -/
def faltering : Session := { bare with raises := fun who _ => watcher who.name? }

/-- A run in the background that a watcher sees the start of. -/
def watchedRun : List Operation :=
  [.call (.subscribe "watcher" (some .step) 1 [] true),
    .call (.subscribe "meter" (some .step) 2 [.timeText] false),
    .call (.loadWords [0x20080001, 0x20080002]), .call (.run .period), .turn 0,
    .call (.unsubscribe "watcher"), .call .wait]

/-- The meter hears and asks the same without the watcher, which has failed at each of three events. -/
theorem watcher_does_not_disturb : ∃ p q, live 3 3 watchedRun faltering = some p ∧
    live 3 3 (watchedRun.filter (!·.concerns watcher)) bare = some q ∧
    q.2.controller = p.2.controller ∧ q.2.heard (.scripted "meter" 0) = p.2.heard (.scripted "meter" 0) ∧
    (p.2.heard (.scripted "meter" 0)).map (·.1) = [.loaded, .started, .step, .step, .completed, .stopped] ∧
    (p.2.heard (.scripted "watcher" 0)).map (·.1) = [.loaded, .started, .step] ∧
    q.2.heard (.scripted "watcher" 0) = [] := by
  have lived : (live 3 3 watchedRun faltering).map (fun p =>
      [(p.2.heard (.scripted "meter" 0)).map (·.1), (p.2.heard (.scripted "watcher" 0)).map (·.1)]) =
        some [[.loaded, .started, .step, .step, .completed, .stopped], [.loaded, .started, .step]] := by
    decide +kernel
  have alone : (live 3 3 (watchedRun.filter (!·.concerns watcher)) bare).map (fun q =>
      (q.2.heard (.scripted "watcher" 0)).map (·.1)) = some [] := by
    decide +kernel
  have quiet (raises : ObserverId → List Entry → Bool) :
      Quiet watcher { bare with raises } :=
    ⟨fun _ mem => absurd mem List.not_mem_nil, fun _ mem => absurd mem List.not_mem_nil⟩
  have beside : faltering.Beside watcher bare := ⟨quiet _, quiet _, rfl⟩
  have stands : ∀ op ∈ watchedRun, op.Stands watcher := by
    intro op mem
    simp only [watchedRun, List.mem_cons, List.not_mem_nil, or_false] at mem
    rcases mem with rfl | rfl | rfl | rfl | rfl | rfl | rfl
    · exact .of_nil (fun _ => rfl) rfl
    · refine .intro (fun aside => by cases aside) fun a mem => ?_
      cases List.mem_singleton.mp mem
      exact .of_nil trivial rfl
    all_goals first | exact .of_nil trivial rfl | trivial
  have same : (watchedRun.filter (!·.concerns watcher)).filter (!·.concerns watcher) =
      watchedRun.filter (!·.concerns watcher) := by
    simp
  have related := bystanders_do_not_disturb beside stands
    (fun op mem => stands op (List.mem_filter.mp mem).1) same 2 3
  obtain ⟨p, lives, heard⟩ := Option.map_eq_some_iff.mp lived
  obtain ⟨q, lives', silent⟩ := Option.map_eq_some_iff.mp alone
  rw [lives, lives'] at related
  cases related with
  | some ended =>
    obtain ⟨-, controller, -, -, same, -⟩ := ended
    simp only [List.cons.injEq, and_true] at heard
    exact ⟨p, q, lives, lives', controller, same _ (by decide), heard.1, heard.2, List.map_eq_nil_iff.mp silent⟩

end Session

end PocketMips.Simulator
