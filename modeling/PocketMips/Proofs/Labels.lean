import PocketMips.Proofs.Calls
import PocketMips.Proofs.Lockstep

/-!
# Labels do not matter

The labels of a program are kept for those who ask for them. Sessions that differ in labels only answer every
call alike, whatever their observers do, and differ in labels only afterwards.
-/
namespace PocketMips.Simulator

open Assembly

/-! ## The controller -/

namespace Controller

variable {c : Controller} {program : List Word}

/-- The controller with its labels forgotten. -/
def unlabelled (c : Controller) : Controller := { c with labels := [] }

theorem labels_of_place {labels : Labels} {after : Controller}
    (placed : c.place program labels = (.ok (), after)) : after.labels = labels := by
  obtain ⟨start, fresh, -, installed, shown⟩ := place_eq_ok placed
  obtain ⟨machine, -, rfl⟩ := reinstall_eq_ok_iff.mp installed
  rcases shown with rfl | ⟨v, rfl⟩ <;> rfl

end Controller

/-! ## Sessions -/

/-- The entry with the labels of its controller forgotten. -/
def Entry.unlabelled : Entry → Entry
  | .cycle driver before => .cycle driver before.unlabelled
  | .told who event snapshot controller => .told who event snapshot controller.unlabelled
  | .replied call result => .replied call result
  | .placed => .placed

namespace Session

/-- The session with all labels forgotten, also those that its journal tells of. -/
def unlabelled (s : Session) : Session :=
  { s with controller := s.controller.unlabelled, journal := s.journal.map Entry.unlabelled }

variable {s t : Session} {react : Reaction}

/-- The sessions differ in labels only. -/
structure Twins (s t : Session) : Prop where
  controller : ∃ labels, t.controller = s.controller.relabelled labels
  jobs : t.jobs = s.jobs
  current : t.current = s.current
  observers : t.observers = s.observers
  listeners : t.listeners = s.listeners
  journal : t.journal.map Entry.unlabelled = s.journal.map Entry.unlabelled
  raises : t.raises = s.raises

namespace Twins

theorem refl (s : Session) : s.Twins s := ⟨⟨s.controller.labels, rfl⟩, rfl, rfl, rfl, rfl, rfl, rfl⟩

theorem unlabelled_eq (h : s.Twins t) : t.unlabelled = s.unlabelled := by
  obtain ⟨⟨labels, controller⟩, jobs, current, observers, listeners, journal, raises⟩ := h
  simp only [unlabelled, controller, jobs, current, observers, listeners, journal, raises]
  rfl

theorem controller_unlabelled (h : s.Twins t) : t.controller.unlabelled = s.controller.unlabelled :=
  congrArg Session.controller h.unlabelled_eq

theorem log (h : s.Twins t) {e e' : Entry} (same : e'.unlabelled = e.unlabelled) :
    (s.log e).Twins (t.log e') := by
  refine ⟨h.controller, h.jobs, h.current, h.observers, h.listeners, ?_, h.raises⟩
  rw [Session.log, List.map_cons, same, h.journal]
  rfl

theorem told (h : s.Twins t) (who : ObserverId) (event : Event) (snapshot : Snapshot) :
    (s.log (.told who event snapshot s.controller)).Twins
      (t.log (.told who event snapshot t.controller)) :=
  h.log (by rw [Entry.unlabelled, h.controller_unlabelled]; rfl)

theorem countSeen (h : s.Twins t) (who : ObserverId) : (s.countSeen who).Twins (t.countSeen who) := by
  refine ⟨h.controller, h.jobs, h.current, ?_, h.listeners, h.journal, h.raises⟩
  rw [Session.countSeen, h.observers]
  rfl

theorem observer? (h : s.Twins t) (who : ObserverId) : t.observer? who = s.observer? who := by
  rw [Session.observer?, h.observers]
  rfl

theorem remove (h : s.Twins t) (who : ObserverId) : (s.remove who).Twins (t.remove who) := by
  refine ⟨h.controller, h.jobs, h.current, h.observers, ?_, h.journal, h.raises⟩
  rw [Session.remove, h.listeners]
  rfl

theorem generations (h : s.Twins t) (name : String) : t.generations name = s.generations name := by
  rw [Session.generations, h.observers]
  rfl

theorem subscribe (h : s.Twins t) (name : String) (o : Observer) :
    (s.subscribe name o).Twins (t.subscribe name o) := by
  refine ⟨h.controller, h.jobs, h.current, ?_, ?_, h.journal, h.raises⟩
  · simp only [Session.subscribe, h.generations, h.observers]
  · simp only [Session.subscribe, h.generations, h.listeners]

theorem unsubscribe (h : s.Twins t) (name : String) : (s.unsubscribe name).Twins (t.unsubscribe name) := by
  unfold Session.unsubscribe
  rw [h.generations]
  split
  · exact h
  · exact h.remove _

end Twins

/-- Any two controllers that differ in labels only may take part. -/
theorem lockstep_twins : Lockstep (fun _ _ => True) Twins where
  labels _ := trivial
  controller h := by
    obtain ⟨labels, same⟩ := h.controller
    exact ⟨trivial, by rw [same]; rfl⟩
  jobs h := h.jobs
  current h := h.current
  withController h related :=
    ⟨⟨_, related.relabelled⟩, h.jobs, h.current, h.observers, h.listeners, h.journal, h.raises⟩
  withJobs _ _ h := ⟨h.controller, rfl, rfl, h.observers, h.listeners, h.journal, h.raises⟩
  cycle _ h := h.log (by rw [Entry.unlabelled, h.controller_unlabelled]; rfl)
  replied _ _ h := h.log rfl
  placed h := h.log rfl
  seen who h := h.countSeen who

/-- Results that differ in labels only. -/
def Agree {α : Type} : Option (α × Session) → Option (α × Session) → Prop :=
  Option.Rel fun p q => p.1 = q.1 ∧ p.2.Twins q.2

theorem Agree.unlabelled_eq {α : Type} {x y : Option (α × Session)} (h : Agree x y) :
    (y.map fun (a, s) => (a, s.unlabelled)) = x.map fun (a, s) => (a, s.unlabelled) := by
  cases h with
  | none => rfl
  | some related => exact congrArg some (Prod.ext related.1.symm related.2.unlabelled_eq)

/-- The calls of observers are answered alike, but for labels. -/
def Indifferent (react : Reaction) : Prop :=
  ∀ (c : Call) {s t : Session}, s.Twins t → Agree (react c s) (react c t)

section Reactions

variable (indifferent : Indifferent react)
include indifferent

theorem notifies_twins : Notifies Twins react := by
  intro event snapshot s t twins
  unfold notify
  rw [twins.listeners]
  generalize s.listeners = listeners
  induction listeners generalizing s t with
  | nil => exact .some twins
  | cons who listeners ih =>
    rw [List.foldlM_cons, List.foldlM_cons]
    refine rel_bind (lockstep_twins.tell (twins.told who event snapshot) (twins.observer? who) ?_) ih
    intro o _ c _ s t twins
    exact indifferent c twins

theorem agree_respond (twins : s.Twins t) (turns : Nat) (c : Call) :
    Agree (respond react turns c s) (respond react turns c t) := by
  cases c with
  | mute => exact inStep_some _ (twins.remove _)
  | subscribe name event turn acts fails => exact inStep_some _ (twins.subscribe _ _)
  | unsubscribe name => exact inStep_some _ (twins.unsubscribe _)
  | _ => exact lockstep_twins.respond (notifies_twins indifferent) twins turns id

end Reactions

theorem indifferent_perform (depth turns : Nat) : Indifferent (perform depth turns) := by
  induction depth with
  | zero => exact fun c s t _ => .none
  | succ depth ih => exact fun c s t twins => agree_respond ih twins turns c

/-- A program is loaded as a source or as its words: but for the labels that is the same. -/
theorem agree_words {source : Source} {labels : Labels} {program : List Word}
    (assembled : s.assemble source = .ok (labels, program)) (depth turns : Nat) :
    Agree (perform depth turns (.load source) s)
      (perform depth turns (.loadWords (program.map fun w => (w.toNat : Int))) s) := by
  cases depth with
  | zero => exact .none
  | succ depth =>
    show Agree (load (perform depth turns) source s) (loadWords (perform depth turns) _ s)
    unfold load loadWords
    rw [assembled, Image.residues_toNat]
    split
    · exact inStep_some _ (.refl s)
    · exact lockstep_twins.install (notifies_twins (indifferent_perform depth turns)) (.refl s) trivial _ _
        fun _ _ => rfl

/-- A program that is driven keeps its labels. -/
theorem Does.labels (h : Does Call.Drives s t) : t.controller.labels = s.controller.labels := by
  have executed (c : Controller) : c.executeNext.2.labels = c.labels := by
    obtain ⟨machine, statistics, instr, error, stored, shownPc, same⟩ := c.executeNext_fields
    rw [same]
  have rested (s : Session) : s.rested.controller.labels = s.controller.labels := by
    unfold rested
    split <;> rfl
  induction h with
  | trans _ _ first second => exact second.trans first
  | single _ => exact executed _
  | goOn _ _ _ ih => exact ih.trans (executed _)
  | leave _ _ _ _ first second => exact second.trans ((rested _).trans (first.trans (executed _)))
  | drop _ _ ih => exact ih.trans (rested _)
  | rest _ => exact rested _
  | launch _ _ _ _ ih => exact ih
  | place made replaces => exact absurd replaces made.1
  | misplace _ failed => obtain rfl | ⟨-, rfl | rfl⟩ := Controller.place_eq_error failed <;> rfl
  | _ => rfl

end Session

end PocketMips.Simulator
