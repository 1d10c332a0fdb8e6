import PocketMips.Proofs.Watching

/-!
# What a listener hears

Observers that only watch are told of an event once each, and nobody else's calls come between. What a
listener has heard is read off the journal.
-/
namespace PocketMips.Simulator

/-- What an entry of the journal tells a listener. -/
def Entry.heardBy? (who : ObserverId) : Entry → Option (Event × Snapshot)
  | .told other event snapshot _ => if other = who then some (event, snapshot) else none
  | .cycle _ _ | .replied _ _ | .placed => none

/-- Does not unsubscribe a listener. -/
def Call.Spares (who : ObserverId) : Call → Prop
  | .mute => who ≠ .recorder
  | .unsubscribe name => ∀ generation, who ≠ .scripted name generation
  | _ => True

namespace Call.Throughout

variable {P Q : Call → Prop} {c : Call}

theorem and (h : c.Throughout P) (h' : c.Throughout Q) : c.Throughout fun c => P c ∧ Q c := by
  induction h with
  | intro holds _ ih => exact .intro ⟨holds, h'.self⟩ fun a mem => ih a mem (h'.acts a mem)

end Call.Throughout

namespace Session

variable {s t u : Session} {depth turns : Nat} {who : ObserverId} {event : Event} {snapshot : Snapshot}
  {news news' : News}

/-- What a listener has heard. -/
def heard (who : ObserverId) (s : Session) : News := s.journal.reverse.filterMap (Entry.heardBy? who)

theorem heard_log (s : Session) (e : Entry) :
    (s.log e).heard who = s.heard who ++ (e.heardBy? who).toList := by
  cases is : e.heardBy? who <;> simp [heard, log, is]

theorem heard_congr (same : t.journal = s.journal) : t.heard who = s.heard who := by
  rw [heard, same, heard]

theorem heard_executed (s : Session) (driver : Driver) : (s.executed driver).heard who = s.heard who := by
  cases s.controller.machine.hasFinished <;>
    simp [*, heard, executed, begun, Entry.heardBy?]

/-- An observer is subscribed, once, and its name is known. -/
structure Listens (s : Session) (who : ObserverId) : Prop where
  once : s.listeners.count who = 1
  known : ∀ name generation, who = .scripted name generation → generation < s.generations name

namespace Listens

theorem congr (h : s.Listens who) (observers : t.observers = s.observers)
    (listeners : t.listeners = s.listeners) : t.Listens who := by
  refine ⟨by rw [listeners, h.once], fun name generation is => ?_⟩
  rw [generations, observers]
  exact h.known name generation is

theorem countSeen (h : s.Listens who) (other : ObserverId) : (s.countSeen other).Listens who := by
  refine ⟨h.once, fun name generation is => ?_⟩
  have same : (s.countSeen other).generations name = s.generations name := by
    simp only [generations, Session.countSeen, List.countP_map]
    congr 1
    funext ⟨id, o⟩
    by_cases is : id = other <;> simp [is]
  rw [same]
  exact h.known name generation is

theorem subscribe (h : s.Listens who) (name : String) (o : Observer) : (s.subscribe name o).Listens who := by
  have other : who ≠ .scripted name (s.generations name) := fun same =>
    Nat.lt_irrefl _ (h.known _ _ same)
  refine ⟨?_, fun name' generation is => ?_⟩
  · rw [Session.subscribe, List.count_append, h.once, List.count_singleton]
    simp [other.symm]
  · refine Nat.lt_of_lt_of_le (h.known name' generation is) ?_
    simp [generations, Session.subscribe]

theorem remove (h : s.Listens who) {other : ObserverId} (ne : who ≠ other) :
    (s.remove other).Listens who :=
  ⟨by rw [Session.remove, List.count_erase_of_ne ne, h.once], h.known⟩

end Listens

theorem unheard_of_watches {c : Call} {r : Except Failure Reply} (watches : c.Watches)
    (h : perform depth turns c s = some (r, t)) :
    t.journal = s.journal ∧ ∀ who, c.Spares who → s.Listens who → t.Listens who := by
  cases depth with
  | zero => cases h
  | succ depth =>
    cases c with
    | register | wordAt | timeText =>
      cases h
      exact ⟨rfl, fun _ _ => id⟩
    | mute =>
      cases h
      exact ⟨rfl, fun _ spares listens => listens.remove spares⟩
    | subscribe =>
      cases h
      exact ⟨rfl, fun _ _ listens => listens.subscribe _ _⟩
    | unsubscribe name =>
      cases h
      unfold unsubscribe
      split
      · exact ⟨rfl, fun _ _ => id⟩
      · exact ⟨rfl, fun _ spares listens => listens.remove (spares _)⟩
    | memory access =>
      replace h : s.accessMemory access = (r, t) := Option.some.inj h
      unfold accessMemory at h
      dsimp only at h
      split at h <;> cases h <;> exact ⟨rfl, fun _ _ listens => listens.congr rfl rfl⟩
    | _ => cases watches

/-- Observers still only watch, and every listener that they spare has heard some news. -/
structure Hears (s t : Session) (news : News) : Prop where
  only : s.Only Call.Watches → t.Only Call.Watches
  spares : ∀ who, s.Only (Call.Spares who) → t.Only (Call.Spares who)
  heard : ∀ who, s.Only (Call.Spares who) → s.Listens who →
    t.Listens who ∧ t.heard who = s.heard who ++ news

namespace Hears

theorem of_eq (observers : t.observers = s.observers) (listeners : t.listeners = s.listeners)
    (same : ∀ who, t.heard who = s.heard who) : s.Hears t [] :=
  ⟨.congr observers, fun _ => .congr observers,
    fun who _ listens => ⟨listens.congr observers listeners, by simp [same]⟩⟩

theorem withController (s : Session) (c : Controller) : s.Hears (s.withController c) [] :=
  .of_eq rfl rfl fun _ => rfl

theorem setJob (s : Session) (j : Nat) (job : Job) : s.Hears (s.setJob j job) [] :=
  .of_eq rfl rfl fun _ => rfl

theorem placed (s : Session) (c : Controller) : s.Hears ((s.withController c).log .placed) [] := by
  refine .of_eq rfl rfl fun who => ?_
  rw [heard_log]
  exact List.append_nil _

theorem trans (first : s.Hears t news) (second : t.Hears u news') : s.Hears u (news ++ news') := by
  refine ⟨second.only ∘ first.only, fun who => second.spares who ∘ first.spares who,
    fun who spares listens => ?_⟩
  obtain ⟨listens, same⟩ := first.heard who spares listens
  obtain ⟨listens, same'⟩ := second.heard who (first.spares who spares) listens
  exact ⟨listens, by rw [same', same, List.append_assoc]⟩

end Hears

theorem heard_act {acts : List Call} (given : ∀ a ∈ acts, a.Watches)
    (h : act (perform depth turns) acts s = some t) : t.heard who = s.heard who := by
  induction acts generalizing s with
  | nil =>
    cases h
    rfl
  | cons c acts ih =>
    rw [List.forall_mem_cons] at given
    obtain ⟨⟨r, u⟩, performed, rest⟩ := Option.bind_eq_some_iff.mp h
    have silent : u.heard who = s.heard who := heard_congr (unheard_of_watches given.1 performed).1
    rw [ih given.2 rest, heard_log, silent]
    exact List.append_nil _

theorem heard_tell {failed : Bool} {other : ObserverId} (only : s.Only Call.Watches)
    (h : tell (perform depth turns) event snapshot s other = some (failed, t)) :
    t.heard who = s.heard who ++ if other = who then [(event, snapshot)] else [] := by
  have logged : (s.log (.told other event snapshot s.controller)).heard who =
      s.heard who ++ if other = who then [(event, snapshot)] else [] := by
    rw [heard_log]
    by_cases same : other = who <;> simp [same, Entry.heardBy?]
  rw [← logged]
  unfold tell at h
  dsimp only at h
  split at h
  · cases h
    rfl
  · rename_i o found
    have given : ∀ a ∈ o.acts, a.Watches := by
      obtain ⟨p, inside, rfl⟩ := Option.map_eq_some_iff.mp found
      exact fun a mem => (only p (List.mem_of_find?_eq_some inside) a mem).self
    split at h
    · split at h
      · obtain ⟨u, acted, same⟩ := Option.map_eq_some_iff.mp h
        cases same
        exact (heard_act given acted).trans rfl
      · cases h
        rfl
    · cases h
      rfl

/-- Every listener is told once for each of its subscriptions. -/
theorem heard_notify (only : s.Only Call.Watches)
    (h : notify (perform depth turns) event snapshot s = some t) :
    t.heard who = s.heard who ++ List.replicate (s.listeners.count who) (event, snapshot) := by
  unfold notify at h
  -- the listeners are those at the start, whoever has left or come since
  generalize s.listeners = listeners at h
  induction listeners generalizing s with
  | nil =>
    cases h
    simp
  | cons other listeners ih =>
    rw [List.foldlM_cons] at h
    obtain ⟨_, mapped, rest⟩ := Option.bind_eq_some_iff.mp h
    obtain ⟨⟨failed, u⟩, told, rfl⟩ := Option.map_eq_some_iff.mp mapped
    have only' := (rel_of_tell telling_unmoved unmoved_of_watches only told).2
    rw [ih only' rest, heard_tell only told]
    by_cases same : other = who <;> simp [same, List.replicate_succ]

theorem telling_listens (who : ObserverId) : Telling fun s t => s.Listens who → t.Listens who where
  refl := id
  trans first second := second ∘ first
  told _ _ _ listens := listens.congr rfl rfl
  replied _ _ listens := listens.congr rfl rfl
  seen other listens := listens.countSeen other

/-- Observers that watch are told of an event. -/
theorem hears_of_notify (only : s.Only Call.Watches)
    (h : notify (perform depth turns) event snapshot s = some t) : s.Hears t [(event, snapshot)] := by
  have spares {who : ObserverId} (spares : s.Only (Call.Spares who)) : t.Only (Call.Spares who) :=
    (does_of_notify reacts_perform spares h).only spares
  refine ⟨fun _ => (unmoved_of_notify only h).2, fun _ => spares, fun who spared listens => ?_⟩
  have both : s.Only fun c => c.Watches ∧ c.Spares who := fun o mem a given =>
    (only o mem a given).and (spared o mem a given)
  have kept := rel_of_notify (P := fun c => c.Watches ∧ c.Spares who) (telling_listens who)
    (fun given only performed => ⟨(unheard_of_watches given.self.1 performed).2 who given.self.2,
      (does_of_perform only (.inl given) performed).only only⟩) both h
  exact ⟨kept.1 listens, by rw [heard_notify only h, listens.once]; rfl⟩

theorem hears_of_change {c : Controller} (only : s.Only Call.Watches)
    (h : notify (perform depth turns) event snapshot (s.withController c) = some t) :
    (s.withController c).Unmoved t ∧ s.Hears t [(event, snapshot)] := by
  have only : (s.withController c).Only Call.Watches := only.congr rfl
  exact ⟨(unmoved_of_notify only h).1, (Hears.withController s c).trans (hears_of_notify only h)⟩

end Session

end PocketMips.Simulator
