import PocketMips.Proofs.Calls

/-!
# Observers that only watch

Observers may read what they are told of and what the simulator shows, and may come and go. As long as none
of them does more, telling them of an event always ends, and it leaves the controller and the jobs alone.
-/
namespace PocketMips

namespace Memory

/-- Reads the memory, or checks whether it could be read. -/
def Access.Reads : Access → Prop
  | .readByte _ | .readHalfWord _ | .readWord _ | .readBytes _ _ | .dump _ _ | .checkRange _ _ => True
  | .writeByte _ _ | .writeHalfWord _ _ | .writeWord _ _ | .writeBytes _ _ | .clear => False

theorem eq_of_perform_reads {m n : Memory} {access : Access} {answer : Answer} (reads : access.Reads)
    (h : m.perform access = .ok (answer, n)) : n = m := by
  cases access with
  | writeByte | writeHalfWord | writeWord | writeBytes | clear => cases reads
  | _ =>
    obtain ⟨_, -, same⟩ := map_eq_ok.mp h
    exact (congrArg Prod.snd same).symm

end Memory

namespace Simulator

/-- Looks at the simulator, or changes who watches it. -/
def Call.Watches : Call → Prop
  | .register _ | .wordAt _ | .timeText | .mute | .subscribe _ _ _ _ _ | .unsubscribe _ => True
  | .memory access => access.Reads
  | _ => False

namespace Session

variable {s t : Session} {depth turns : Nat}

/-- The simulator is as it was; only its observers and the journal may have changed. -/
structure Unmoved (s t : Session) : Prop where
  controller : t.controller = s.controller
  jobs : t.jobs = s.jobs
  current : t.current = s.current

theorem Unmoved.trans {u : Session} (first : s.Unmoved t) (second : t.Unmoved u) : s.Unmoved u :=
  ⟨second.controller.trans first.controller, second.jobs.trans first.jobs,
    second.current.trans first.current⟩

theorem telling_unmoved : Telling Unmoved where
  refl := ⟨rfl, rfl, rfl⟩
  trans := .trans
  told _ _ _ := ⟨rfl, rfl, rfl⟩
  replied _ _ := ⟨rfl, rfl, rfl⟩
  seen _ := ⟨rfl, rfl, rfl⟩

/-- A call that watches is answered at once. -/
theorem perform_of_watches (depth turns : Nat) {c : Call} (watches : c.Watches) (s : Session) :
    ∃ r t, perform (depth + 1) turns c s = some (r, t) ∧ s.Unmoved t := by
  cases c with
  | register | wordAt | timeText | mute | subscribe => exact ⟨_, _, rfl, rfl, rfl, rfl⟩
  | unsubscribe name =>
    refine ⟨_, _, rfl, ?_⟩
    unfold unsubscribe
    split <;> exact ⟨rfl, rfl, rfl⟩
  | memory access =>
    refine ⟨(s.accessMemory access).1, (s.accessMemory access).2, rfl, ?_⟩
    unfold accessMemory
    dsimp only
    split
    · rename_i performed
      cases Memory.eq_of_perform_reads watches performed
      exact ⟨rfl, rfl, rfl⟩
    · exact ⟨rfl, rfl, rfl⟩
  | _ => cases watches

theorem unmoved_of_watches {c : Call} {r : Except Failure Reply} (watches : c.Throughout Call.Watches)
    (only : s.Only Call.Watches) (h : perform depth turns c s = some (r, t)) :
    s.Unmoved t ∧ t.Only Call.Watches := by
  refine ⟨?_, (does_of_perform only (.inl watches) h).only only⟩
  cases depth with
  | zero => cases h
  | succ depth =>
    obtain ⟨r', t', answered, unmoved⟩ := perform_of_watches depth turns watches.self s
    cases h.symm.trans answered
    exact unmoved

theorem unmoved_of_notify {event : Event} {snapshot : Snapshot} (only : s.Only Call.Watches)
    (h : notify (perform depth turns) event snapshot s = some t) :
    s.Unmoved t ∧ t.Only Call.Watches :=
  rel_of_notify telling_unmoved unmoved_of_watches only h

/-- A load that succeeds has found the controller idle and put the program that it answers with in place, and
that is all. -/
theorem place_of_load {c : Call} {reply : Reply} (loads : c.Loads) (only : s.Only Call.Watches)
    (h : perform depth turns c s = some (.ok reply, t)) :
    ∃ program labels, reply = .words program ∧ s.controller.status = .idle ∧
      s.controller.place program labels = (.ok (), t.controller) ∧ t.Only Call.Watches := by
  cases depth with
  | zero => cases h
  | succ depth =>
    have idle : s.controller.status = .idle := by
      rcases respond_load loads h with ⟨⟨e, ⟨⟩⟩, -⟩ | ⟨idle, -⟩
      exact idle
    obtain ⟨program, labels, after, placed, replied, told⟩ := respond_load_eq_ok loads h
    have only : ((s.withController after).log .placed).Only Call.Watches := only.congr rfl
    obtain ⟨unmoved, only⟩ := unmoved_of_notify only told
    rw [unmoved.controller]
    exact ⟨program, labels, replied, idle, placed, only⟩

theorem load_of_watches {c : Call} {reply : Reply} (loads : c.Loads) (only : s.Only Call.Watches)
    (h : perform depth turns c s = some (.ok reply, t)) :
    ∃ program labels, s.controller.status = .idle ∧
      s.controller.place program labels = (.ok (), t.controller) ∧ t.Only Call.Watches := by
  obtain ⟨program, labels, -, placed⟩ := place_of_load loads only h
  exact ⟨program, labels, placed⟩

/-! ## Telling always ends -/

theorem exists_act (depth turns : Nat) {acts : List Call} (given : ∀ a ∈ acts, a.Watches)
    (s : Session) :
    ∃ t, act (perform (depth + 1) turns) acts s = some t := by
  induction acts generalizing s with
  | nil => exact ⟨s, rfl⟩
  | cons c acts ih =>
    rw [List.forall_mem_cons] at given
    obtain ⟨r, u, performed, -⟩ := perform_of_watches depth turns given.1 s
    obtain ⟨t, rest⟩ := ih given.2 (u.log (.replied c r))
    exact ⟨t, Option.bind_eq_some_iff.mpr ⟨(r, u), performed, rest⟩⟩

theorem exists_tell (depth turns : Nat) (event : Event) (snapshot : Snapshot) (who : ObserverId)
    (only : s.Only Call.Watches) :
    ∃ failed t, tell (perform (depth + 1) turns) event snapshot s who = some (failed, t) := by
  unfold tell
  dsimp only
  split
  · exact ⟨_, _, rfl⟩
  · rename_i o found
    have given : ∀ a ∈ o.acts, a.Watches := by
      obtain ⟨p, inside, rfl⟩ := Option.map_eq_some_iff.mp found
      exact fun a mem => (only p (List.mem_of_find?_eq_some inside) a mem).self
    split
    · split
      · obtain ⟨t, acted⟩ := exists_act depth turns given _
        exact ⟨_, _, Option.map_eq_some_iff.mpr ⟨t, acted, rfl⟩⟩
      · exact ⟨_, _, rfl⟩
    · exact ⟨_, _, rfl⟩

theorem exists_notify (depth turns : Nat) (event : Event) (snapshot : Snapshot)
    (only : s.Only Call.Watches) :
    ∃ t, notify (perform (depth + 1) turns) event snapshot s = some t := by
  unfold notify
  generalize s.listeners = listeners
  induction listeners generalizing s with
  | nil => exact ⟨s, rfl⟩
  | cons who listeners ih =>
    obtain ⟨failed, u, told⟩ := exists_tell depth turns event snapshot who only
    obtain ⟨t, rest⟩ := ih (rel_of_tell telling_unmoved unmoved_of_watches only told).2
    rw [List.foldlM_cons, told]
    exact ⟨t, rest⟩

end Session

end Simulator

end PocketMips
