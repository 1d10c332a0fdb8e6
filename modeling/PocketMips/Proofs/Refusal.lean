import PocketMips.Proofs.History
import PocketMips.Web

/-!
# A refused load changes nothing

A load is put in place as a whole or not at all, and nobody is told of one that fails. A load request that
is not answered with success has not loaded anything, unless the state after the load is too large to be
written.
-/
namespace PocketMips

namespace Simulator.Session

variable {s t : Session} {start : Int} {depth turns : Nat} {c : Call}

/-- A load that fails at an integer address leaves the session as it is. -/
theorem eq_of_load_error {e : Failure} (whole : s.controller.setup.loadAddress = .whole start)
    (loads : c.Loads) (h : perform depth turns c s = some (.error e, t)) : t = s := by
  cases depth with
  | zero => cases h
  | succ depth =>
    rcases respond_load loads h with ⟨-, same⟩ | ⟨-, program, labels, h⟩
    · exact same
    · unfold installNew install at h
      split at h
      · rename_i placed
        cases h
        rw [Controller.eq_of_place_error whole placed]
        rfl
      · obtain ⟨u, -, same⟩ := Option.map_eq_some_iff.mp h
        cases same

end Simulator.Session

namespace Web

open Simulator

variable {s t : Session} {start : Int} {depth turns : Nat} {c : Call} {request : Request}
  {response : Response} {react : Reaction}

/-- A load request makes a load. -/
theorem loads_of_loadOf {es : Value.Entries} (h : loadOf es = .ok c) : c.Loads := by
  unfold loadOf at h
  split at h
  · obtain ⟨items, -, h⟩ := bind_eq_ok.mp h
    obtain ⟨words, -, same⟩ := bind_eq_ok.mp h
    cases pure_eq_ok.mp same
    trivial
  · obtain ⟨text, -, rfl⟩ := map_eq_ok.mp h
    trivial

/-- What becomes of a request by the path of a route. -/
theorem routing_of_path {a : Address} {route : Route} (path : a.path = '/' :: route.name.toList)
    (method : String) :
    Routing.of a method = .wrongMethod ∨ Routing.of a method = .noSocket ∨
      Routing.of a method = .reached (.route route) := by
  have there : Target.ofPath? a.path = some (.route route) := by
    rw [path]
    cases route <;> decide
  rw [Routing.of, there]
  dsimp only [Routing.ofTarget]
  split
  · exact .inl rfl
  · split
    · exact .inr (.inl rfl)
    · exact .inr (.inr rfl)

/-- A request by the path of a route is handled there, or nothing comes of it. -/
theorem respond_of_path {route : Route} (path : request.address.path = '/' :: route.name.toList)
    (h : respond react request s = some (response, t)) :
    t = s ∨ handle react route request.body s = some (response, t) := by
  unfold respond at h
  dsimp only at h
  rcases routing_of_path path request.method.toUpper with is | is | is
  all_goals
    rw [is] at h
    dsimp only at h
  · cases h
    exact .inl rfl
  · cases h
    exact .inl rfl
  · split at h
    · exact .inr h
    · cases h
      exact .inl rfl

theorem status_stateOf {snapshot : Snapshot} {extra : Value.Entries}
    (showable : (shown s snapshot extra).isShowable) : (stateOf s snapshot extra).status = 200 := by
  unfold stateOf
  dsimp only
  rw [if_pos showable]

/-- A load request that is not answered with success has not been a load, or its load has failed, or the
state after the load cannot be written. -/
theorem make_load {call : Except Error Call} (loads : ∀ c, call = .ok c → c.Loads)
    (whole : s.controller.setup.loadAddress = .whole start)
    (h : make (Session.perform depth turns) call s = some (response, t))
    (refused : response.status ≠ 200) :
    t = s ∨ ∃ c ws, call = .ok c ∧ Session.perform depth turns c s = some (.ok (.words ws), t) ∧
      (shown t t.controller.stored (loaded t ws)).isShowable = false := by
  unfold make at h
  split at h
  · cases h
    exact .inl rfl
  · rename_i c
    obtain ⟨⟨r, u⟩, performed, same⟩ := Option.bind_eq_some_iff.mp h
    cases same
    have loads := loads c rfl
    cases r with
    | error e => exact .inl (Session.eq_of_load_error whole loads performed)
    | ok reply =>
      obtain ⟨ws, rfl⟩ := Session.reply_of_load loads performed
      exact .inr ⟨c, ws, rfl, performed,
        eq_false_of_ne_true fun showable => refused (status_stateOf showable)⟩

/-- **A refused load changes nothing**, at an integer load address: not the session of a load that fails,
so that nobody is told, nor that of an assembly request or of a load request that is not answered with
success. Only a load whose state is too large to be written is refused after it has been made. -/
theorem refused_load_changes_nothing (whole : s.controller.setup.loadAddress = .whole start) :
    (∀ depth turns c e t, c.Loads → Session.perform depth turns c s = some (.error e, t) → t = s) ∧
    (∀ depth turns request response t,
      respond (Session.perform depth turns) request s = some (response, t) →
      response.status ≠ 200 →
      (request.address.path = "/assemble".toList → t = s) ∧
      (request.address.path = "/load".toList → t = s ∨
        ∃ c ws, (entries request.body).bind loadOf = .ok c ∧
          Session.perform depth turns c s = some (.ok (.words ws), t) ∧
          (shown t t.controller.stored (loaded t ws)).isShowable = false)) := by
  refine ⟨fun depth turns c e t => Session.eq_of_load_error whole,
    fun depth turns request response t h refused => ⟨fun path => ?_, fun path => ?_⟩⟩
  · have path : request.address.path = '/' :: Route.assemble.name.toList := by
      rw [path]
      decide
    rcases respond_of_path path h with same | h
    · exact same
    · unfold handle at h
      dsimp only at h
      split at h <;> (cases h; rfl)
  · have path : request.address.path = '/' :: Route.load.name.toList := by
      rw [path]
      decide
    rcases respond_of_path path h with same | h
    · exact .inl same
    · have loads : ∀ c, (entries request.body).bind loadOf = .ok c → c.Loads := by
        intro c is
        obtain ⟨es, -, is⟩ := bind_eq_ok.mp is
        exact loads_of_loadOf is
      exact make_load loads whole h refused

/-- A request that posts a value to a path. -/
def post (path : String) (body : Value) : Request :=
  { method := "POST", address := { isSocket := false, path := path.toList }, body := .value body }

/-- A simulator with room for two instructions. -/
def small : Session := .create (.create (.blank (.fixed 8)) .standard {}) false

/-- A load of three instructions fails where one is loaded that has room for two, and so do the requests for
it and for the assembly of what is no program. -/
theorem oversized_load_changes_nothing : ∃ s t u v loaded e response response',
    Session.perform 3 3 (.loadWords [0x20080001]) small = some (.ok loaded, s) ∧
      Session.perform 3 3 (.loadWords [1, 2, 3]) s = some (.error e, t) ∧ t = s ∧
      respond (Session.perform 3 3)
        (post "/load" (.map [("words", .list [.int 1, .int 2, .int 3])])) s = some (response, u) ∧
      response.status = 400 ∧ u = s ∧
      respond (Session.perform 3 3) (post "/assemble" (.map [("program", .text "?")])) s =
        some (response', v) ∧ response'.status = 400 ∧ v = s := by
  have lived : (do
      let loaded ← Session.succeeds 3 3 (.loadWords [0x20080001]) small
      let _ ← Session.fails 3 3 (.loadWords [1, 2, 3]) loaded.2
      let answered ← respond (Session.perform 3 3)
        (post "/load" (.map [("words", .list [.int 1, .int 2, .int 3])])) loaded.2
      let answered' ← respond (Session.perform 3 3)
        (post "/assemble" (.map [("program", .text "?")])) loaded.2
      return (loaded.2.controller.setup, answered.1.status, answered'.1.status)) =
        some ({}, 400, 400) := by
    decide +kernel
  obtain ⟨⟨loaded, s⟩, installed, lived⟩ := Option.bind_eq_some_iff.mp lived
  obtain ⟨⟨e, t⟩, failed, lived⟩ := Option.bind_eq_some_iff.mp lived
  obtain ⟨⟨response, u⟩, answered, lived⟩ := Option.bind_eq_some_iff.mp lived
  obtain ⟨⟨response', v⟩, answered', lived⟩ := Option.bind_eq_some_iff.mp lived
  replace installed := Session.perform_of_succeeds installed
  replace failed := Session.perform_of_fails failed
  have parts := Option.some.inj lived
  simp only [Prod.mk.injEq] at parts
  obtain ⟨setup, status, status'⟩ := parts
  have whole : s.controller.setup.loadAddress = .whole 0 := by rw [setup]
  obtain ⟨unchanged, refused⟩ := refused_load_changes_nothing whole
  refine ⟨s, t, u, v, loaded, e, response, response', installed, failed,
    unchanged 3 3 _ e t (by trivial) failed, answered, status, ?_, answered', status', ?_⟩
  · rcases (refused 3 3 _ response u answered (by rw [status]; decide)).2 rfl with
      same | ⟨c, ws, is, performed, -⟩
    · exact same
    · have is : .loadWords [1, 2, 3] = c := Except.ok.inj is
      rw [← is, failed] at performed
      cases performed
  · exact (refused 3 3 _ response' v answered' (by rw [status']; decide)).1 rfl

/-- A simulator that loads at the largest integer that can be written. -/
def remote : Session :=
  .create (.create (.blank .sparse) .standard
    { loadAddress := .whole (Number.tens Number.maxDigits - 1 : Nat) }) false

/-- A load request is refused whose label is too large to be written, but the program has been loaded. -/
theorem unwritable_load_is_refused : ∃ response t,
    respond (Session.perform 3 3) (post "/load" (.map [("program", .text "jr $ra\nend:")])) remote =
        some (response, t) ∧
      response.status = 400 ∧ t.controller.machine.pc ≠ remote.controller.machine.pc := by
  have lived : (respond (Session.perform 3 3)
      (post "/load" (.map [("program", .text "jr $ra\nend:")])) remote).map
        (fun answered => (answered.1.status, answered.2.controller.machine.pc)) =
          some (400, ((Number.tens Number.maxDigits - 1 : Nat) : Int)) := by
    decide +kernel
  obtain ⟨⟨response, t⟩, answered, same⟩ := Option.map_eq_some_iff.mp lived
  obtain ⟨status, pc⟩ := Prod.mk.inj same
  refine ⟨response, t, answered, status, ?_⟩
  rw [pc]
  decide +kernel

end Web

end PocketMips
