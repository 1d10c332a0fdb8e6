import PocketMips.Proofs.Refusal
import PocketMips.Proofs.Reset

/-!
# Answered requests

A request with a body is answered with success or as a fault of the client, unless something is wrong with it
that nothing looks for. What breaks a request is named here, and nothing else does, as long as programs are
loaded at an integer.
-/
namespace PocketMips

/-! ## Simulators that load programs -/

namespace Simulator

/-- Programs are loaded at an integer, into a memory that keeps cells. -/
structure Controller.Sound (c : Controller) : Prop where
  address : (∃ start, c.setup.loadAddress = .whole start) ∨ ∃ b, c.setup.loadAddress = .flag b
  backed : c.machine.memory.extent ≠ .unbacked
  kept : c.lost = false

namespace Controller

variable {c c' : Controller} {program : List Word} {labels : Assembly.Labels}

namespace Sound

theorem of_keeps (h : c.Sound) (keeps : c.Keeps c') : c'.Sound :=
  ⟨by rw [keeps.setup]; exact h.address, by rw [keeps.extent]; exact h.backed, keeps.lost.trans h.kept⟩

theorem place {r : Except Failure Unit} (h : c.Sound) (placed : c.place program labels = (r, c')) :
    c'.Sound := by
  cases r with
  | ok u =>
    obtain ⟨start, after, -, installed, shown⟩ := place_eq_ok placed
    obtain ⟨machine, loaded, rfl⟩ := reinstall_eq_ok_iff.mp installed
    have backed : machine.memory.extent ≠ .unbacked := by
      rw [Machine.extent_of_load loaded]
      exact h.backed
    rcases shown with rfl | ⟨v, rfl⟩ <;> exact ⟨h.address, backed, h.kept⟩
  | error e =>
    rcases place_eq_error placed with rfl | ⟨none, -⟩
    · exact h
    · rcases h.address with ⟨start, given⟩ | ⟨b, given⟩
      · cases none start [0] (by rw [given]; rfl)
      · cases none (LoadAddress.ofFlag b) [0] (by rw [given]; rfl)

end Sound

end Controller

namespace Session

variable {P : Call → Prop} {s t : Session}

theorem Does.sound (h : Does P s t) (sound : s.controller.Sound) : t.controller.Sound := by
  have executed {c : Controller} (h : c.Sound) : c.executeNext.2.Sound := h.of_keeps (.executeNext c)
  have rested {s : Session} (h : s.controller.Sound) : s.rested.controller.Sound :=
    h.of_keeps (keeps_rested s)
  induction h with
  | trans _ _ first second => exact second (first sound)
  | single _ => exact executed sound
  | goOn _ _ _ ih => exact ih (executed sound)
  | leave _ _ _ _ first second => exact second (rested (first (executed sound)))
  | drop _ _ ih => exact ih (rested sound)
  | @rest s _ => exact rested (s := { s with current := none }) sound
  | launch _ _ _ _ ih => exact ih ⟨sound.address, sound.backed, sound.kept⟩
  | place _ _ _ placed _ => exact sound.place placed
  | misplace _ placed => exact sound.place placed
  | write _ _ _ extent => exact ⟨sound.address, extent.trans_ne sound.backed, sound.kept⟩
  | _ => exact ⟨sound.address, sound.backed, sound.kept⟩

/-- Whatever is called, programs are still loaded at an integer. -/
theorem History.sound (history : History (fun _ _ => True) s t) (sound : s.controller.Sound) :
    t.controller.Sound :=
  have any (c : Call) : c.Throughout fun _ => True := Call.throughout_of_forall (fun _ => trivial) c
  (history.does (fun c _ _ => .inl (any c)) fun _ _ a _ => any a).sound sound

end Session

end Simulator

namespace Web

open Number Simulator

variable {s t : Session} {depth turns : Nat} {route : Route} {body : Body} {es : Value.Entries}
  {response : Response} {react : Reaction}

/-! ## Failures that clients are told of -/

/-- Whether a value can be gone through. -/
def hasItems : Value → Bool
  | .list _ | .text _ | .map _ => true
  | _ => false

/-- Whether a value is nothing that a number of seconds can be made of; a text is told about. -/
def isNoDelay : Value → Bool
  | .time _ | .list _ | .map _ => true
  | .int i => (Binary64.ofInt? i).isNone
  | _ => false

/-- Nothing looks for what is wrong with a request: it is its body, or a clock that it cannot do without. -/
inductive Breaks (s : Session) : Route → Body → Prop
  /-- Its lists and maps lie too deep in one another. -/
  | deep {route : Route} : Breaks s route .tooDeep
  /-- It has no entries, and is not empty. -/
  | shape {route : Route} {v : Value} : v.isEmpty = false → (∀ es, v ≠ .map es) →
    Breaks s route (.value v)
  /-- Its words cannot be gone through. -/
  | words {body : Body} {es : Value.Entries} {v : Value} : entries body = .ok es →
    Value.lookup "words" es = some v → hasItems v = false → Breaks s .load body
  /-- Its delay is no number. -/
  | delay {body : Body} {es : Value.Entries} {v : Value} : entries body = .ok es →
    Value.lookup "delay" es = some v → isNoDelay v = true → Breaks s .run body
  /-- It asks for the delay of a clock whose frequency is too large for one. -/
  | period {body : Body} {es : Value.Entries} : entries body = .ok es →
    (Value.lookup "delay" es).getD .null = .null → s.controller.status = .idle →
    s.controller.clock.period? = none → Breaks s .run body

/-- A request that posts to a route. -/
def ask (route : Route) (body : Body) : Request :=
  { method := "POST", address := { isSocket := false, path := '/' :: route.name.toList }, body }

/-- The body that tells of an error. -/
def report (text kind : String) : Value := .map [("error", .text text), ("type", .text kind)]

end Web

end PocketMips
