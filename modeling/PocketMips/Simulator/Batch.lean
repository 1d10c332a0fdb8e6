import PocketMips.Program
import PocketMips.Simulator.Session

/-!
Batch runs: a program is loaded into a simulator that nobody observes and run to its end or to a limit.
-/
namespace PocketMips.Simulator

/-- The call that loads a program. -/
def loading : Program → Call
  | .source text => .load (.text text)
  | .words ws => .loadWords ws
  | .image bytes => .loadBytes bytes

/-- Answers a call that starts no job, in a session without observers; it needs no reaction. -/
def Session.answer (call : Call) (s : Session) : Except Failure Session :=
  match Session.perform 1 0 call s with
  | some (.ok _, s) => .ok s
  | some (.error e, _) => .error e
  | none => .error .unfinished

/-- Loads a program and runs it; the controller after the run. -/
def Controller.batch (c : Controller) (program : Program) (limit : Int) : Except Failure Controller := do
  let loaded ← Session.answer (loading program) (Session.create c false)
  let ended ← Session.answer (.runToCompletion limit) loaded
  return ended.controller

end PocketMips.Simulator
