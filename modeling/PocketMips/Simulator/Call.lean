import PocketMips.Memory.Access
import PocketMips.Simulator.Controller

/-!
Calls to a simulator and their answers as data, so that an observer's script can hold them.
-/
namespace PocketMips.Simulator

open Number

/-- What observers are told of. -/
inductive Event
  | loaded | clock | step | completed | error | started | stopped | paused | reset
  deriving DecidableEq, Repr

namespace Event

def all : List Event :=
  [loaded, clock, step, completed, error, started, stopped, paused, reset]

def name : Event → String
  | loaded => "loaded"
  | clock => "clock"
  | step => "step"
  | completed => "completed"
  | error => "error"
  | started => "started"
  | stopped => "stopped"
  | paused => "paused"
  | reset => "reset"

/-- The event of a name. -/
def ofName? (s : String) : Option Event := all.find? (·.name = s)

end Event

/-- Events with the snapshots they are told by, the earliest first. -/
abbrev News := List (Event × Snapshot)

/-- What is told of the next instruction. -/
def Controller.news (c : Controller) : News :=
  let shown := c.executeNext.2.stored
  match c.executeNext.1 with
  | .completed => [(.completed, shown)]
  | .stepped finished => (.step, shown) :: if finished then [(.completed, shown)] else []
  | .failed _ => [(.error, shown)]
  | .overflow => []

/-- The pause between the cycles of a background run. It has no effect but must be usable. -/
inductive Delay
  /-- One period of the clock. -/
  | period
  /-- A number of seconds. -/
  | seconds
  /-- More seconds than can be waited for. -/
  | tooLong
  /-- No number. -/
  | unusable
  deriving DecidableEq, Repr

namespace Delay

/-- The longest wait in whole seconds: its nanoseconds are the most that 63 bits hold. -/
def longest : Int := 9223372036

/-- The delay of a floating-point number of seconds; one of no number at all is none. -/
def ofFloat (x : Binary64) : Delay :=
  if (x.scale 1000000000).atLeast (1 <<< 63) then .tooLong else .seconds

/-- The delay of a value. -/
def ofValue : Value → Delay
  | .null => .period
  | .bool _ => .seconds
  | .int i => if longest < i then .tooLong else .seconds
  | .float x => ofFloat x
  | .text _ | .time _ | .list _ | .map _ => .unusable

end Delay

/-- The most instructions that a run to completion executes unless another limit is given. -/
def defaultLimit : Int := 100000

/-- A call to a simulator. -/
inductive Call
  | load (source : Assembly.Source)
  | loadWords (words : List Int)
  | loadBytes (image : List Byte)
  | step
  | runToCompletion (limit : Int)
  | run (delay : Delay)
  | wait
  | pause
  | reset
  | shutdown
  | setClock (settings : Value.Entries)
  | register (name : Value)
  | wordAt (address : Int)
  | setRegister (index value : Int)
  | setPc (value : Int)
  | timeText
  | memory (access : Memory.Access)
  /-- Unsubscribes the recorder. -/
  | mute
  /-- Subscribes an observer that performs calls at one occurrence of an event. -/
  | subscribe (name : String) (event : Option Event) (turn : Int) (acts : List Call) (fails : Bool)
  | unsubscribe (name : String)
  deriving Inhabited

/-- Why a call fails. -/
inductive Failure
  | assembly (e : Assembly.Error)
  | machine (f : Machine.Fault)
  /-- A fault of the machine at an address that is shown as a truth value. -/
  | flagged (address : Bool) (f : Machine.Fault)
  /-- A floating-point number has no hexadecimal form. -/
  | noHexadecimal
  /-- An integer is too long to be written. -/
  | tooLong
  | imageLength (length : Nat)
  | clock (e : Clock.BadSetting)
  /-- The action needs an idle simulator. -/
  | busy (action : String)
  /-- A time is too large for a number. -/
  | overflow
  /-- No register has the index. -/
  | badIndex
  /-- An argument is missing, unknown or of the wrong type. -/
  | badArgument
  /-- Something that is no text stands for a name. -/
  | badName
  /-- The background job waited for is the one that is waiting. -/
  | unfinished

namespace Failure

def message : Failure → String
  | assembly e => e.message
  | machine f | flagged _ f => f.message
  | noHexadecimal => "Unknown format code 'X' for object of type 'float'"
  | tooLong => Value.lengthMessage
  | imageLength length => Image.lengthMessage length
  | clock e => e.message
  | busy action => s!"cannot {action} while the simulation is running"
  | overflow | badIndex | badArgument | badName | unfinished => ""

/-- The failure that a background run ends with; a fault of the machine is kept as its error only. -/
def ofRun? : Failure → Option Failure
  | machine _ | flagged .. => none
  | e => some e

end Failure

/-- What a call answers. -/
inductive Reply
  | done
  | words (ws : List Word)
  | snapshot (s : Snapshot)
  | clock (c : Clock)
  | number (n : Nat)
  | bytes (bs : List Byte)
  | time (total : Nat) (text : String)

/-- The answer of a memory access as that of a call. -/
def Reply.ofAnswer : Memory.Answer → Reply
  | .done => .done
  | .number n => .number n
  | .bytes bs => .bytes bs

end PocketMips.Simulator
