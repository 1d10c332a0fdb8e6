import PocketMips.Clock
import PocketMips.Number.Fixed

/-!
Counts of executed instructions, their cycles, and the simulated time.
-/
namespace PocketMips

open Number

/-- What has been executed since the last load or reset. -/
structure Statistics where
  rCount : Nat := 0
  iCount : Nat := 0
  jCount : Nat := 0
  cycles : Nat := 0
  time : Binary64 := .zero
  deriving DecidableEq, Repr

namespace Statistics

instance : Inhabited Statistics := ⟨{}⟩

/-- The count of all instructions. -/
def total (s : Statistics) : Nat := s.rCount + s.iCount + s.jCount

/-- Counts one instruction and its cycles, leaving the time. -/
def count (s : Statistics) (kind : Kind) (clock : Clock) : Statistics :=
  let s := { s with cycles := s.cycles + clock.cyclesFor kind }
  match kind with
  | .r => { s with rCount := s.rCount + 1 }
  | .i => { s with iCount := s.iCount + 1 }
  | .j => { s with jCount := s.jCount + 1 }

/-- The time of the counts under a clock, unless it is too large for a number. -/
def timeUnder? (s : Statistics) (clock : Clock) : Option Binary64 :=
  clock.totalTime? s.rCount s.iCount s.jCount

/-- Recomputes the time; the flag tells that it was too large and has been left. -/
def retime (s : Statistics) (clock : Clock) : Statistics × Bool :=
  match s.timeUnder? clock with
  | some t => ({ s with time := t }, false)
  | none => (s, true)

/-- Counts one instruction and recomputes the time; the flag tells that only the time was left. -/
def record (s : Statistics) (kind : Kind) (clock : Clock) : Statistics × Bool :=
  (s.count kind clock).retime clock

/-- A number of seconds in the largest unit that it reaches, from nanoseconds to seconds. -/
def timeText (t : Binary64) : String :=
  let micro : Binary64 := ⟨0x3EB0C6F7A0B5ED8D⟩
  let milli : Binary64 := ⟨0x3F50624DD2F1A9FC⟩
  let one : Binary64 := ⟨0x3FF0000000000000⟩
  if t.ltPositive micro then String.ofList ((t.scale 1000000000).fixed 2) ++ " ns"
  else if t.ltPositive milli then String.ofList ((t.scale 1000000).fixed 2) ++ " µs"
  else if t.ltPositive one then String.ofList ((t.scale 1000).fixed 2) ++ " ms"
  else String.ofList (t.fixed 4) ++ " s"

end Statistics

end PocketMips
