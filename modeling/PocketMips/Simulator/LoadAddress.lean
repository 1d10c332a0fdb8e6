import PocketMips.Value

/-!
Load addresses as they are given. Programs are loaded at integers; an address that is something else goes
as far as arithmetic with it does, and is shown as it was given.
-/
namespace PocketMips.Simulator

open Number

/-- The address that programs are loaded at. -/
inductive LoadAddress
  | whole (address : Int)
  /-- A truth value, which counts as zero or one. -/
  | flag (b : Bool)
  /-- A floating-point number; no instruction can lie at one. -/
  | float (x : Binary64)
  /-- Nothing that can be counted on from. -/
  | unusable
  deriving DecidableEq, Repr

namespace LoadAddress

/-- A value as a load address. -/
def ofValue : Value → LoadAddress
  | .int i => .whole i
  | .bool b => .flag b
  | .float x => .float x
  | .null | .text _ | .time _ | .list _ | .map _ => .unusable

/-- The number that a truth value counts as. -/
def ofFlag (b : Bool) : Int := if b then 1 else 0

/-- How an address is shown that has been bound under a load address. -/
def label (l : LoadAddress) (address : Int) : Value :=
  match l with
  | flag b => if address = ofFlag b then .bool b else .int address
  | float x => .float x
  | whole _ | unusable => .int address

@[simp] theorem label_whole (start address : Int) : (whole start).label address = .int address := rfl

end LoadAddress

end PocketMips.Simulator
