import PocketMips.Instruction.Set
import PocketMips.Number.Binary64
import PocketMips.Value

/-!
Clocks: a frequency and the cycles that each class of instructions takes, all of them positive.
-/
namespace PocketMips

open Number

/-- A frequency in hertz and the cycles of each class of instructions. -/
structure Clock where
  frequency : Nat := 1000000
  rCycles : Nat := 1
  iCycles : Nat := 1
  jCycles : Nat := 1
  frequency_pos : 0 < frequency := by decide
  rCycles_pos : 0 < rCycles := by decide
  iCycles_pos : 0 < iCycles := by decide
  jCycles_pos : 0 < jCycles := by decide
  deriving DecidableEq, Repr

namespace Clock

/-- The clock when nothing else is asked for. -/
def standard : Clock := {}

instance : Inhabited Clock := ⟨standard⟩

/-- The settings of a clock by name. -/
inductive Setting
  | frequency | rCycles | iCycles | jCycles
  deriving DecidableEq, Repr

namespace Setting

def all : List Setting := [frequency, rCycles, iCycles, jCycles]

def name : Setting → String
  | frequency => "frequency"
  | rCycles => "r_cycles"
  | iCycles => "i_cycles"
  | jCycles => "j_cycles"

end Setting

/-- A setting that is no positive integer. -/
structure BadSetting where
  setting : Setting
  value : Value
  deriving Repr

def BadSetting.message (e : BadSetting) : String :=
  Value.message s!"{e.setting.name} must be a positive integer, got " e.value ""

/-- A positive integer from a value. -/
def positive (setting : Setting) : Value → Except BadSetting { n : Nat // 0 < n }
  | .int i => if h : 0 < i then .ok ⟨i.toNat, by omega⟩ else .error ⟨setting, .int i⟩
  | v => .error ⟨setting, v⟩

/-- The clock of four values. -/
def ofValues (frequency rCycles iCycles jCycles : Value) : Except BadSetting Clock := do
  let f ← positive .frequency frequency
  let r ← positive .rCycles rCycles
  let i ← positive .iCycles iCycles
  let j ← positive .jCycles jCycles
  return ⟨f, r, i, j, f.2, r.2, i.2, j.2⟩

/-- The value of a setting. -/
def get (c : Clock) : Setting → Nat
  | .frequency => c.frequency
  | .rCycles => c.rCycles
  | .iCycles => c.iCycles
  | .jCycles => c.jCycles

/-- A clock whose settings are those of the entries, and for the rest those of another clock. -/
def ofEntries (base : Clock) (entries : Value.Entries) : Except BadSetting Clock :=
  let value := fun s : Setting => (Value.lookup s.name entries).getD (.int (base.get s))
  ofValues (value .frequency) (value .rCycles) (value .iCycles) (value .jCycles)

/-- The settings as entries. -/
def entries (c : Clock) : Value.Entries :=
  Setting.all.map fun s => (.text s.name, .int (c.get s))

/-- The cycles of a class of instructions. -/
def cyclesFor (c : Clock) : Kind → Nat
  | .r => c.rCycles
  | .i => c.iCycles
  | .j => c.jCycles

/-- The cycles of counts of instructions. -/
def totalCycles (c : Clock) (r i j : Int) : Int := r * c.rCycles + i * c.iCycles + j * c.jCycles

/-- The seconds that counts of instructions take, unless they are too many for a number. -/
def totalTime? (c : Clock) (r i j : Int) : Option Binary64 :=
  Binary64.ofQuotient? (c.totalCycles r i j) c.frequency

/-- The seconds of one period, unless the frequency is too large for a number. -/
def period? (c : Clock) : Option Binary64 :=
  (Binary64.ofInt? c.frequency).bind Binary64.inverse?

end Clock

end PocketMips
