import PocketMips.Simulator.Call

/-!
Programs at load addresses: a source is assembled at one, and a program is put into the machine of a
controller at one. An integer serves for every program. A truth value serves as its number and is shown
as it is. At a floating-point number lie only programs without instructions, and labels that nothing
refers to; at anything else lies nothing.
-/
namespace PocketMips.Simulator

open Assembly Number

/-! ## Sources -/

/-- Whether a line has an instruction. -/
def hasInstruction (line : List Char) : Bool :=
  let text := clean line
  match splitLabel text with
  | .ok (_, rest) => text ≠ [] && rest ≠ []
  | .error _ => false

/-- Whether a line has a branch or jump to a label that is bound. -/
def refersTo (labels : Labels) (line : List Char) : Bool :=
  match splitLabel (clean line) with
  | .error _ => false
  | .ok (_, rest) =>
    let (name, operands) := tokens rest
    let jumps := match Operation.ofName? (Text.fold name) with
      | some (.i op) => op.isBranch
      | some (.j _) => true
      | _ => false
    jumps && (operands.getLast?.bind labels.address?).isSome

/-- The result of the lines up to the first one of a kind, which cannot be done with; all of the lines
without such a line. -/
def upTo {α : Type} (stops : List Char → Bool) (lines : List (List Char))
    (result : List (List Char) → Except Error α) : Except Failure α :=
  match lines.findIdx? stops with
  | none => (result lines).mapError .assembly
  | some i =>
    match result (lines.take (i + 1)) with
    | .error e => .error (.assembly e)
    | .ok _ => .error .badArgument

/-- Assembles lines at a floating-point number. References to labels need integers. -/
def assembleAtFloat (lines : List (List Char)) : Except Failure (Labels × List Word) :=
  match bindLabels 0 lines with
  | (_, .error e) => .error (.assembly e)
  | (labels, .ok ()) =>
    upTo (refersTo labels) lines fun ls => (encodeFrom labels 0 0 ls).map (labels, ·)

/-- Assembles lines where no address can be counted on from. -/
def assembleNowhere (lines : List (List Char)) : Except Failure (Labels × List Word) :=
  upTo hasInstruction lines fun ls =>
    match bindLabels 0 ls with
    | (_, .error e) => .error e
    | (labels, .ok ()) => .ok (labels, [])

/-- Assembles a source at an integer. -/
def assembleAt (start : Int) (source : Source) : Except Failure (Labels × List Word) :=
  match Assembly.assemble start source with
  | (_, .error e) => .error (.assembly e)
  | (labels, .ok program) => .ok (labels, program)

/-- Assembles a source at a load address. -/
def LoadAddress.assemble (l : LoadAddress) (source : Source) : Except Failure (Labels × List Word) :=
  match l with
  | whole start => assembleAt start source
  | flag b => assembleAt (ofFlag b) source
  | float _ => assembleAtFloat source.toLines
  | unusable => assembleNowhere source.toLines

/-! ## Programs -/

/-- Whether a count of bytes from a floating-point number on leaves a memory. -/
def leaves (extent : Memory.Extent) (x : Binary64) (length : Nat) : Bool :=
  let last := (x.add (Binary64.nearest false length 1)).add (Binary64.nearest true 1 1)
  match extent with
  | .fixed capacity => x.isNegative || last.atLeast capacity
  | .sparse | .unbacked => false

namespace Controller

/-- The controller with a cleared memory and nothing else changed. -/
def cleared (c : Controller) : Controller :=
  { c with machine := { c.machine with memory := Memory.blank c.machine.memory.extent } }

/-- The controller whose program counter is shown as a value. -/
def showingPc (c : Controller) (v : Value) : Controller := refresh { c with shownPc := some v }

/-- Puts a program at the load address; the controller after a failure is the one to go on with. -/
def place (c : Controller) (program : List Word) (labels : Labels) : Except Failure Unit × Controller :=
  match c.setup.loadAddress with
  | .whole start =>
    match c.reinstall start program labels with
    | .error f => (.error (.machine f), c)
    | .ok c => (.ok (), c)
  | .flag b =>
    match c.reinstall (LoadAddress.ofFlag b) program labels with
    | .error f => (.error (.flagged b f), c)
    | .ok c => (.ok (), c.showingPc (.bool b))
  | .float x =>
    if program = [] then
      match c.reinstall 0 [] labels with
      | .error f => (.error (.machine f), c)
      | .ok c => (.ok (), c.showingPc (.float x))
    else if leaves c.machine.memory.extent x (4 * program.length) then (.error .noHexadecimal, c)
    else (.error .badArgument, c.cleared)
  | .unusable =>
    if program = [] then (.error .badArgument, { c.cleared with lost := true })
    else
      match c.machine.memory.extent with
      | .fixed _ => (.error .badArgument, c)
      | .sparse | .unbacked => (.error .badArgument, c.cleared)

end Controller

end PocketMips.Simulator
