import PocketMips.Assembly
import PocketMips.Machine
import PocketMips.Simulator.LoadAddress
import PocketMips.Statistics

/-!
The controller of one machine: what it knows, the snapshot it keeps of that, and the changes that its
operations make. Who is told about a change, and when the background worker runs, is the business of the
session.
-/
namespace PocketMips.Simulator

open Number

/-- Whether a background run is in progress. -/
inductive Status
  | idle
  | running
  deriving DecidableEq, Repr

def Status.name : Status → String
  | .idle => "idle"
  | .running => "running"

/-- What observers see: a copy of the machine and of what the controller says about it. -/
structure Snapshot where
  machine : Machine
  window : Int
  lastInstruction : Option Instruction
  statistics : Statistics
  status : Status
  error : Option Machine.Fault
  /-- How the program counter is shown, if not as an integer. -/
  shownPc : Option Value := none

namespace Snapshot

/-- The program counter as it is shown. -/
def pc (s : Snapshot) : Value := s.shownPc.getD (.int s.machine.pc)

/-- The bytes of the memory window, from address zero on. -/
def memory (s : Snapshot) : List Byte :=
  match s.machine.memory.dump 0 s.window with
  | .ok bs => bs
  | .error _ => []

def finished (s : Snapshot) : Bool := s.machine.hasFinished

/-- The word about to be executed. -/
def current? (s : Snapshot) : Option Word := s.machine.current?

/-- The text of the last executed instruction. -/
def lastText (s : Snapshot) : String :=
  match s.lastInstruction with
  | some i => String.ofList i.listing
  | none => ""

/-- The word about to be executed in hexadecimal. -/
def currentHex (s : Snapshot) : String :=
  match s.current? with
  | some w => (Instruction.decode w).hexText
  | none => ""

/-- The word about to be executed as assembly text. -/
def currentText (s : Snapshot) : String :=
  match s.current? with
  | some w => String.ofList (Instruction.disassemble w)
  | none => ""

def errorText (s : Snapshot) : Option String := s.error.map Machine.Fault.message

/-- The number of the four window bytes from an index on; a negative index counts from the end. -/
def wordAt (s : Snapshot) (address : Int) : Nat :=
  let bs := s.memory
  let first := Memory.place bs.length address
  ofBytes ((bs.drop first).take (Memory.place bs.length (address + 4) - first))

end Snapshot

/-- The settings that a controller keeps for good. -/
structure Setup where
  loadAddress : LoadAddress := .whole 0
  window : Int := 1024
  deriving DecidableEq, Repr

/-- The state of a controller. -/
structure Controller where
  setup : Setup
  machine : Machine
  clock : Clock
  statistics : Statistics
  program : List Word
  labels : Assembly.Labels
  lastInstruction : Option Instruction
  lastError : Option Machine.Fault
  status : Status
  stopRequested : Bool
  stored : Snapshot
  /-- How the program counter is shown while it stands at a load address that is no plain integer. -/
  shownPc : Option Value := none
  /-- The bounds of the code cannot be compared with the program counter. -/
  lost : Bool := false

namespace Controller

/-- The snapshot of the present state. -/
def observe (c : Controller) : Snapshot :=
  ⟨c.machine, c.setup.window, c.lastInstruction, c.statistics, c.status, c.lastError, c.shownPc⟩

/-- Stores the snapshot of the present state. -/
def refresh (c : Controller) : Controller := { c with stored := c.observe }

/-- An idle controller of a machine without a program. -/
def create (memory : Memory) (clock : Clock) (setup : Setup) : Controller :=
  let machine := Machine.ofMemory memory
  { setup, machine, clock
    statistics := {}
    program := []
    labels := []
    lastInstruction := none
    lastError := none
    status := .idle
    stopRequested := false
    stored := ⟨machine, setup.window, none, {}, .idle, none, none⟩ }

def isRunning (c : Controller) : Bool := c.status = .running

/-- How the program counter is shown. -/
def pc (c : Controller) : Value := c.shownPc.getD (.int c.machine.pc)

/-- How the address of a label is shown. -/
def label (c : Controller) (address : Int) : Value := c.setup.loadAddress.label address

/-- Puts a program into the machine at an address and forgets what was executed before. -/
def reinstall (c : Controller) (start : Int) (program : List Word) (labels : Assembly.Labels) :
    Except Machine.Fault Controller := do
  let image := Image.ofWords (program.map fun w => w.toNat)
  let machine ← c.machine.load image start
  return refresh { c with
    machine, program, labels
    statistics := {}
    lastInstruction := none
    lastError := none
    shownPc := none }

/-- What executing one instruction came to. -/
inductive Outcome
  /-- Nothing was left to execute. -/
  | completed
  /-- The instruction was executed; the program may have finished by it. -/
  | stepped (finished : Bool)
  /-- The machine refused the instruction. -/
  | failed (f : Machine.Fault)
  /-- The instruction was executed and counted, but its time is too large for a number; nothing else
  has taken note of it. -/
  | overflow
  deriving DecidableEq, Repr

/-- Executes one instruction, unless the program has finished. -/
def executeNext (c : Controller) : Outcome × Controller :=
  if c.machine.hasFinished then (.completed, c.refresh)
  else
    match c.machine.cycle with
    | .error f => (.failed f, refresh { c with lastError := some f })
    | .ok (instr, machine) =>
      match c.statistics.record instr.kind c.clock with
      | (statistics, true) => (.overflow, { c with machine, statistics, shownPc := none })
      | (statistics, false) =>
        (.stepped machine.hasFinished, refresh { c with
          machine, statistics
          lastInstruction := some instr
          lastError := none
          shownPc := none })

/-- A background run is in progress, and nothing has asked it to stop. -/
def running (c : Controller) : Controller := { c with status := .running, stopRequested := false }

/-- Marks the start of a background run. -/
def begin (c : Controller) : Controller := c.running.refresh

/-- No background run is in progress. -/
def idle (c : Controller) : Controller := { c with status := .idle }

/-- Marks the end of a background run. -/
def settle (c : Controller) : Controller := c.idle.refresh

/-- Asks the worker to stop before its next cycle. -/
def requestStop (c : Controller) : Controller := { c with stopRequested := true }

end Controller

end PocketMips.Simulator
