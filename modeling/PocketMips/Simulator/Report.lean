import PocketMips.Simulator.Call

/-!
What is told of a simulator: the entries of a snapshot, and the text that closes a run.
-/
namespace PocketMips.Simulator

open Number Text

/-- Bytes in hexadecimal. -/
def hexBytes (bs : List Byte) : List Char := bs.flatMap fun b => hexCode 2 b.toNat

/-- What a snapshot shows, as entries. -/
def Snapshot.entries (s : Snapshot) : Value.Entries := [
  ("pc", s.pc),
  ("registers", .list (s.machine.registers.toList.map fun w => .int w.toNat)),
  ("memory", .text (String.ofList (hexBytes s.memory))),
  ("current_instruction", (s.current?.map fun w => Value.int w.toNat).getD .null),
  ("current_instruction_hex", .text s.currentHex),
  ("current_instruction_assembly", .text s.currentText),
  ("last_instruction", .text s.lastText),
  ("r_count", .int s.statistics.rCount),
  ("i_count", .int s.statistics.iCount),
  ("j_count", .int s.statistics.jCount),
  ("clock_cycles", .int s.statistics.cycles),
  ("execution_time", .float s.statistics.time),
  ("state", .text s.status.name),
  ("finished", .bool s.finished),
  ("error", (s.errorText.map Value.text).getD .null)]

/-- A line for a register, if it is not zero. -/
def registerLine? (name : String) (w : Word) : Option String :=
  if w = 0 then none
  else some (name ++ String.ofList (List.replicate (6 - name.length) ' ') ++
    s!" {hexWord w.toNat} ({w.toNat})")

/-- The lines for the registers that are not zero. -/
def registerLines (f : RegisterFile) : List String :=
  (List.range 32).filterMap fun i =>
    let r : Register := BitVec.ofNat 5 i
    registerLine? r.name (f.get r)

/-- The program counter in hexadecimal, if it is shown as what has such a form. -/
def Snapshot.pcText? (s : Snapshot) : Option String :=
  match s.shownPc with
  | some (.float _) => none
  | _ => some (hexWord s.machine.pc)

/-- The lines that close a run, up to the program counter. -/
def Controller.registerReport (c : Controller) : List String :=
  "=== Register States ===" :: registerLines c.stored.machine.registers

/-- The lines that close a run, from a program counter up to the counts. -/
def Controller.countReport (c : Controller) (pc : String) : List String :=
  let n := c.stored.statistics
  ["PC: " ++ pc, s!"Instructions: R={n.rCount} I={n.iCount} J={n.jCount}"]

/-- The lines that close a run, from the cycles on. -/
def Controller.timeReport (c : Controller) : List String :=
  [s!"Clock cycles: {c.stored.statistics.cycles}",
    "Execution time: " ++ Statistics.timeText c.statistics.time]

/-- Lines as a text. -/
def ofLines (ls : List String) : String := String.join (ls.map (· ++ "\n"))

/-- The text that closes a run, and the failure that has cut it short. -/
def Controller.report (c : Controller) : String × Option Failure :=
  match c.stored.pcText? with
  | none => (ofLines c.registerReport, some .noHexadecimal)
  | some pc =>
    let counted := c.registerReport ++ c.countReport pc
    if Value.isWritable c.stored.statistics.cycles then (ofLines (counted ++ c.timeReport), none)
    else (ofLines counted, some .tooLong)

end PocketMips.Simulator
