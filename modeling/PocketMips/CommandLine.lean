import PocketMips.CommandLine.Arguments
import PocketMips.Settings
import PocketMips.Simulator.Batch
import PocketMips.Simulator.Report

/-!
The command line: it assembles a program into a file, or runs one and reports how it ended. Without a
program the simulator is to be served instead.
-/
namespace PocketMips.CommandLine

open Simulator

/-- Why a command fails. -/
inductive Error
  | settings (e : Settings.Error)
  | program (e : Program.Error)
  | file (e : Files.Error)
  | simulator (e : Failure)

def Error.message : Error → String
  | settings e => e.message
  | program e => e.message
  | file e => e.message
  | simulator e => e.message

/-- How a command ends. -/
inductive Ending
  | exit (code : Nat)
  | failed (e : Error)
  | serve (s : Settings)

/-- How a command ends, what it has printed, and the files after it. -/
structure Outcome where
  ending : Ending
  printed : String := ""
  files : Files

/-- The help text of a program of the given name. -/
def helpText (name : String) : String :=
  let margin := String.ofList (List.replicate (name.length + 8) ' ')
  String.join ([
    "usage: " ++ name ++ " [-h] [--config CONFIG] [--max-steps MAX_STEPS]",
    margin ++ "[--output OUTPUT] [--verbose]",
    margin ++ "[program]",
    "",
    "MIPS subset simulator",
    "",
    "positional arguments:",
    "  program               assembly (.asm) or machine code (.bin, .txt, .hex) to",
    "                        run; serves the API when omitted",
    "",
    "options:",
    "  -h, --help            show this help message and exit",
    "  --config CONFIG       YAML configuration file",
    "  --max-steps MAX_STEPS",
    "  --output OUTPUT       assemble only and write the machine code here (.bin or",
    "                        text)",
    "  --verbose"].map (· ++ "\n"))

/-- The words of a program; a source is assembled at the load address of the settings. -/
def wordsOf (s : Settings) : Program → Except Error (List Int)
  | .words ws => .ok ws
  | .image bytes => .ok ((Image.words bytes).map fun w => w.toNat)
  | .source text =>
    match s.loadAddress.assemble (.text text) with
    | .error e => .error (.simulator e)
    | .ok (_, words) => .ok (words.map fun w => w.toNat)

/-- Writes the words of a program to a file; the files after it. -/
def convert (s : Settings) (files : Files) (program output : String) : Except Error Files := do
  let p ← (Program.read files program).mapError .program
  let words ← wordsOf s p
  (Program.write files output words).mapError .file

/-- Runs a program; the text that closes the run, and the failure that has cut it short. -/
def runProgram (s : Settings) (files : Files) (program : String) (limit : Int) :
    Except Error (String × Option Failure) := do
  let p ← (Program.read files program).mapError .program
  let c ← s.controller.mapError .settings
  let ended ← (c.batch p limit).mapError .simulator
  return ended.report

/-- A path, unless it is empty. -/
def path? (s : Option String) : Option String := s.filter (· ≠ "")

/-- Does what arguments ask for. -/
def obey (a : Arguments) (files : Files) : Outcome :=
  match Settings.load files a.config [] with
  | .error e => { ending := .failed (.settings e), files }
  | .ok s =>
    match path? a.program, path? a.output with
    | none, _ => { ending := .serve s, files }
    | some program, some output =>
      match convert s files program output with
      | .ok files => { ending := .exit 0, files }
      | .error e => { ending := .failed e, files }
    | some program, none =>
      match runProgram s files program a.limit with
      | .ok (printed, none) => { ending := .exit 0, printed, files }
      | .ok (printed, some e) => { ending := .failed (.simulator e), printed, files }
      | .error e => { ending := .failed e, files }

/-- Performs the command line of a program of the given name over files. -/
def perform (name : String) (argv : List String) (files : Files) : Outcome :=
  match Request.ofArguments argv with
  | .run a => obey a files
  | .help => { ending := .exit 0, printed := helpText name, files }
  | .misuse => { ending := .exit 2, files }

end PocketMips.CommandLine
