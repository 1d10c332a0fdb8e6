import PocketMips.CommandLine

/-!
The program. It reads the files that its arguments name, performs the command line over them, and writes
what has come of it.
-/
namespace PocketMips.CommandLine

/-- The files with one of the disk put among them, if it can be read. -/
def withFile (files : Files) (path : String) : IO Files := do
  try
    let bytes ← IO.FS.readBinFile path
    return files.put (Files.place path) (bytes.toList.map UInt8.toBitVec)
  catch _ => return files

/-- The files that arguments name; the directory of the output is taken to be there. -/
def gather (a : Arguments) : IO Files := do
  let named := [a.config, a.program].filterMap path?
  let directories := ((path? a.output).map fun p => (Files.place p).dropLast).toList
  named.foldlM withFile { directories }

/-- Writes the output of arguments to the disk, if the files hold it. -/
def store (a : Arguments) (files : Files) : IO Unit := do
  match path? a.output with
  | none => return
  | some path =>
    match files.read path with
    | .ok bytes => IO.FS.writeBinFile path ⟨(bytes.map UInt8.ofBitVec).toArray⟩
    | .error _ => return

/-- The name that the program goes by. -/
def programName : String := "pocketmips"

/-- Performs the command line over the files that it names. -/
def launch (argv : List String) : IO UInt32 := do
  let arguments := match Request.ofArguments argv with
    | .run a => a
    | .help | .misuse => {}
  let outcome := perform programName argv (← gather arguments)
  IO.print outcome.printed
  match outcome.ending with
  | .exit code =>
    if code = 0 then store arguments outcome.files
    return code.toUInt32
  | .failed e =>
    IO.eprintln (programName ++ ": " ++ e.message)
    return 1
  | .serve _ =>
    IO.eprintln (programName ++ ": no program to run")
    return 1

end PocketMips.CommandLine

def main (argv : List String) : IO UInt32 := PocketMips.CommandLine.launch argv
