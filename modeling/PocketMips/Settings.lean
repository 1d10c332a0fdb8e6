import PocketMips.Files
import PocketMips.Simulator.Controller
import PocketMips.Value.Yaml

/-!
Settings in four sections. The built-in ones are overlaid section by section with those of a file and
with those of the caller; what becomes of them is checked when a simulator is made of them.
-/
namespace PocketMips

open Number Value

/-- A section of the settings. -/
inductive Settings.Section
  | clock | memory | snapshot | server
  deriving DecidableEq, Repr

/-- The entries of every section. -/
structure Settings where
  clock : Entries
  memory : Entries
  snapshot : Entries
  server : Entries
  deriving Repr

namespace Settings

namespace Section

def all : List Section := [clock, memory, snapshot, server]

def name : Section → String
  | clock => "clock"
  | memory => "memory"
  | snapshot => "snapshot"
  | server => "server"

end Section

/-- The entries of a section. -/
def get (s : Settings) : Section → Entries
  | .clock => s.clock
  | .memory => s.memory
  | .snapshot => s.snapshot
  | .server => s.server

/-- The settings when nothing else is asked for. -/
def builtIn : Settings where
  clock := Clock.standard.entries
  memory := [("kind", .text "fixed"), ("size", .int Memory.defaultCapacity), ("load_address", .int 0)]
  snapshot := [("memory_bytes", .int 1024)]
  server := [("host", .text "127.0.0.1"), ("port", .int 5000)]

/-- What can be wrong with settings. -/
inductive Error
  /-- The text of the file has no value. -/
  | text (e : Yaml.Error)
  /-- The file cannot be read. -/
  | file (e : Files.Error)
  /-- The file holds something that is no mapping. -/
  | notMapping (path : String)
  /-- A section or an entry has a value of a wrong type. -/
  | badType
  /-- The memory is of no known kind; the message names the kinds as the place asks for them. -/
  | unknownKind (kind : Value) (expected : String)
  | badCapacity (size : Value)
  /-- The size is no count of cells of any memory. -/
  | hugeCapacity
  /-- There is no room for a memory of the size. -/
  | noRoom
  | clock (e : Clock.BadSetting)
  deriving Repr

def Error.message : Error → String
  | badType | noRoom => ""
  | text e => e.message
  | file e => e.message
  | notMapping path => s!"{path}: expected a mapping at top level"
  | unknownKind kind expected =>
    Value.message "unknown memory kind: " kind s!" (expected {expected})"
  | badCapacity size => Value.message "memory size must be positive, got " size ""
  | hugeCapacity => "Maximum allowed dimension exceeded"
  | clock e => e.message

/-- The entries that a value sets; an empty value sets none. -/
def overlayOf (v : Value) : Except Error Entries :=
  if v.isEmpty then .ok []
  else
    match v with
    | .map es => .ok es
    | _ => .error .badType

/-- The entries of a section under those of a file and of the caller. -/
def sectionOf (file caller : Entries) (sec : Section) : Except Error Entries := do
  let fromFile ← overlayOf ((Value.lookup sec.name file).getD .null)
  let fromCaller ← overlayOf ((Value.lookup sec.name caller).getD .null)
  return Value.overlay (Value.overlay (builtIn.get sec) fromFile) fromCaller

/-- The kinds of memory. -/
def kinds : List String := ["fixed", "sparse"]

/-- Whether a value names a kind of memory. -/
def isKind : Value → Bool
  | .text s => kinds.contains s
  | _ => false

/-- The built-in settings under those of a file and of the caller. -/
def merge (file caller : Entries) : Except Error Settings := do
  let clock ← sectionOf file caller .clock
  let memory ← sectionOf file caller .memory
  let snapshot ← sectionOf file caller .snapshot
  let server ← sectionOf file caller .server
  let kind := (Value.lookup "kind" memory).getD .null
  if isKind kind then return ⟨clock, memory, snapshot, server⟩
  else .error (.unknownKind kind "one of ('fixed', 'sparse')")

/-- The entries of a settings file; an empty value counts as an empty mapping. -/
def ofText (path : String) (text : List Char) : Except Error Entries :=
  match Yaml.parse text with
  | .error e => .error (.text e)
  | .ok v =>
    if v.isEmpty then .ok []
    else
      match v with
      | .map es => .ok es
      | _ => .error (.notMapping path)

/-- The count of characters of a settings file that are read at a time; at first they are twice as many. -/
def pieceSize : Nat := 4096

/-- The text of a settings file that is read before its bytes turn out to be no text. -/
def readable (bytes : List Byte) : List Char :=
  let text := Files.leadingText bytes
  let pieces := text.length / pieceSize
  if pieces < 2 then [] else text.take (pieces * pieceSize)

/-- The text of a settings file. What is wrong with it may show before its bytes turn out to be no text. -/
def textOf (bytes : List Byte) : Except Error (List Char) :=
  match Files.decode bytes with
  | .ok cs => .ok cs
  | .error e =>
    match Yaml.fault? (readable bytes) with
    | some fault => .error (.text fault)
    | none => .error (.file e)

/-- The settings under the file of a path and under those of the caller. A file that is not there and a
path that is not given leave the built-in ones. -/
def load (files : Files) (path : Option String) (caller : Entries) : Except Error Settings := do
  match path with
  | none | some "" => merge [] caller
  | some path =>
    if files.has path then
      let bytes ← (files.read path).mapError .file
      merge (← ofText path (← textOf bytes)) caller
    else merge [] caller

/-- Whether a value is a number that is not positive. -/
def isNonPositive : Value → Bool
  | .int i => i ≤ 0
  | .bool b => !b
  | .float x => x.isNegative || (x.integer?).any (· = 0)
  | .null | .text _ | .time _ | .list _ | .map _ => false

/-- The capacity of a fixed memory of a size. -/
def capacityOf (size : Value) : Except Error Nat :=
  if isNonPositive size then .error (.badCapacity size)
  else
    match size with
    | .int i =>
      if 1 <<< 63 ≤ i then .error .hugeCapacity
      else if 1 <<< 47 ≤ i then .error .noRoom
      else .ok i.toNat
    | _ => .error .badType

/-- The memory of a kind and a size; only a memory of fixed capacity has a size. -/
def memoryOf (kind size : Value) : Except Error Memory :=
  match kind with
  | .text "fixed" => do return Memory.blank (.fixed (← capacityOf size))
  | .text "sparse" => .ok (Memory.blank .sparse)
  | _ => .error (.unknownKind kind "'fixed' or 'sparse'")

/-- The value of an entry. -/
def value (s : Settings) (sec : Section) (key : String) : Value :=
  (Value.lookup key (s.get sec)).getD .null

/-- The address that programs are loaded at. -/
def loadAddress (s : Settings) : Simulator.LoadAddress :=
  .ofValue (s.value .memory "load_address")

/-- The snapshot window of a memory from a value. A fixed memory is shown up to its end by what is not
less than its capacity, and not at all by what is not positive. -/
def windowOf (memory : Memory) : Value → Except Error Int
  | .int i => .ok i
  | .bool b => .ok (if b then 1 else 0)
  | .float x =>
    match memory.extent with
    | .fixed capacity =>
      if isNonPositive (.float x) then .ok 0
      else if x.atLeast capacity || x.isNan then .ok capacity
      else .error .badType
    | .sparse | .unbacked => .error .badType
  | .null | .text _ | .time _ | .list _ | .map _ => .error .badType

open Simulator in
/-- The controller that settings describe. -/
def controller (s : Settings) : Except Error Controller := do
  let memory ← memoryOf (s.value .memory "kind") (s.value .memory "size")
  let clock ← (Clock.ofEntries .standard s.clock).mapError .clock
  let window ← windowOf memory (s.value .snapshot "memory_bytes")
  return Controller.create memory clock { loadAddress := s.loadAddress, window }

end Settings

end PocketMips
