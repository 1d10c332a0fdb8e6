import PocketMips.Number.Literal
import PocketMips.Simulator.Call

/-!
Command-line arguments: options in any order around one optional program path. A long option may be
cut short as long as it stays the only one with its beginning, and may have its value attached by `=`;
after `--` there are no more options.
-/
namespace PocketMips.CommandLine

open Number Text

/-- What is asked for on the command line. -/
structure Arguments where
  program : Option String := none
  config : Option String := none
  limit : Int := Simulator.defaultLimit
  output : Option String := none
  verbose : Bool := false
  deriving DecidableEq, Repr

/-- The options. -/
inductive Flag
  | help | config | limit | output | verbose
  deriving DecidableEq, Repr

namespace Flag

def all : List Flag := [help, config, limit, output, verbose]

def name : Flag → String
  | help => "--help"
  | config => "--config"
  | limit => "--max-steps"
  | output => "--output"
  | verbose => "--verbose"

/-- Whether the option is followed by a value. -/
def hasValue : Flag → Bool
  | config | limit | output => true
  | help | verbose => false

end Flag

/-- What an argument is, whatever comes before and after it. -/
inductive Token
  | value (s : String)
  /-- The mark after which there are no options. -/
  | separator
  | option (flag : Flag) (attached : Option String)
  /-- It has the form of an option, but there is none of its name. -/
  | unknown
  deriving DecidableEq, Repr

namespace Token

/-- A text without one line end behind it. -/
def withoutEnd (cs : List Char) : List Char := if cs.getLast? = some '\n' then cs.dropLast else cs

/-- Whether a text has the form of a negative number; a line end may follow it. -/
def isNegativeNumber (cs : List Char) : Bool :=
  let digits := fun ds : List Char => ds.all fun c => (decimalValue? c).isSome
  match withoutEnd cs with
  | '-' :: body =>
    match cut '.' body with
    | (whole, none) => whole ≠ [] && digits whole
    | (whole, some fraction) => digits whole && fraction ≠ [] && digits fraction
  | _ => false

/-- An argument that is the beginning of no option. -/
def ofOther (s : String) : Token :=
  if isNegativeNumber s.toList || s.toList.contains ' ' then .value s else .unknown

/-- An argument with two dashes, if it is the beginning of one option at most. -/
def ofLong? (s : String) : Option Token :=
  let (name, rest) := cut '=' s.toList
  let attached := rest.map String.ofList
  match Flag.all.find? (·.name.toList = name) with
  | some flag => some (.option flag attached)
  | none =>
    match Flag.all.filter (name.isPrefixOf ·.name.toList) with
    | [] => some (ofOther s)
    | [flag] => some (.option flag attached)
    | _ => none

/-- What follows the letter of help: more of the same, at once or behind a `=`, asks for nothing more,
and anything else is a value, which help does not have. -/
def helpTail (cs : List Char) : Token :=
  let letters := match cs with
    | '=' :: rest => rest
    | rest => rest
  if letters.all (· = 'h') && cs ≠ ['='] then .option .help none
  else .option .help (some (String.ofList cs))

/-- An argument before the separator. -/
def of? (s : String) : Option Token :=
  match s.toList with
  | '-' :: '-' :: _ => ofLong? s
  | '-' :: 'h' :: rest => some (helpTail rest)
  | '-' :: _ :: _ => some (ofOther s)
  | _ => some (.value s)

/-- The tokens of arguments, unless one may be several options. -/
def all? : List String → Option (List Token)
  | [] => some []
  | s :: rest =>
    if s = "--" then some (.separator :: rest.map .value)
    else do
      let t ← of? s
      let ts ← all? rest
      return t :: ts

end Token

/-- What a command line comes to. -/
inductive Request
  | run (a : Arguments)
  | help
  | misuse
  deriving DecidableEq, Repr

/-- The arguments read so far. -/
structure Progress where
  arguments : Arguments := {}
  /-- The place of the program path is taken. -/
  filled : Bool := false
  /-- There was an argument that has no place. -/
  surplus : Bool := false
  deriving DecidableEq, Repr

namespace Progress

/-- Sets the value of an option, if it can be one. -/
def assign? (p : Progress) (flag : Flag) (value : String) : Option Progress :=
  let a := p.arguments
  match flag with
  | .config => some { p with arguments := { a with config := some value } }
  | .output => some { p with arguments := { a with output := some value } }
  | .limit =>
    match literal .ten value.toList with
    | .ok n => some { p with arguments := { a with limit := n } }
    | .error _ => none
  | .help | .verbose => none

/-- Takes an argument that is no option. -/
def take (p : Progress) (s : String) : Progress :=
  if p.filled then { p with surplus := true }
  else { p with arguments := { p.arguments with program := some s }, filled := true }

/-- Reads tokens in their order; the first thing that settles the outcome does so. A separator goes with
the program path next to it, and has no place if the path is somewhere else. -/
def read (p : Progress) : List Token → Request
  | [] => if p.surplus then .misuse else .run p.arguments
  | .value s :: .separator :: rest => read (p.take s) rest
  | .value s :: rest => read (p.take s) rest
  | .separator :: rest => read { p with surplus := p.surplus || p.filled } rest
  | .unknown :: rest => read { p with surplus := true } rest
  | .option .help none :: _ => .help
  | .option .verbose none :: rest =>
    read { p with arguments := { p.arguments with verbose := true } } rest
  | .option flag (some value) :: rest =>
    match p.assign? flag value with
    | some p => read p rest
    | none => .misuse
  | .option flag none :: .value s :: rest =>
    match p.assign? flag s with
    | some p => read p rest
    | none => .misuse
  | .option _ none :: _ => .misuse

end Progress

/-- What arguments ask for. -/
def Request.ofArguments (argv : List String) : Request :=
  match Token.all? argv with
  | some ts => Progress.read {} ts
  | none => .misuse

end PocketMips.CommandLine
