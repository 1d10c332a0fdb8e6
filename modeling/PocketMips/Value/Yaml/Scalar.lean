import PocketMips.Value
import PocketMips.Value.Yaml.Error

/-!
Scalars of a YAML text: the type that a plain scalar has by its form, and the value of a scalar of a
type. Integers may be binary, octal, decimal or hexadecimal, or have parts to the base of sixty; digits
may have underscores between them.
-/
namespace PocketMips.Value.Yaml

open Number Text

/-- The type of a node. -/
inductive NodeType
  | null
  | bool
  | int
  | float
  /-- A day or a moment. -/
  | time
  /-- The key under which a mapping takes over the entries of others. -/
  | merge
  /-- The key of the value that stands for a whole mapping. -/
  | standIn
  | text
  | list
  | map
  /-- A type that has no values here. -/
  | unknown
  deriving DecidableEq, Repr

namespace NodeType

/-- The beginning of the tags of types. -/
def tagStart : List Char := "tag:yaml.org,2002:".toList

/-- The names of types in tags. -/
def names : List (String × NodeType) :=
  [("null", null), ("bool", bool), ("int", int), ("float", float), ("timestamp", time), ("str", text),
    ("seq", list), ("map", map), ("merge", merge), ("value", standIn)]

/-- The type of a tag. -/
def ofTag (tag : List Char) : NodeType :=
  ((names.find? fun e => tagStart ++ e.1.toList = tag).map (·.2)).getD unknown

end NodeType

/-! ## Forms -/

/-- The words for truth values. -/
def truthWords : List (String × Bool) :=
  [("yes", true), ("no", false), ("true", true), ("false", false), ("on", true), ("off", false)]

/-- A word in small letters, with a capital at its front, or in capitals. -/
def isWord (word : String) (cs : List Char) : Bool :=
  let w := word.toList
  cs = w || cs = w.map Char.toUpper || cs = (w.take 1).map Char.toUpper ++ w.drop 1

def isTruthWord (cs : List Char) : Bool := truthWords.any fun e => isWord e.1 cs

def isNullWord (cs : List Char) : Bool := cs = [] || cs = ['~'] || isWord "null" cs

/-- Digits with underscores anywhere among them. -/
def areDigits (p : Char → Bool) (cs : List Char) : Bool := cs.all fun c => p c || c = '_'

/-- Digits with underscores behind the first one. -/
def areDecimal (cs : List Char) : Bool :=
  match cs with
  | c :: rest => c.isDigit && areDigits Char.isDigit rest
  | [] => false

/-- A number below sixty in one or two digits. -/
def isSixtieth (cs : List Char) : Bool :=
  match cs with
  | [c] => c.isDigit
  | [t, c] => t.isDigit && t.toNat < 0x36 && c.isDigit
  | _ => false

/-- Parts to the base of sixty, two at least. -/
def areSixtieths (cs : List Char) : Bool :=
  match cs.splitOn ':' with
  | first :: second :: rest => areDecimal first && (second :: rest).all isSixtieth
  | _ => false

def isInt (cs : List Char) : Bool :=
  let (_, body) := unsign cs
  match body with
  | '0' :: 'b' :: ds => ds ≠ [] && areDigits (fun c => c = '0' || c = '1') ds
  | '0' :: 'x' :: ds => ds ≠ [] && areDigits (fun c => c.toNat < 0x80 && (digitIn? 16 c).isSome) ds
  | '0' :: ds => areDigits (fun c => c.isDigit && c.toNat < 0x38) ds
  | ds => areDecimal ds || areSixtieths ds

/-- The exponent of a number, which has a sign, or nothing. -/
def isExponent : List Char → Bool
  | [] => true
  | e :: sign :: ds => (e = 'e' || e = 'E') && (sign = '+' || sign = '-') && ds ≠ [] && ds.all Char.isDigit
  | _ => false

def isInfinity (cs : List Char) : Bool := cs = ".inf".toList || cs = ".Inf".toList || cs = ".INF".toList

def isNan (cs : List Char) : Bool := cs = ".nan".toList || cs = ".NaN".toList || cs = ".NAN".toList

def isFloat (cs : List Char) : Bool :=
  let (_, body) := unsign cs
  let isLoose := fun c : Char => c.isDigit || c = '_'
  isInfinity body || isNan cs ||
    match cut '.' body with
    | (_, none) => false
    | (whole, some rest) =>
      let exponent := rest.dropWhile isLoose
      if whole = [] then body = cs && areDecimal (rest.takeWhile isLoose) && isExponent exponent
      else (areDecimal whole && isExponent exponent) || (areSixtieths whole && exponent = [])

/-! ## Days and moments -/

/-- The parts of a day or a moment as they are written. -/
structure Stamp where
  year : List Char
  month : List Char
  day : List Char
  time : Option (List Char × List Char × List Char) := none
  fraction : List Char := []
  /-- The distance from the universal time: whether it is negative, hours and minutes. -/
  zone : Option (Bool × List Char × List Char) := none

/-- Digits of a count within bounds at the front of a text, and the rest. -/
def digitsOf (least most : Nat) (cs : List Char) : Option (List Char × List Char) := do
  let ds := (cs.take most).takeWhile Char.isDigit
  guard (least ≤ ds.length)
  return (ds, cs.drop ds.length)

/-- The rest of a text behind a mark. -/
def behind (mark : Char) : List Char → Option (List Char)
  | c :: rest => if c = mark then some rest else none
  | [] => none

def isSpace (c : Char) : Bool := c = ' ' || c = '\t'

/-- The distance from the universal time that ends a moment. -/
def zone? (cs : List Char) : Option (Option (Bool × List Char × List Char)) :=
  if cs = [] then some none
  else
    match cs.dropWhile isSpace with
    | ['Z'] => some (some (false, [], []))
    | sign :: rest => do
      guard (sign = '+' ∨ sign = '-')
      let (hour, rest) ← digitsOf 1 2 rest
      if rest = [] then return some (sign = '-', hour, [])
      else
        let (minute, rest) ← digitsOf 2 2 (← behind ':' rest)
        guard (rest = [])
        return some (sign = '-', hour, minute)
    | [] => none

/-- The parts of a day or a moment. -/
def stamp? (cs : List Char) : Option Stamp := do
  let (year, rest) ← digitsOf 4 4 cs
  let (month, rest) ← digitsOf 1 2 (← behind '-' rest)
  let (day, rest) ← digitsOf 1 2 (← behind '-' rest)
  if rest = [] then return { year, month, day }
  else
    let rest ← match rest with
      | 'T' :: rest | 't' :: rest => some rest
      | c :: rest => if isSpace c then some (rest.dropWhile isSpace) else none
      | [] => none
    let (hour, rest) ← digitsOf 1 2 rest
    let (minute, rest) ← digitsOf 2 2 (← behind ':' rest)
    let (second, rest) ← digitsOf 2 2 (← behind ':' rest)
    let (fraction, rest) := match rest with
      | '.' :: rest => (rest.takeWhile Char.isDigit, rest.dropWhile Char.isDigit)
      | rest => ([], rest)
    let zone ← zone? rest
    return { year, month, day, time := some (hour, minute, second), fraction, zone }

/-- Whether a plain scalar is a day or a moment; a day alone has two digits for month and day. -/
def isTime (cs : List Char) : Bool :=
  match stamp? cs with
  | some s => s.time.isSome || (s.month.length = 2 && s.day.length = 2)
  | none => false

/-- The number of decimal digits. -/
def number (ds : List Char) : Nat := ofDigits 10 (ds.map fun d => d.toNat - 0x30)

/-- The text of a day or a moment. -/
def Stamp.text (s : Stamp) : Except Calendar.Error (List Char) :=
  let day : Calendar.Day := ⟨number s.year, number s.month, number s.day⟩
  match s.time with
  | none => Calendar.day? day
  | some (hour, minute, second) =>
    let digits := s.fraction.take 6
    let millionths := number digits * tens (6 - digits.length)
    let zone := s.zone.map fun (negative, h, m) =>
      let seconds : Int := (number h * 60 + number m) * 60
      if negative then -seconds else seconds
    Calendar.moment? day ⟨number hour, number minute, number second, millionths⟩ zone

/-! ## Values -/

/-- The type of a plain scalar. -/
def NodeType.ofPlain (cs : List Char) : NodeType :=
  if isTruthWord cs then .bool
  else if isFloat cs then .float
  else if isInt cs then .int
  else if cs = ['<', '<'] then .merge
  else if isNullWord cs then .null
  else if isTime cs then .time
  else if cs = ['='] then .standIn
  else .text

/-- The sum of parts to the base of sixty, the last of them being units. -/
def ofSixtieths (parts : List Int) : Int := parts.foldl (fun n p => 60 * n + p) 0

/-- The value of an integer scalar. -/
def intValue (cs : List Char) : Except Error Int := do
  let loose := cs.filter (· ≠ '_')
  if loose = [] then throw .emptyNumber
  let (negative, body) := unsign loose
  let read := fun (radix : Radix) (ds : List Char) => (literal radix ds).mapError Error.literal
  let n ← match body with
    | [] => throw .emptyNumber
    | ['0'] => pure 0
    | '0' :: 'b' :: ds => read .two ds
    | '0' :: 'x' :: ds => read .sixteen ds
    | '0' :: _ => read .eight body
    | _ =>
      if ':' ∈ body then (ofSixtieths ·) <$> (body.splitOn ':').mapM (read .ten) else read .ten body
  return if negative then -n else n

/-- The sum of parts to the base of sixty as a floating-point number, from the units on. -/
def floatSixtieths (parts : List Binary64) : Binary64 :=
  let step := fun (e : Binary64 × Nat) (part : Binary64) =>
    (e.1.add (part.mul (Binary64.nearest false e.2 1)), e.2 * 60)
  (parts.reverse.foldl step (Binary64.zero, 1)).1

/-- The number with its sign turned. -/
def turned (negative : Bool) (x : Binary64) : Binary64 :=
  if negative then ⟨x.bits ^^^ (1#64 <<< 63)⟩ else x

/-- The value of a floating-point scalar. What is no number counts as negative. -/
def floatValue (cs : List Char) : Except Error Binary64 := do
  let loose := (cs.filter (· ≠ '_')).map Char.toLower
  if loose = [] then throw .emptyNumber
  let (negative, body) := unsign loose
  let read := fun ds : List Char =>
    match floatLiteral? ds with
    | some x => Except.ok x
    | none => .error (.notFloat ds)
  if body = ".inf".toList then return Binary64.ofSignBits negative Binary64.infinityBits
  else if body = ".nan".toList then return Binary64.nan true
  else if ':' ∈ body then
    return turned negative (floatSixtieths (← (body.splitOn ':').mapM read))
  else return turned negative (← read body)

/-- The value of a scalar of a type. -/
def scalarValue (type : NodeType) (cs : List Char) : Except Error Value :=
  match type with
  | .null => .ok .null
  | .bool =>
    match truthWords.find? (·.1.toList = cs.map Char.toLower) with
    | some e => .ok (.bool e.2)
    | none => .error .notBoolean
  | .int => (intValue cs).map .int
  | .float => (floatValue cs).map .float
  | .time =>
    match stamp? cs with
    | some s => (s.text.mapError .calendar).map fun t => .time (String.ofList t)
    | none => .error .notTime
  | .text => .ok (.text (String.ofList cs))
  | .merge | .standIn | .list | .map | .unknown => .error .malformed

end PocketMips.Value.Yaml
