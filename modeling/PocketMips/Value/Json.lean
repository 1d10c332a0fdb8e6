import PocketMips.Number.Literal
import PocketMips.Text.Half
import PocketMips.Value

/-!
Reading values from JSON texts, with the names of the infinities and of what is no number admitted
where a number may stand. A key that comes again replaces the earlier entry.
-/
namespace PocketMips.Value.Json

open Number Text

/-- The blanks between tokens. -/
def isGap (c : Char) : Bool := c = ' ' || c = '\t' || c = '\n' || c = '\r'

/-- The text from its first token on. -/
def skip (cs : List Char) : List Char := cs.dropWhile isGap

/-- The rest of a text behind a given beginning. -/
def after? (word : String) (cs : List Char) : Option (List Char) :=
  let w := word.toList
  if cs.take w.length = w then some (cs.drop w.length) else none

/-- The number of four hexadecimal digits, and the rest. -/
def unit? (cs : List Char) : Option (Nat × List Char) := do
  let ds := cs.take 4
  guard (ds.length = 4)
  let vs ← ds.mapM fun c => if c.toNat < 0x80 then digitIn? 16 c else none
  return (ofDigits 16 vs, cs.drop 4)

/-- The character of an escape whose `\u` has been read, joining the halves of a pair. -/
def escaped? (cs : List Char) : Option (Char × List Char) := do
  let (code, rest) ← unit? cs
  match (after? "\\u" rest).bind unit? with
  | some (low, rest') =>
    if isHigh code && isLow low then return (pairOf code low, rest') else return (charOf code, rest)
  | none => return (charOf code, rest)

/-- The character of a one-letter escape. -/
def letterEscape? : Char → Option Char
  | '"' => some '"'
  | '\\' => some '\\'
  | '/' => some '/'
  | 'b' => some '\x08'
  | 'f' => some '\x0c'
  | 'n' => some '\n'
  | 'r' => some '\r'
  | 't' => some '\t'
  | _ => none

/-- The rest of a string whose opening quote has been read. -/
def string? : Nat → List Char → Option (List Char × List Char)
  | 0, _ => none
  | fuel + 1, cs =>
    match cs with
    | [] => none
    | '"' :: rest => some ([], rest)
    | '\\' :: 'u' :: rest => do
      let (c, rest) ← escaped? rest
      let (s, rest) ← string? fuel rest
      return (c :: s, rest)
    | '\\' :: e :: rest => do
      let c ← letterEscape? e
      let (s, rest) ← string? fuel rest
      return (c :: s, rest)
    | c :: rest => do
      guard (0x20 ≤ c.toNat ∧ c ≠ '\\')
      let (s, rest) ← string? fuel rest
      return (c :: s, rest)

/-- A number at the front of a text. -/
def number? (cs : List Char) : Option (Value × List Char) := do
  let (negative, cs) := match cs with
    | '-' :: r => (true, r)
    | r => (false, r)
  let whole := cs.takeWhile Char.isDigit
  let rest := cs.dropWhile Char.isDigit
  let digit := fun c : Char => c.toNat - 0x30
  let (whole, rest) := match whole with
    | '0' :: more => (['0'], more ++ rest)
    | ds => (ds, rest)
  guard (whole ≠ [])
  let (fraction, rest) := match rest with
    | '.' :: r => if (r.takeWhile Char.isDigit) = [] then ([], rest)
        else (r.takeWhile Char.isDigit, r.dropWhile Char.isDigit)
    | r => ([], r)
  let (exponent, rest) := match rest with
    | e :: r =>
      if e = 'e' ∨ e = 'E' then
        let (neg, ds) := unsign r
        let run := ds.takeWhile Char.isDigit
        if run = [] then (none, rest)
        else
          let n : Int := ofDigits 10 (run.map digit)
          (some (if neg then -n else n), ds.dropWhile Char.isDigit)
      else (none, rest)
    | [] => (none, [])
  if fraction = [] ∧ exponent = none then
    guard (whole.length ≤ maxDigits)
    let n : Int := ofDigits 10 (whole.map digit)
    return (.int (if negative then -n else n), rest)
  else
    let n := ofDigits 10 ((whole ++ fraction).map digit)
    return (.float (Binary64.ofScaled negative ⟨n, exponent.getD 0 - fraction.length⟩), rest)

/-- The names of values. -/
def names : List (String × Value) :=
  [("null", .null), ("true", .bool true), ("false", .bool false),
    ("NaN", .float ⟨0x7FF8000000000000⟩), ("Infinity", .float ⟨0x7FF0000000000000⟩),
    ("-Infinity", .float ⟨0xFFF0000000000000⟩)]

/-- A named value or a number at the front of a text. -/
def scalar? (cs : List Char) : Option (Value × List Char) :=
  (names.findSome? fun (w, v) => (after? w cs).map (v, ·)).or (number? cs)

/-- Why a text has no value. -/
inductive Error
  | malformed
  /-- Lists and maps lie too deep in one another. -/
  | tooDeep
  deriving DecidableEq, Repr

/-- What has to be there. -/
def need {α : Type} : Option α → Except Error α
  | some a => .ok a
  | none => .error .malformed

mutual
/-- A value at the front of a text that starts with its first token, in which lists and maps may lie
in one another to a depth. The fuel lasts if it is more than twice the length of the text. -/
def value : Nat → Nat → List Char → Except Error (Value × List Char)
  | 0, _, _ => .error .malformed
  | fuel + 1, depth, cs =>
    match cs, depth with
    | '[' :: _, 0 | '\x7b' :: _, 0 => .error .tooDeep
    | '[' :: rest, depth + 1 =>
      match skip rest with
      | ']' :: r => .ok (.list [], r)
      | r => (items fuel depth r).map fun (vs, r) => (.list vs, r)
    | '\x7b' :: rest, depth + 1 =>
      match skip rest with
      | '\x7d' :: r => .ok (.map [], r)
      | r => (entries fuel depth [] r).map fun (es, r) => (.map es, r)
    | '"' :: rest, _ => do
      let (s, r) ← need (string? fuel rest)
      return (.text (String.ofList s), r)
    | cs, _ => need (scalar? cs)

/-- The items of a list up to its closing bracket. -/
def items : Nat → Nat → List Char → Except Error (List Value × List Char)
  | 0, _, _ => .error .malformed
  | fuel + 1, depth, cs => do
    let (v, rest) ← value fuel depth cs
    match skip rest with
    | ']' :: r => return ([v], r)
    | ',' :: r => do
      let (vs, r) ← items fuel depth (skip r)
      return (v :: vs, r)
    | _ => throw .malformed

/-- The entries of a map up to its closing brace, set over those read before. -/
def entries : Nat → Nat → Entries → List Char → Except Error (Entries × List Char)
  | 0, _, _, _ => .error .malformed
  | fuel + 1, depth, es, cs =>
    match cs with
    | '"' :: rest => do
      let (key, rest) ← need (string? fuel rest)
      match skip rest with
      | ':' :: r => do
        let (v, rest) ← value fuel depth (skip r)
        let es := insert (.text (String.ofList key)) v es
        match skip rest with
        | '\x7d' :: r => return (es, r)
        | ',' :: r => entries fuel depth es (skip r)
        | _ => throw .malformed
      | _ => throw .malformed
    | _ => throw .malformed
end

/-- Reads a text that holds one value, in which lists and maps may lie in one another to a depth; a byte
order mark before it is skipped. -/
def parse (depth : Nat) (text : List Char) : Except Error Value := do
  let cs := match text with
    | '\ufeff' :: r => r
    | r => r
  let (v, rest) ← value (2 * cs.length + 2) depth (skip cs)
  if skip rest = [] then return v else throw .malformed

end PocketMips.Value.Json
