import PocketMips.Value.Yaml.Lexeme

/-!
The tokens of a YAML text. Indentation becomes marks for the starts and ends of block collections, and
the key of a block or flow mapping is marked in front of it once the colon behind it is met.
-/
namespace PocketMips.Value.Yaml

open Text

inductive Token
  | streamEnd
  /-- The version that a directive asks for. -/
  | version (major : Nat)
  /-- What a handle of tags stands for. -/
  | handle (name start : List Char)
  /-- A directive without meaning. -/
  | reserved
  | documentStart
  | documentEnd
  | blockSequence
  | blockMapping
  | blockEnd
  | flowSequence
  | flowSequenceEnd
  | flowMapping
  | flowMappingEnd
  /-- The dash before an item of a block sequence. -/
  | item
  | comma
  | key
  | value
  | reference (name : List Char)
  | anchor (name : List Char)
  | tag (t : Tag)
  | scalar (written : List Char) (isPlain : Bool)
  deriving DecidableEq, Repr

/-- A token that may turn out to start a key. -/
structure KeyStart where
  /-- The count of tokens before it. -/
  position : Nat
  /-- It stands where a block mapping needs a key. -/
  required : Bool
  index : Nat
  line : Nat
  column : Nat
  deriving DecidableEq, Repr

/-- The longest key without a mark before it. -/
def maxKeyLength : Nat := 1024

/-- The tokens read so far, and what decides on the next ones. -/
structure Reading where
  cursor : Cursor
  tokens : Array Token := #[]
  /-- The column of the innermost block collection. -/
  indent : Int := -1
  /-- The columns of the block collections around it. -/
  outer : List Int := []
  /-- What may start a key at every depth of flow collections, the innermost first. -/
  keys : List (Option KeyStart) := [none]
  /-- Whether a key may start here. -/
  keyAllowed : Bool := true

namespace Reading

/-- Whether the cursor is in a flow collection. -/
def inFlow (r : Reading) : Bool := 1 < r.keys.length

/-- Moves on behind a token. -/
def push (r : Reading) (t : Token) (c : Cursor) : Reading :=
  { r with tokens := r.tokens.push t, cursor := c }

/-- Closes block collections that lie deeper than a column. -/
def closeFrom (column : Int) (tokens : Array Token) (indent : Int) :
    List Int → Array Token × Int × List Int
  | [] => (tokens, indent, [])
  | o :: outer =>
    if indent ≤ column then (tokens, indent, o :: outer)
    else closeFrom column (tokens.push .blockEnd) o outer

/-- Closes the block collections that lie deeper than a column. -/
def close (column : Int) (r : Reading) : Reading :=
  if r.inFlow then r
  else
    let (tokens, indent, outer) := closeFrom column r.tokens r.indent r.outer
    { r with tokens, indent, outer }

/-- Opens a block collection at a column, unless it is open; its mark goes to a position. -/
def openAt (column : Nat) (position : Nat) (t : Token) (r : Reading) : Reading :=
  if !r.inFlow ∧ r.indent < column then
    { r with
      tokens := r.tokens.insertIdxIfInBounds position t
      indent := column
      outer := r.indent :: r.outer }
  else r

/-- Gives up what might have started a key, unless a key is required. -/
def giveUp (k : Option KeyStart) : Except Error (Option KeyStart) :=
  match k with
  | some k => if k.required then .error .malformed else .ok none
  | none => .ok none

/-- Gives up keys that would reach beyond their line or be too long. -/
def dropStale (r : Reading) : Except Error Reading := do
  let keys ← r.keys.mapM fun k =>
    match k with
    | some s =>
      if s.line ≠ r.cursor.line ∨ s.index + maxKeyLength < r.cursor.index then giveUp k else .ok k
    | none => .ok none
  return { r with keys }

/-- Gives up the key that might have started at the present depth. -/
def dropKey (r : Reading) : Except Error Reading := do
  match r.keys with
  | [] => return r
  | k :: keys => return { r with keys := (← giveUp k) :: keys }

/-- Notes that the next token may start a key. -/
def noteKey (r : Reading) : Except Error Reading := do
  if !r.keyAllowed then return r
  else
    let r ← r.dropKey
    let c := r.cursor
    let start : KeyStart :=
      ⟨r.tokens.size, !r.inFlow && r.indent = c.column, c.index, c.line, c.column⟩
    return { r with keys := some start :: r.keys.tail }

/-- Skips blanks, comments and the ends of lines; a line in block context may start with a key. -/
def skipGap : Nat → Reading → Reading
  | 0, r => r
  | fuel + 1, r =>
    let c := r.cursor.skipWhile (· = ' ')
    let c := if c.head? = some '#' then c.skipWhile (!isBreak ·) else c
    if (c.head?.map isBreak).getD false then
      skipGap fuel { r with cursor := c.next, keyAllowed := r.keyAllowed || !r.inFlow }
    else { r with cursor := c }

/-! ## Single tokens -/

/-- The digits of a number and the cursor behind them. -/
def digits (c : Cursor) : Except Error (List Char × Cursor) :=
  let (ds, c) := c.span Char.isDigit
  if ds = [] then .error .malformed else .ok (ds, c)

/-- The value of the directive of a version. -/
def versionDirective (c : Cursor) : Except Error (Token × Cursor) := do
  let (major, c) ← digits (c.skipWhile (· = ' '))
  if c.head? ≠ some '.' then throw .malformed
  let (_, c) ← digits c.next
  if !endsMark c.head? then throw .malformed
  return (.version (Number.ofDigits 10 (major.map fun d => d.toNat - 0x30)), c)

/-- The value of the directive of a handle. -/
def handleDirective (c : Cursor) : Except Error (Token × Cursor) := do
  let (name, c) ← tagHandle (c.skipWhile (· = ' '))
  if c.head? ≠ some ' ' then throw .malformed
  let (start, c) ← tagText (c.skipWhile (· = ' '))
  if !endsMark c.head? then throw .malformed
  return (.handle name start, c)

/-- A directive. -/
def directive (r : Reading) : Except Error Reading := do
  let r ← (r.close (-1)).dropKey
  let (name, c) := r.cursor.next.span isNamePart
  if name = [] ∨ !endsMark c.head? then throw .malformed
  let (t, c) ←
    if name = "YAML".toList then versionDirective c
    else if name = "TAG".toList then handleDirective c
    else pure (.reserved, c.skipWhile (!isBreak ·))
  match c.lineEnd? with
  | none => throw .malformed
  | some c => return { r with keyAllowed := false }.push t c.next

/-- The mark of a document's start or end. -/
def documentMark (t : Token) (r : Reading) : Except Error Reading := do
  let r ← (r.close (-1)).dropKey
  return { r with keyAllowed := false }.push t (r.cursor.skip 3)

/-- The start of a flow collection. -/
def flowStart (t : Token) (r : Reading) : Except Error Reading := do
  let r ← r.noteKey
  return { r with keys := none :: r.keys, keyAllowed := true }.push t r.cursor.next

/-- The end of a flow collection. -/
def flowEnd (t : Token) (r : Reading) : Except Error Reading := do
  if !r.inFlow then throw .malformed
  let r ← r.dropKey
  return { r with keys := r.keys.tail, keyAllowed := false }.push t r.cursor.next

/-- A comma between the parts of a flow collection. -/
def comma (r : Reading) : Except Error Reading := do
  let r ← r.dropKey
  return { r with keyAllowed := true }.push .comma r.cursor.next

/-- The dash of an item. -/
def item (r : Reading) : Except Error Reading := do
  if !r.inFlow ∧ !r.keyAllowed then throw .malformed
  let r ← (r.openAt r.cursor.column r.tokens.size .blockSequence).dropKey
  return { r with keyAllowed := true }.push .item r.cursor.next

/-- The mark before a key. -/
def key (r : Reading) : Except Error Reading := do
  if !r.inFlow ∧ !r.keyAllowed then throw .malformed
  let r ← (r.openAt r.cursor.column r.tokens.size .blockMapping).dropKey
  return { r with keyAllowed := !r.inFlow }.push .key r.cursor.next

/-- The colon before a value. It marks the key that has started before it, if there is one. -/
def value (r : Reading) : Except Error Reading := do
  match r.keys.head?.join with
  | some k =>
    let r := { r with
      tokens := r.tokens.insertIdxIfInBounds k.position .key
      keys := none :: r.keys.tail
      keyAllowed := false }
    let r := r.openAt k.column k.position .blockMapping
    return r.push .value r.cursor.next
  | none =>
    if !r.inFlow ∧ !r.keyAllowed then throw .malformed
    let r ← (r.openAt r.cursor.column r.tokens.size .blockMapping).dropKey
    return { r with keyAllowed := !r.inFlow }.push .value r.cursor.next

/-- A token that may start a key, given what is read at the cursor. -/
def mayStartKey {α : Type} (lexeme : Cursor → Except Error (α × Cursor)) (token : α → Token)
    (r : Reading) : Except Error Reading := do
  let r ← r.noteKey
  let (a, c) ← lexeme r.cursor
  return { r with keyAllowed := false }.push (token a) c

/-- A block scalar. -/
def blockScalar (fold : Bool) (r : Reading) : Except Error Reading := do
  let r ← r.dropKey
  let (written, c) ← block fold r.indent r.cursor
  return { r with keyAllowed := true }.push (.scalar written false) c

/-- A plain scalar; behind the end of a line a key may start. -/
def plainScalar (r : Reading) : Except Error Reading := do
  let r ← r.noteKey
  let (written, broken, c) := plain r.inFlow r.indent r.cursor
  return { r with keyAllowed := broken }.push (.scalar written true) c

/-- Whether a plain scalar may start with a character before another one. -/
def startsPlain (flow : Bool) (ch : Char) (second : Option Char) : Bool :=
  !(ch ∈ " \t-?:,[]\x7b\x7d#&*!|>'\"%@\x60".toList || isBreak ch) ||
    (!endsWord second && (ch = '-' || (!flow && (ch = '?' || ch = ':'))))

/-- Reads the token that starts with a character. -/
def token (r : Reading) (ch : Char) : Except Error Reading :=
  let c := r.cursor
  let second := c.peek? 1
  let flow := r.inFlow
  if ch = '%' ∧ c.column = 0 then r.directive
  else if ch = '-' ∧ c.column = 0 ∧ c.atDocumentMark then r.documentMark .documentStart
  else if ch = '.' ∧ c.column = 0 ∧ c.atDocumentMark then r.documentMark .documentEnd
  else if ch = '[' then r.flowStart .flowSequence
  else if ch = '\x7b' then r.flowStart .flowMapping
  else if ch = ']' then r.flowEnd .flowSequenceEnd
  else if ch = '\x7d' then r.flowEnd .flowMappingEnd
  else if ch = ',' then r.comma
  else if ch = '-' ∧ endsWord second then r.item
  else if ch = '?' ∧ (flow ∨ endsWord second) then r.key
  else if ch = ':' ∧ (flow ∨ endsWord second) then r.value
  else if ch = '*' then r.mayStartKey (fun c => anchorName c.next) .reference
  else if ch = '&' then r.mayStartKey (fun c => anchorName c.next) .anchor
  else if ch = '!' then r.mayStartKey tag .tag
  else if ch = '|' ∧ !flow then r.blockScalar false
  else if ch = '>' ∧ !flow then r.blockScalar true
  else if ch = '\'' ∨ ch = '"' then r.mayStartKey (quoted ch) (.scalar · false)
  else if startsPlain flow ch second then r.plainScalar
  else .error .malformed

/-- The tokens that are certain. One that may still start a key is not, and so are none of those behind
it. -/
def certain (r : Reading) : List Token :=
  let open_ := r.keys.filterMap fun k => k.map (·.position)
  (r.tokens.take (open_.foldl min r.tokens.size)).toList

/-- Moves on to where the next token starts. -/
def approach (r : Reading) : Except Error Reading := do
  let r ← r.dropStale
  return r.close r.cursor.column

/-- The last tokens of a text. -/
def conclude (r : Reading) : Except Error Reading := do
  let r ← (r.close (-1)).dropKey
  return { r with tokens := r.tokens.push .streamEnd }

/-- Whether the text has run out before its end. -/
def hasRunOut (isWhole : Bool) (r : Reading) : Bool := !isWhole && r.cursor.head?.isNone

/-- Reads tokens up to the end of the text or to what is wrong with it. -/
def all (isWhole : Bool) : Nat → Reading → List Token × Option Error
  | 0, r => (r.certain, some .malformed)
  | fuel + 1, r =>
    let r := r.skipGap (r.cursor.ahead.length + 1)
    if r.hasRunOut isWhole then (r.certain, some .unfinished)
    else
      match r.approach with
      | .error e => (r.certain, some e)
      | .ok r =>
        match r.cursor.head? with
        | none =>
          match r.conclude with
          | .error e => (r.certain, some e)
          | .ok r => (r.tokens.toList, none)
        | some ch =>
          match r.token ch with
          | .error e => (r.certain, some e)
          | .ok next =>
            if next.hasRunOut isWhole then (r.certain, some .unfinished) else all isWhole fuel next

end Reading

/-- The tokens of a text, which may be the start of a longer one, up to what is wrong with it; a byte
order mark before it is skipped. -/
def Token.ofText (isWhole : Bool) (text : List Char) : List Token × Option Error :=
  let start : Cursor := { ahead := text }
  let cursor := if text.head? = some '\ufeff' then start.next else start
  Reading.all isWhole (text.length + 2) { cursor }

end PocketMips.Value.Yaml
