import PocketMips.Text.Half
import PocketMips.Text.Utf8
import PocketMips.Value.Yaml.Cursor
import PocketMips.Value.Yaml.Error

/-!
The lexemes of a YAML text that have a text of their own: plain, quoted and block scalars, names of
anchors, and tags. Each is read at a cursor and leaves the cursor behind it.
-/
namespace PocketMips.Value.Yaml

open Number Text

/-- The text that stands for the end of a line and the breaks of the empty lines after it: one break
before text is a blank. -/
def folded (first : Char) (breaks : List Char) : List Char :=
  if breakOf first ≠ '\n' then breakOf first :: breaks
  else if breaks = [] then [' ']
  else breaks

/-! ## Plain scalars -/

/-- The characters that part the items of flow collections. -/
def isFlowMark (c : Char) : Bool := c ∈ ",[]\x7b\x7d".toList

/-- Whether a colon ends a word before the given text. -/
def endsKey (flow : Bool) (rest : List Char) : Bool :=
  endsWord rest.head? || (flow && (rest.head?.map isFlowMark).getD false)

/-- The piece of a plain scalar at the front of a text, up to a blank or the end of the scalar. -/
def plainWord (flow : Bool) : List Char → List Char
  | [] => []
  | c :: rest =>
    if endsWord (some c) || (c = ':' && endsKey flow rest) || (flow && (isFlowMark c || c = '?')) then []
    else c :: plainWord flow rest

/-- Skips blanks and empty lines; the breaks of those, unless a document ends before one of them. -/
def blankLines : Nat → Cursor → Option (List Char) × Cursor
  | 0, c => (some [], c)
  | fuel + 1, c =>
    match c.head? with
    | none => (some [], c)
    | some ch =>
      if ch = ' ' then blankLines fuel c.next
      else if isBreak ch then
        if c.next.atDocumentMark then (none, c.next)
        else
          let (breaks, c) := blankLines fuel c.next
          (breaks.map (breakOf ch :: ·), c)
      else (some [], c)

/-- What lies between two pieces of a plain scalar, if it may go on, and whether a line ends there. -/
def plainGap (c : Cursor) : Option (List Char) × Cursor × Bool :=
  let (blanks, c) := c.span (· = ' ')
  match c.head?.filter isBreak with
  | none => (if blanks = [] then none else some blanks, c, false)
  | some ch =>
    if c.next.atDocumentMark then (none, c.next, true)
    else
      let (breaks, c) := blankLines (c.ahead.length + 1) c.next
      (breaks.map (folded ch), c, true)

/-- A plain scalar from one of its pieces on, behind the text before that piece. Whether it stops at the
start of a line is told, too. -/
def plainFrom (flow : Bool) (indent : Int) :
    Nat → List Char → Bool → Cursor → List Char × Bool × Cursor
  | 0, _, broken, c => ([], broken, c)
  | fuel + 1, before, broken, c =>
    let word := if c.head? = some '#' then [] else plainWord flow c.ahead
    if word = [] then ([], broken, c)
    else
      let (gap, c, broken) := plainGap (c.skip word.length)
      match gap with
      | none => (before ++ word, broken, c)
      | some gap =>
        if c.head? = some '#' ∨ (!flow ∧ c.column < indent) then (before ++ word, broken, c)
        else
          let (rest, broken, c) := plainFrom flow indent fuel gap broken c
          (before ++ word ++ rest, broken, c)

/-- A plain scalar. In block context its lines lie deeper than the collection around it. -/
def plain (flow : Bool) (indent : Int) (c : Cursor) : List Char × Bool × Cursor :=
  plainFrom flow (indent + 1) (c.ahead.length + 1) [] false c

/-! ## Quoted scalars -/

/-- The characters of one-letter escapes. -/
def escapes : List (Char × Char) :=
  [('0', '\x00'), ('a', '\x07'), ('b', '\x08'), ('t', '\t'), ('\t', '\t'), ('n', '\n'), ('v', '\x0b'),
    ('f', '\x0c'), ('r', '\r'), ('e', '\x1b'), (' ', ' '), ('"', '"'), ('\\', '\\'), ('/', '/'),
    ('N', '\u0085'), ('_', '\u00a0'), ('L', '\u2028'), ('P', '\u2029')]

/-- The counts of digits of numeric escapes. -/
def codeLengths : List (Char × Nat) := [('x', 2), ('u', 4), ('U', 8)]

/-- The value of a hexadecimal digit of the basic characters. -/
def hexDigit? (c : Char) : Option Nat := if c.toNat < 0x80 then digitIn? 16 c else none

/-- The number of hexadecimal digits at the front of a text. -/
def code? (length : Nat) (cs : List Char) : Option Nat := do
  let ds ← (cs.take length).mapM hexDigit?
  guard (ds.length = length)
  return ofDigits 16 ds

/-- Skips empty lines in a quoted scalar; their breaks. A document must not end there. -/
def quotedLines : Nat → Cursor → Except Error (List Char × Cursor)
  | 0, c => .ok ([], c)
  | fuel + 1, c =>
    if c.atDocumentMark then .error .malformed
    else
      let c := c.skipWhile fun ch => ch = ' ' || ch = '\t'
      match c.head?.filter isBreak with
      | none => .ok ([], c)
      | some ch => do
        let (breaks, c) ← quotedLines fuel c.next
        return (breakOf ch :: breaks, c)

/-- What an escape behind its backslash stands for. -/
def escape (c : Cursor) : Except Error (List Char × Cursor) :=
  match c.head? with
  | none => .error .unfinished
  | some ch =>
    match escapes.lookup ch, codeLengths.lookup ch with
    | some e, _ => .ok ([e], c.next)
    | none, some length =>
      match code? length c.next.ahead with
      | none => .error .malformed
      | some code =>
        if 0x110000 ≤ code then .error (.badCharacter code)
        else .ok ([charOf code], c.next.skip length)
    | none, none =>
      if isBreak ch then quotedLines (c.ahead.length + 1) c.next else .error .malformed

/-- Blanks in a quoted scalar: within a line they stay, and around the end of a line they go. -/
def quotedGap (c : Cursor) : Except Error (List Char × Cursor) :=
  let (blanks, c) := c.span fun ch => ch = ' ' || ch = '\t'
  match c.head? with
  | none => .error .unfinished
  | some ch =>
    if isBreak ch then do
      let (breaks, c) ← quotedLines (c.ahead.length + 1) c.next
      return (folded ch breaks, c)
    else .ok (blanks, c)

/-- The rest of a quoted scalar. -/
def quotedFrom (quote : Char) : Nat → Cursor → Except Error (List Char × Cursor)
  | 0, _ => .error .malformed
  | fuel + 1, c =>
    let after := fun r : Except Error (List Char × Cursor) => do
      let (piece, c) ← r
      let (rest, c) ← quotedFrom quote fuel c
      return (piece ++ rest, c)
    match c.head? with
    | none => .error .unfinished
    | some ch =>
      if ch = quote then
        if quote = '\'' ∧ c.peek? 1 = some '\'' then after (.ok (['\''], c.skip 2))
        else .ok ([], c.next)
      else if ch = '\\' ∧ quote = '"' then after (escape c.next)
      else if endsWord (some ch) then after (quotedGap c)
      else after (.ok ([ch], c.next))

/-- A quoted scalar from its opening quote on. -/
def quoted (quote : Char) (c : Cursor) : Except Error (List Char × Cursor) :=
  quotedFrom quote (c.ahead.length + 1) c.next

/-! ## Block scalars -/

/-- What becomes of the line ends after the text of a block scalar. -/
inductive Chomping
  | strip | clip | keep
  deriving DecidableEq, Repr

/-- The marks at the head of a block scalar: chomping and depth, in any order. -/
def blockHead (c : Cursor) : Except Error ((Chomping × Option Nat) × Cursor) :=
  let sign? := fun ch : Char => if ch = '+' then some Chomping.keep
    else if ch = '-' then some Chomping.strip else none
  let depth? := fun ch : Char => if ch.isDigit then some (ch.toNat - 0x30) else none
  let first := c.head?
  let second := c.peek? 1
  let head : Chomping × Option Nat × Nat :=
    match first.bind sign?, first.bind depth? with
    | some s, _ =>
      match second.bind depth? with
      | some d => (s, some d, 2)
      | none => (s, none, 1)
    | none, some d =>
      match second.bind sign? with
      | some s => (s, some d, 2)
      | none => (.clip, some d, 1)
    | none, none => (.clip, none, 0)
  let (chomping, depth, length) := head
  let c := c.skip length
  if depth = some 0 ∨ !endsMark c.head? then .error .malformed else .ok ((chomping, depth), c)

/-- Skips blanks up to a column. -/
def skipToColumn (column : Nat) : Nat → Cursor → Cursor
  | 0, c => c
  | fuel + 1, c =>
    if c.column < column ∧ c.head? = some ' ' then skipToColumn column fuel c.next else c

/-- Skips empty lines before a line of a block scalar; their breaks. -/
def blockBreaks (column : Nat) : Nat → Cursor → List Char × Cursor
  | 0, c => ([], c)
  | fuel + 1, c =>
    let c := skipToColumn column column c
    match c.head?.filter isBreak with
    | none => ([], c)
    | some ch =>
      let (breaks, c) := blockBreaks column fuel c.next
      (breakOf ch :: breaks, c)

/-- Skips blanks and empty lines; their breaks and the deepest column reached. -/
def blockIndent : Nat → Nat → Cursor → List Char × Nat × Cursor
  | 0, deepest, c => ([], deepest, c)
  | fuel + 1, deepest, c =>
    match c.head? with
    | none => ([], deepest, c)
    | some ch =>
      if ch = ' ' then blockIndent fuel (max deepest c.next.column) c.next
      else if isBreak ch then
        let (breaks, deepest, c) := blockIndent fuel deepest c.next
        (breakOf ch :: breaks, deepest, c)
      else ([], deepest, c)

/-- The lines of a block scalar at a column: their text, the break of the last line, and the breaks of
the empty lines after it. -/
def blockLines (fold : Bool) (column : Nat) :
    Nat → List Char → Cursor → List Char × List Char × List Char × Cursor
  | 0, breaks, c => ([], [], breaks, c)
  | fuel + 1, breaks, c =>
    if c.column ≠ column ∨ c.head? = none then ([], [], breaks, c)
    else
      let isBlank := fun ch : Option Char => ch = some ' ' || ch = some '\t'
      let isText := !isBlank c.head?
      let (line, c) := c.span (!isBreak ·)
      let ending := (c.head?.map breakOf).toList
      let (more, c) := blockBreaks column (c.ahead.length + 1) c.next
      if c.column = column ∧ c.head? ≠ none then
        let joint :=
          if fold ∧ ending = ['\n'] ∧ isText ∧ !isBlank c.head? then
            (if more = [] then [' '] else [])
          else ending
        let (rest, last, tail, c) := blockLines fold column fuel more c
        (breaks ++ line ++ joint ++ rest, last, tail, c)
      else (breaks ++ line, ending, more, c)

/-- A block scalar from its mark on. Folding joins lines of text by blanks. -/
def block (fold : Bool) (indent : Int) (c : Cursor) : Except Error (List Char × Cursor) := do
  let ((chomping, depth), c) ← blockHead c.next
  match c.lineEnd? with
  | none => .error .malformed
  | some c =>
    let c := if c.head? = none then c else c.next
    let fuel := c.ahead.length + 1
    let least := max (indent + 1).toNat 1
    let (breaks, column, c) := match depth with
      | some d =>
        let (breaks, c) := blockBreaks (least + d - 1) fuel c
        (breaks, least + d - 1, c)
      | none =>
        let (breaks, deepest, c) := blockIndent fuel 0 c
        (breaks, max least deepest, c)
    let (written, last, tail, c) := blockLines fold column fuel breaks c
    return (written ++ (if chomping = .strip then [] else last) ++ (if chomping = .keep then tail else []), c)

/-! ## Anchors and tags -/

/-- Letters, digits and dashes of names. -/
def isNamePart (c : Char) : Bool := c.isAlphanum || c = '-' || c = '_'

/-- The name of an anchor behind its mark. -/
def anchorName (c : Cursor) : Except Error (List Char × Cursor) :=
  let (name, c) := c.span isNamePart
  let ends := endsWord c.head? || (c.head?.map "?:,]\x7d%@\x60".toList.contains).getD false
  if name = [] ∨ !ends then .error .malformed else .ok (name, c)

/-- A tag: the handle that shortens it, unless it is written in full, and the rest of it. -/
structure Tag where
  handle : Option (List Char)
  suffix : List Char
  deriving DecidableEq, Repr

/-- The characters of tags in full, but for escapes. -/
def isTagPart (c : Char) : Bool := c.isAlphanum || c ∈ "-;/?:@&=+$,_.!~*'()[]".toList

/-- The bytes of escapes at the front of a tag. -/
def tagBytes : Nat → Cursor → Except Error (List Byte × Cursor)
  | 0, c => .ok ([], c)
  | fuel + 1, c =>
    if c.head? ≠ some '%' then .ok ([], c)
    else
      match code? 2 c.next.ahead with
      | none => .error .malformed
      | some n => do
        let (bytes, c) ← tagBytes fuel (c.skip 3)
        return (BitVec.ofNat 8 n :: bytes, c)

/-- The text of a tag, escapes being read as bytes of text. -/
def tagFrom : Nat → Cursor → Except Error (List Char × Cursor)
  | 0, c => .ok ([], c)
  | fuel + 1, c =>
    let (run, c) := c.span isTagPart
    if c.head? ≠ some '%' then .ok (run, c)
    else do
      let (bytes, c) ← tagBytes fuel c
      match ofUtf8? bytes with
      | none => .error .malformed
      | some escaped => do
        let (rest, c) ← tagFrom fuel c
        return (run ++ escaped ++ rest, c)

/-- The text of a tag, which is not empty. -/
def tagText (c : Cursor) : Except Error (List Char × Cursor) := do
  let (name, rest) ← tagFrom (c.ahead.length + 1) c
  if rest.index = c.index then .error .malformed else return (name, rest)

/-- The handle of a tag: a mark alone before a blank, or a name between two marks. -/
def tagHandle (c : Cursor) : Except Error (List Char × Cursor) :=
  if c.head? ≠ some '!' then .error .malformed
  else if c.peek? 1 = some ' ' then .ok (['!'], c.next)
  else
    let (name, rest) := c.next.span isNamePart
    if rest.head? = some '!' then .ok ('!' :: name ++ ['!'], rest.next) else .error .malformed

/-- A tag from its mark on, whatever comes behind it. -/
def tagStart (c : Cursor) : Except Error (Tag × Cursor) :=
  if c.peek? 1 = some '<' then do
    let (name, rest) ← tagText (c.skip 2)
    if rest.head? = some '>' then return (⟨none, name⟩, rest.next) else throw .malformed
  else if endsWord (c.peek? 1) then .ok (⟨none, ['!']⟩, c.next)
  else if (c.next.ahead.takeWhile fun ch => !endsMark (some ch)).contains '!' then do
    let (handle, rest) ← tagHandle c
    let (name, rest) ← tagText rest
    return (⟨some handle, name⟩, rest)
  else do
    let (name, rest) ← tagText c.next
    return (⟨some ['!'], name⟩, rest)

/-- A tag from its mark on. -/
def tag (c : Cursor) : Except Error (Tag × Cursor) := do
  let (tag, rest) ← tagStart c
  if endsMark rest.head? then return (tag, rest) else throw .malformed

end PocketMips.Value.Yaml
