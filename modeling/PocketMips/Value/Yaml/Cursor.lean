/-!
Places in a YAML text: what lies ahead, and how far the text before it reaches in characters, lines and
columns.
-/
namespace PocketMips.Value.Yaml

/-- The characters that end a line. -/
def isBreak (c : Char) : Bool := c = '\n' || c = '\u0085' || c = '\u2028' || c = '\u2029'

/-- The break that a character stands for in a scalar. -/
def breakOf (c : Char) : Char := if c = '\u0085' then '\n' else c

/-- Whether a word ends before a character or the end of the text. -/
def endsWord : Option Char → Bool
  | none => true
  | some c => c = ' ' || c = '\t' || isBreak c

/-- Whether a line ends before a character or the end of the text. -/
def endsLine : Option Char → Bool
  | none => true
  | some c => isBreak c

/-- Whether a mark ends before a character or the end of the text; unlike words, it does not before a
tab. -/
def endsMark : Option Char → Bool
  | none => true
  | some c => c = ' ' || isBreak c

/-- A place in a text. -/
structure Cursor where
  ahead : List Char
  index : Nat := 0
  line : Nat := 0
  column : Nat := 0

namespace Cursor

/-- The place behind the next character. A byte order mark has no width. -/
def next (c : Cursor) : Cursor :=
  match c.ahead with
  | [] => c
  | ch :: rest =>
    let index := c.index + 1
    if isBreak ch then { ahead := rest, index, line := c.line + 1, column := 0 }
    else { c with ahead := rest, index, column := if ch = '\ufeff' then c.column else c.column + 1 }

/-- The place behind a count of characters. -/
def skip : Nat → Cursor → Cursor
  | 0, c => c
  | n + 1, c => skip n c.next

/-- The character a count of places ahead. -/
def peek? (c : Cursor) (k : Nat) : Option Char := c.ahead[k]?

/-- The next character. -/
def head? (c : Cursor) : Option Char := c.ahead.head?

/-- The characters ahead of a class, and the place behind them. -/
def span (p : Char → Bool) (c : Cursor) : List Char × Cursor :=
  let run := c.ahead.takeWhile p
  (run, c.skip run.length)

/-- The place behind the characters ahead of a class. -/
def skipWhile (p : Char → Bool) (c : Cursor) : Cursor := (c.span p).2

/-- Whether the mark of the start or the end of a document lies ahead. -/
def atDocumentMark (c : Cursor) : Bool :=
  let three := c.ahead.take 3
  (three = "---".toList || three = "...".toList) && endsWord (c.peek? 3)

/-- The place at the end of the line, if nothing but blanks and a comment lies before it. -/
def lineEnd? (c : Cursor) : Option Cursor :=
  let c := c.skipWhile (· = ' ')
  let c := if c.head? = some '#' then c.skipWhile (!isBreak ·) else c
  if endsLine c.head? then some c else none

@[simp] theorem skip_zero (c : Cursor) : c.skip 0 = c := rfl

theorem ahead_next (c : Cursor) : c.next.ahead = c.ahead.tail := by
  unfold next
  split
  · simp_all
  · split <;> simp_all

theorem ahead_skip (n : Nat) (c : Cursor) : (c.skip n).ahead = c.ahead.drop n := by
  induction n generalizing c with
  | zero => rfl
  | succ n ih => rw [skip, ih, ahead_next, List.drop_tail]

/-- A span and what lies ahead of it make up the text. -/
theorem span_append (p : Char → Bool) (c : Cursor) :
    (c.span p).1 ++ (c.span p).2.ahead = c.ahead := by
  simp only [span, ahead_skip]
  conv => rhs; rw [← List.takeWhile_append_dropWhile (p := p) (l := c.ahead)]
  congr 1
  induction c.ahead with
  | nil => rfl
  | cons ch cs ih => by_cases h : p ch <;> simp [h, ih]

end Cursor

end PocketMips.Value.Yaml
