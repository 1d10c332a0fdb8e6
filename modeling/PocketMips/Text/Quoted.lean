import PocketMips.Text.Half
import PocketMips.Text.Printable

/-!
Texts quoted in messages. The quote is single unless the text holds single quotes and no double one;
the backslash, the quote and the common controls are escaped by a letter, every other character that
is not printable by its code in two, four or eight hexadecimal digits.
-/
namespace PocketMips.Text

/-- The low `width` hexadecimal digits of a number. -/
def hexCode : Nat → Nat → List Char
  | 0, _ => []
  | width + 1, n => hexCode width (n / 16) ++ [Nat.digitChar (n % 16)]

/-- The code of a character that is not printable, or of the half of a pair that it is kept for. -/
def escapeCode (c : Char) : List Char :=
  let n := codeOf c
  if n ≤ 0xFF then '\\' :: 'x' :: hexCode 2 n
  else if n ≤ 0xFFFF then '\\' :: 'u' :: hexCode 4 n
  else '\\' :: 'U' :: hexCode 8 n

/-- A character as it stands between quotes. -/
def quotedChar (quote c : Char) : List Char :=
  if c = quote ∨ c = '\\' then ['\\', c]
  else if c = '\n' then ['\\', 'n']
  else if c = '\r' then ['\\', 'r']
  else if c = '\t' then ['\\', 't']
  else if isPrintable c then [c]
  else escapeCode c

/-- The quote that a text is put in. -/
def quoteFor (cs : List Char) : Char :=
  if '\'' ∈ cs ∧ '"' ∉ cs then '"' else '\''

/-- A text in quotes. -/
def quoted (cs : List Char) : List Char :=
  let quote := quoteFor cs
  quote :: cs.flatMap (quotedChar quote) ++ [quote]

end PocketMips.Text
