/-!
Lines of a text: the breaks of a program held in one string, and the single break of a file once its
line ends have been made uniform.
-/
namespace PocketMips.Text

/-- The characters that end a line; a carriage return with a line feed after it is one break. -/
def isBreak (c : Char) : Bool :=
  let n := c.toNat
  (0x0A ≤ n && n ≤ 0x0D) || (0x1C ≤ n && n ≤ 0x1E) || n == 0x85 || n == 0x2028 || n == 0x2029

/-- Makes every line end a line feed. -/
def uniformBreaks : List Char → List Char
  | [] => []
  | '\r' :: '\n' :: cs => '\n' :: uniformBreaks cs
  | c :: cs => (if c = '\r' then '\n' else c) :: uniformBreaks cs

/-- Pieces ended by a character of the class; text after the last one is a piece if not empty. -/
def pieces (ends : Char → Bool) : List Char → List (List Char)
  | [] => []
  | c :: cs =>
    if ends c then [] :: pieces ends cs
    else
      match pieces ends cs with
      | [] => [[c]]
      | l :: ls => (c :: l) :: ls

/-- The lines of a program held in one text. -/
def lines (cs : List Char) : List (List Char) :=
  pieces isBreak (uniformBreaks cs)

end PocketMips.Text
