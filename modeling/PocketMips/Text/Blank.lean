/-!
White space in source texts, and cutting a text at it.
-/
namespace PocketMips.Text

/-- The white space of Unicode, with the four information separators U+001C to U+001F. -/
def isBlank (c : Char) : Bool :=
  let n := c.toNat
  (0x09 ≤ n && n ≤ 0x0D) || (0x1C ≤ n && n ≤ 0x20) || n == 0x85 || n == 0xA0 || n == 0x1680 ||
    (0x2000 ≤ n && n ≤ 0x200A) || n == 0x2028 || n == 0x2029 || n == 0x202F || n == 0x205F ||
    n == 0x3000

/-- The text without the characters of the class at its end. -/
def dropEnd (p : Char → Bool) (cs : List Char) : List Char :=
  (cs.reverse.dropWhile p).reverse

/-- The text without the blanks around it. -/
def trim (cs : List Char) : List Char :=
  dropEnd isBlank (cs.dropWhile isBlank)

/-- The non-empty pieces between separators. -/
def fields (sep : Char → Bool) (cs : List Char) : List (List Char) :=
  (cs.splitOnP sep).filter (· ≠ [])

/-- The part before the first occurrence of a character, and the part after it if it occurs. -/
def cut (mark : Char) : List Char → List Char × Option (List Char)
  | [] => ([], none)
  | c :: cs =>
    if c = mark then ([], some cs)
    else
      let (before, after) := cut mark cs
      (c :: before, after)

@[simp] theorem trim_nil : trim [] = [] := rfl

theorem cut_append (mark : Char) (cs : List Char) :
    (cut mark cs).1 ++ (match (cut mark cs).2 with | none => [] | some r => mark :: r) = cs := by
  induction cs with
  | nil => rfl
  | cons c cs ih =>
    by_cases h : c = mark
    · simp [cut, h]
    · simp only [cut, h, ↓reduceIte, List.cons_append, ih]

theorem not_mem_cut (mark : Char) (cs : List Char) : mark ∉ (cut mark cs).1 := by
  induction cs with
  | nil => simp [cut]
  | cons c cs ih =>
    by_cases h : c = mark
    · simp [cut, h]
    · simp only [cut, h, ↓reduceIte, List.mem_cons, ih, or_false]
      exact fun e => h e.symm

end PocketMips.Text
