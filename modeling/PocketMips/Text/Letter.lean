/-!
Case folding of keywords. Keywords are ASCII, so a text matches one only through characters whose
lower case is an ASCII letter: the ASCII capitals and the Kelvin sign.
-/
namespace PocketMips.Text

/-- Lower case as far as it yields ASCII; any other character stays itself. -/
def foldLetter (c : Char) : Char :=
  if c = '\u212a' then 'k' else c.toLower

/-- A text with its letters folded. -/
def fold (cs : List Char) : List Char := cs.map foldLetter

@[simp] theorem fold_nil : fold [] = [] := rfl

@[simp] theorem fold_cons (c : Char) (cs : List Char) :
    fold (c :: cs) = foldLetter c :: fold cs := rfl

@[simp] theorem fold_append (a b : List Char) : fold (a ++ b) = fold a ++ fold b :=
  List.map_append

end PocketMips.Text
