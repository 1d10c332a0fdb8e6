import PocketMips.Proofs.Literal
import Mathlib.Data.Nat.Digits.Defs

/-!
# The numbers of operands

A number is an optional sign before decimal digits, or before hexadecimal ones behind their mark. Such a text is
read as the number of its digits. Behind the mark of sixteen the rest of a text is read as a literal of its own,
which may have a sign, a mark, underscores and blanks as well.
-/
namespace PocketMips.Assembly

open Number Text

variable {radix : Nat} {c : Char} {cs body t : List Char} {i n : Int} {negative : Bool}

/-! ## Digits by their place -/

/-- The digits in the order of their numbers. -/
def digitOrder : List Char := "0123456789abcdef".toList

/-- The number of a digit in either case, sixteen for what is no digit. -/
def digitNumber (c : Char) : Nat := digitOrder.idxOf c.toLower

/-- One digit or more. -/
structure IsRun (radix : Nat) (cs : List Char) : Prop where
  nonempty : cs ≠ []
  small : ∀ c ∈ cs, digitNumber c < radix

/-- The number that digits stand for by their places, the last one counting ones. -/
def amount (radix : Nat) (cs : List Char) : Nat := Nat.ofDigits radix (cs.reverse.map digitNumber)

theorem ofDigits_eq_amount (radix : Nat) (cs : List Char) :
    ofDigits radix (cs.map digitNumber) = amount radix cs := by
  rw [amount, List.map_reverse, Nat.ofDigits_eq_foldr, List.foldr_reverse, ofDigits]
  simp only [Nat.cast_id, Nat.add_comm]

theorem foldLetter_of_digit (digit : digitNumber c < 16) :
    foldLetter c = (digitNumber c).digitChar := by
  have known : c.toLower ∈ digitOrder := List.idxOf_lt_length_iff.mp digit
  have plain : c ≠ '\u212a' := by
    rintro rfl
    revert known
    decide
  have order : ∀ l ∈ digitOrder, (digitOrder.idxOf l).digitChar = l := by decide
  rw [foldLetter, if_neg plain, digitNumber, order _ known]

/-- Digits in either case are folded to those that numbers are written with. -/
theorem IsRun.fold_eq (run : IsRun radix cs) (le : radix ≤ 16) :
    fold cs = (cs.map digitNumber).map Nat.digitChar := by
  rw [fold, List.map_map]
  exact List.map_congr_left fun c mem => foldLetter_of_digit (Nat.lt_of_lt_of_le (run.small c mem) le)

/-- A run of digits is the literal of the number they stand for. -/
theorem IsRun.literal_fold {r : Radix} (run : IsRun r.shown cs) (fixed : r ≠ .byMark)
    (short : r.shown = 10 → cs.length ≤ maxDigits) :
    literal r (fold cs) = .ok (amount r.shown cs : Int) := by
  rw [run.fold_eq r.shown_le, literal_digits fixed, ofDigits_eq_amount]
  · intro d mem
    obtain ⟨c, inside, rfl⟩ := List.mem_map.mp mem
    exact run.small c inside
  · simpa using run.nonempty
  · simpa using short

/-! ## Characters of ASCII -/

theorem foldLetter_eq_iff (ascii : c.toNat < 128) :
    (foldLetter c = '-' ↔ c = '-') ∧ (foldLetter c = '+' ↔ c = '+') ∧ (foldLetter c = '0' ↔ c = '0') ∧
      (foldLetter c = 'x' ↔ c ∈ ['x', 'X']) :=
  forall_ascii c ascii (by decide +kernel)

theorem isDigit_foldLetter_iff (ascii : c.toNat < 128) :
    isDigit (foldLetter c) = true ↔ digitNumber c < 10 :=
  forall_ascii c ascii (by decide +kernel)

theorem unsign_fold (ascii : ∀ c ∈ cs, c.toNat < 128) :
    unsign (fold cs) = ((unsign cs).1, fold (unsign cs).2) := by
  cases cs with
  | nil => rfl
  | cons c cs =>
    obtain ⟨minus, plus, -⟩ := foldLetter_eq_iff (ascii c List.mem_cons_self)
    by_cases isMinus : c = '-'
    · subst isMinus
      rfl
    by_cases isPlus : c = '+'
    · subst isPlus
      rfl
    rw [fold_cons, unsign_cons (mt minus.mp isMinus) (mt plus.mp isPlus), unsign_cons isMinus isPlus]
    rfl

/-! ## Numbers -/

/-- The integer of an amount behind a sign. -/
def withSign (negative : Bool) (n : Int) : Int := if negative then -n else n

/-- A number: one sign or none, and decimal digits or hexadecimal ones behind their mark. -/
inductive Numeral : List Char → Int → Prop
  | decimal {sign digits : List Char} {negative : Bool} : Sign sign negative → IsRun 10 digits →
    Numeral (sign ++ digits) (withSign negative (amount 10 digits))
  | hexadecimal {sign digits : List Char} {negative : Bool} {x : Char} : Sign sign negative →
    x ∈ ['x', 'X'] → IsRun 16 digits →
    Numeral (sign ++ '0' :: x :: digits) (withSign negative (amount 16 digits))

theorem IsRun.minus_not_mem (run : IsRun radix cs) (le : radix ≤ 16) : '-' ∉ cs := fun mem =>
  absurd (Nat.lt_of_lt_of_le (run.small _ mem) le) (by decide)

/-- A number has its sign in front of everything else. -/
theorem Numeral.minus_not_mem_tail (h : Numeral cs i) : '-' ∉ cs.tail := by
  have behind {sign body : List Char} {negative : Bool} (isSign : Sign sign negative)
      (absent : '-' ∉ body) : '-' ∉ (sign ++ body).tail := by
    cases isSign with
    | none => exact mt List.mem_of_mem_tail absent
    | plus | minus => exact absent
  cases h with
  | decimal isSign run => exact behind isSign (run.minus_not_mem (by decide))
  | hexadecimal isSign mark run =>
    refine behind isSign ?_
    simp only [List.mem_cons, List.not_mem_nil, or_false] at mark
    rcases mark with rfl | rfl <;> simpa using run.minus_not_mem (by decide)

/-- A text that is read as a number but is none: behind the mark stands a literal of its own that is not only
digits. -/
inductive Lenient : List Char → Int → Prop
  | intro {sign rest : List Char} {negative : Bool} {x : Char} {n : Int} : Sign sign negative →
    x ∈ ['x', 'X'] → ¬IsRun 16 rest → IsLiteral .sixteen (fold rest) n →
    Lenient (sign ++ '0' :: x :: rest) (withSign negative n)

/-- What stands behind the sign of an accepted text, and the amount it is read as. -/
def ReadsAs (body : List Char) (n : Int) : Prop :=
  (∃ x rest, body = '0' :: x :: rest ∧ x ∈ ['x', 'X'] ∧ IsLiteral .sixteen (fold rest) n) ∨
    (IsRun 10 body ∧ n = amount 10 body)

theorem isRun_ten_iff (ascii : ∀ c ∈ cs, c.toNat < 128) :
    IsRun 10 cs ↔ fold cs ≠ [] ∧ (fold cs).all isDigit = true := by
  have some : fold cs ≠ [] ↔ cs ≠ [] := by simp [fold]
  have digits : (fold cs).all isDigit = true ↔ ∀ c ∈ cs, digitNumber c < 10 := by
    simp only [fold, List.all_map, List.all_eq_true, Function.comp_apply]
    exact forall₂_congr fun c mem => isDigit_foldLetter_iff (ascii c mem)
  rw [some, digits]
  exact ⟨fun run => ⟨run.nonempty, run.small⟩, fun both => ⟨both.1, both.2⟩⟩

theorem isLiteral_fold_iff (run : IsRun 16 cs) : IsLiteral .sixteen (fold cs) n ↔ n = amount 16 cs := by
  have read : literal .sixteen (fold cs) = .ok (amount 16 cs : Int) :=
    run.literal_fold (r := .sixteen) (by decide) fun ten => absurd ten (by decide)
  rw [← literal_eq_ok_iff (by decide), read, Except.ok.injEq, eq_comm]

/-- The amount that the folded body of a text is read as. -/
def bodyAmount? : List Char → Option Int
  | '0' :: 'x' :: digits => (literal .sixteen digits).toOption
  | digits => if digits ≠ [] ∧ digits.all isDigit then (literal .ten digits).toOption else none

theorem number_eq_bodyAmount? (unsigned : unsign (fold (trim t)) = (negative, cs)) :
    number t = match bodyAmount? cs with
      | some n => .ok (withSign negative n)
      | none => reject (.invalidNumber t) := by
  simp only [number, unsigned]
  rfl

/-- Behind its mark a body is read as a literal. -/
theorem bodyAmount?_marked {x : Char} {rest : List Char} (ascii : x.toNat < 128) (mark : x ∈ ['x', 'X']) :
    bodyAmount? (fold ('0' :: x :: rest)) = some n ↔ ReadsAs ('0' :: x :: rest) n := by
  have letter := (foldLetter_eq_iff ascii).2.2.2.mpr mark
  have folded : bodyAmount? (fold ('0' :: x :: rest)) = (literal .sixteen (fold rest)).toOption := by
    rw [fold_cons, fold_cons, letter]
    rfl
  rw [folded, ← Option.mem_def, mem_toOption_iff, literal_eq_ok_iff (by decide)]
  constructor
  · exact fun read => .inl ⟨x, rest, rfl, mark, read⟩
  · rintro (⟨x', rest', same, -, read⟩ | ⟨run, -⟩)
    · cases same
      exact read
    · have letters : ∀ x ∈ ['x', 'X'], ¬digitNumber x < 10 := by decide
      exact absurd (run.small x (by simp)) (letters x mark)

/-- A body without the mark is read as decimal digits. -/
theorem bodyAmount?_unmarked (ascii : ∀ c ∈ body, c.toNat < 128) (short : body.length ≤ maxDigits)
    (unmarked : ¬∃ x rest, body = '0' :: x :: rest ∧ x ∈ ['x', 'X']) :
    bodyAmount? (fold body) = some n ↔ ReadsAs body n := by
  have plain : ∀ rest, fold body ≠ '0' :: 'x' :: rest := by
    intro rest same
    obtain ⟨z, tail, rfl, zero, same⟩ := List.map_eq_cons_iff.mp same
    obtain ⟨x, rest', rfl, letter, -⟩ := List.map_eq_cons_iff.mp same
    have zero := (foldLetter_eq_iff (ascii z (by simp))).2.2.1.mp zero
    have letter := (foldLetter_eq_iff (ascii x (by simp))).2.2.2.mp letter
    exact unmarked ⟨x, rest', by rw [zero], letter⟩
  have folded : bodyAmount? (fold body) =
      if fold body ≠ [] ∧ (fold body).all isDigit then (literal .ten (fold body)).toOption else none := by
    rw [bodyAmount?]
    exact plain
  have reads : ReadsAs body n ↔ IsRun 10 body ∧ n = amount 10 body :=
    or_iff_right fun ⟨x, rest, same, mark, _⟩ => unmarked ⟨x, rest, same, mark⟩
  rw [folded, reads, isRun_ten_iff ascii]
  split
  · rename_i digits
    have run := (isRun_ten_iff ascii).mpr digits
    have read : literal .ten (fold body) = .ok (amount 10 body : Int) :=
      run.literal_fold (r := .ten) (by decide) fun _ => short
    rw [and_iff_right digits, read, ← Option.mem_def, mem_toOption_iff, Except.ok.injEq, eq_comm]
  · rename_i others
    exact iff_of_false nofun fun reads => others reads.1

theorem bodyAmount?_fold_eq_some_iff (ascii : ∀ c ∈ body, c.toNat < 128) (short : body.length ≤ maxDigits) :
    bodyAmount? (fold body) = some n ↔ ReadsAs body n := by
  by_cases marked : ∃ x rest, body = '0' :: x :: rest ∧ x ∈ ['x', 'X']
  · obtain ⟨x, rest, rfl, mark⟩ := marked
    exact bodyAmount?_marked (ascii x (by simp)) mark
  · exact bodyAmount?_unmarked ascii short marked

theorem number_eq_ok_iff (unsigned : unsign (fold (trim t)) = (negative, fold body))
    (ascii : ∀ c ∈ body, c.toNat < 128) (short : body.length ≤ maxDigits) :
    number t = .ok i ↔ ∃ n, ReadsAs body n ∧ i = withSign negative n := by
  rw [number_eq_bodyAmount? unsigned]
  simp only [← bodyAmount?_fold_eq_some_iff ascii short]
  cases bodyAmount? (fold body) with
  | none => exact iff_of_false nofun fun ⟨n, read, _⟩ => nomatch read
  | some n => simp [eq_comm]

theorem number_eq_error {e : Error} (h : number t = .error e) : e = .rejected (.invalidNumber t) none := by
  rw [number_eq_bodyAmount? rfl] at h
  split at h
  · cases h
  · cases h
    rfl

/-- What is read behind a sign does not start with one. -/
theorem ReadsAs.exists_cons (h : ReadsAs body n) : ∃ c rest, body = c :: rest ∧ c ≠ '-' ∧ c ≠ '+' := by
  rcases h with ⟨x, rest, rfl, -⟩ | ⟨run, -⟩
  · exact ⟨_, _, rfl, by decide, by decide⟩
  · obtain ⟨c, rest, rfl⟩ := List.exists_cons_of_ne_nil run.nonempty
    have small := run.small c List.mem_cons_self
    refine ⟨c, rest, rfl, ?_, ?_⟩ <;> rintro rfl <;> revert small <;> decide

/-- A number in the wide sense is a sign and what is read behind it. -/
theorem numeral_or_lenient_iff : Numeral cs i ∨ Lenient cs i ↔
    ∃ sign negative body n, Sign sign negative ∧ cs = sign ++ body ∧ ReadsAs body n ∧
      i = withSign negative n := by
  constructor
  · rintro ((@⟨sign, digits, negative, isSign, run⟩ | @⟨sign, digits, negative, x, isSign, mark, run⟩) |
      @⟨sign, rest, negative, x, n, isSign, mark, -, read⟩)
    · exact ⟨sign, negative, _, _, isSign, rfl, .inr ⟨run, rfl⟩, rfl⟩
    · have read := (isLiteral_fold_iff run).mpr rfl
      exact ⟨sign, negative, _, _, isSign, rfl, .inl ⟨x, digits, rfl, mark, read⟩, rfl⟩
    · exact ⟨sign, negative, _, _, isSign, rfl, .inl ⟨x, rest, rfl, mark, read⟩, rfl⟩
  · rintro ⟨sign, negative, body, n, isSign, rfl, ⟨x, rest, rfl, mark, read⟩ | ⟨run, rfl⟩, rfl⟩
    · by_cases run : IsRun 16 rest
      · obtain rfl := (isLiteral_fold_iff run).mp read
        exact .inl (.hexadecimal isSign mark run)
      · exact .inr ⟨isSign, mark, run, read⟩
    · exact .inl (.decimal isSign run)

/-- **The grammar of numbers.** A text of ASCII characters is read as the number that it is without the blanks
around it. It is rejected if it is none, unless a literal of its own stands behind the mark of sixteen. -/
theorem number_grammar (ascii : ∀ c ∈ t, c.toNat < 128) (short : t.length ≤ 4300) :
    (∀ i, number t = .ok i ↔ Numeral (trim t) i ∨ Lenient (trim t) i) ∧
      ∀ e, number t = .error e → e = .rejected (.invalidNumber t) none := by
  refine ⟨fun i => ?_, fun e => number_eq_error⟩
  have inside := trim_isInfix t
  have ascii : ∀ c ∈ trim t, c.toNat < 128 := fun c mem => ascii c (inside.subset mem)
  have short : (trim t).length ≤ maxDigits := Nat.le_trans inside.length_le short
  rw [numeral_or_lenient_iff]
  constructor
  · intro read
    obtain ⟨sign, isSign, split⟩ := exists_sign (trim t)
    have behind : (unsign (trim t)).2 <:+ trim t := ⟨sign, split.symm⟩
    obtain ⟨n, reads, rfl⟩ := (number_eq_ok_iff (unsign_fold ascii)
      (fun c mem => ascii c (behind.subset mem)) (Nat.le_trans behind.length_le short)).mp read
    exact ⟨sign, _, _, n, isSign, split, reads, rfl⟩
  · rintro ⟨sign, negative, body, n, isSign, split, reads, rfl⟩
    obtain ⟨c, rest, rfl, minus, plus⟩ := reads.exists_cons
    have unsigned : unsign (fold (trim t)) = (negative, fold (c :: rest)) := by
      rw [unsign_fold ascii, split, unsign_append isSign minus plus]
    have behind : c :: rest <:+ trim t := ⟨sign, split.symm⟩
    exact (number_eq_ok_iff unsigned (fun c mem => ascii c (behind.subset mem))
      (Nat.le_trans behind.length_le short)).mpr ⟨n, reads, rfl⟩

/-- A negative number with capital digits, and digits that are grouped. -/
theorem number_grammar_decides :
    number " -0x1F\t".toList = .ok (-31) ∧
      number "1_0".toList = .error (.rejected (.invalidNumber "1_0".toList) none) := by
  have accepted := (number_grammar (t := " -0x1F\t".toList) (by decide) (by decide)).1 (-31)
  have refused := (number_grammar (t := "1_0".toList) (by decide) (by decide)).2
  have numeral : Numeral ['-', '0', 'x', '1', 'F'] (-31) :=
    .hexadecimal .minus (by decide) ⟨by decide, by decide⟩
  obtain ⟨e, failed⟩ : ∃ e, number "1_0".toList = .error e := ⟨_, rfl⟩
  exact ⟨accepted.mpr (.inl numeral), by rw [failed, refused e failed]⟩

/-- Behind the mark of sixteen a second sign is read, though the text is no number. -/
theorem signed_behind_mark_is_read :
    number "0x-5".toList = .ok (-5) ∧ ¬∃ i, Numeral (trim "0x-5".toList) i := by
  refine ⟨by decide, ?_⟩
  rintro ⟨i, numeral⟩
  exact absurd (numeral.minus_not_mem_tail) (by decide)

end PocketMips.Assembly
