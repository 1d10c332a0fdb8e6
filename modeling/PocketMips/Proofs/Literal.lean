import PocketMips.Proofs.Rejection
import Mathlib.Data.List.Induction

/-!
# The grammar of literals

A literal of a fixed radix is a run of its digits with single underscores between them. Blanks may stand around
it, and one sign, the mark of the radix and an underscore in front of it.
-/
namespace PocketMips.Number

open Text

/-! ## The grammar -/

/-- One sign or none, and whether it makes a number negative. -/
inductive Sign : List Char → Bool → Prop
  | none : Sign [] false
  | plus : Sign ['+'] false
  | minus : Sign ['-'] true

/-- The letters of the mark of a radix. -/
def Radix.letters : Radix → List Char
  | .two => ['b', 'B']
  | .eight => ['o', 'O']
  | .sixteen => ['x', 'X']
  | .byMark | .ten => []

/-- The mark of a radix or none: a zero of any script and a letter, an underscore behind them if need be. -/
inductive Mark (radix : Radix) : List Char → Prop
  | none : Mark radix []
  | plain {z c : Char} : decimalValue? z = some 0 → c ∈ radix.letters → Mark radix [z, c]
  | underscored {z c : Char} : decimalValue? z = some 0 → c ∈ radix.letters → Mark radix [z, c, '_']

/-- Digits of a radix, single underscores between them. -/
inductive Grouped (radix : Nat) : List Char → List Nat → Prop
  | last {c : Char} {d : Nat} : digitIn? radix c = some d → Grouped radix [c] [d]
  | cons {c : Char} {d : Nat} {cs : List Char} {ds : List Nat} : digitIn? radix c = some d →
    Grouped radix cs ds → Grouped radix (c :: cs) (d :: ds)
  | underscore {c : Char} {d : Nat} {cs : List Char} {ds : List Nat} : digitIn? radix c = some d →
    Grouped radix cs ds → Grouped radix (c :: '_' :: cs) (d :: ds)

/-- A text that is the literal of an integer in a fixed radix. -/
inductive IsLiteral (radix : Radix) : List Char → Int → Prop
  | intro {before sign mark body after : List Char} {negative : Bool} {ds : List Nat} :
    (∀ c ∈ before, isMargin c = true) → Sign sign negative → Mark radix mark →
    Grouped radix.shown body ds → (radix.shown = 10 → ds.length ≤ maxDigits) →
    (∀ c ∈ after, isMargin c = true) →
    IsLiteral radix (before ++ (sign ++ (mark ++ (body ++ after))))
      (if negative then -(ofDigits radix.shown ds : Int) else ofDigits radix.shown ds)

variable {radix : Nat} {c : Char} {d : Nat} {cs body after : List Char} {ds : List Nat}

/-! ## Digits -/

theorem isDigit_of_decimalValue? (valued : decimalValue? c = some d) : isDigit c = true := by
  rw [isDigit, valued]
  rfl

/-- Digits are neither blanks nor underscores nor signs. -/
theorem plain_of_digitIn? (digit : digitIn? radix c = some d) :
    isMargin c = false ∧ c ≠ '_' ∧ c ≠ '-' ∧ c ≠ '+' := by
  obtain ⟨valued, -⟩ := Option.filter_eq_some_iff.mp digit
  have letters : ∀ n ∈ List.range' 0x41 26 ++ List.range' 0x61 26,
      isMargin (Char.ofNat n) = false ∧ Char.ofNat n ∉ ['_', '-', '+'] := by
    decide
  have letter (inside : c.toNat ∈ List.range' 0x41 26 ++ List.range' 0x61 26) :
      isMargin c = false ∧ c ≠ '_' ∧ c ≠ '-' ∧ c ≠ '+' := by
    simpa using letters _ inside
  simp only [digitValue?] at valued
  split at valued
  · exact letter (by simp; omega)
  · split at valued
    · exact letter (by simp; omega)
    · have digit := isDigit_of_decimalValue? valued
      exact ⟨by simp [isMargin, isBlank_of_isDigit digit], ne_of_isDigit digit⟩

/-- A grouped run starts with a digit. -/
theorem Grouped.exists_cons (h : Grouped radix cs ds) :
    ∃ c rest d, cs = c :: rest ∧ digitIn? radix c = some d := by
  cases h with
  | last digit | cons digit | underscore digit => exact ⟨_, _, _, rfl, digit⟩

theorem digitRun?_cons (other : c ≠ '_') :
    digitRun? radix (c :: cs) = (digitIn? radix c).bind fun d => (digitRun? radix cs).map (d :: ·) := by
  rw [digitRun?]
  · cases digitIn? radix c with
    | none => rfl
    | some d => cases digitRun? radix cs <;> rfl
  · exact other

theorem digitRun?_underscore :
    digitRun? radix ('_' :: c :: cs) =
      (digitIn? radix c).bind fun d => (digitRun? radix cs).map (d :: ·) := by
  rw [digitRun?]
  cases digitIn? radix c with
  | none => rfl
  | some d => cases digitRun? radix cs <;> rfl

theorem grouped_of_digitRun? (other : c ≠ '_') (h : digitRun? radix (c :: cs) = some ds) :
    Grouped radix (c :: cs) ds := by
  induction cs using List.twoStepInduction generalizing c ds with
  | nil =>
    obtain ⟨d, digit, h⟩ := Option.bind_eq_some_iff.mp ((digitRun?_cons other).symm.trans h)
    cases h
    exact .last digit
  | singleton e =>
    obtain ⟨d, digit, h⟩ := Option.bind_eq_some_iff.mp ((digitRun?_cons other).symm.trans h)
    obtain ⟨rest, run, rfl⟩ := Option.map_eq_some_iff.mp h
    by_cases under : e = '_'
    · subst under
      simp [digitRun?] at run
    · obtain ⟨d', digit', h⟩ := Option.bind_eq_some_iff.mp ((digitRun?_cons under).symm.trans run)
      cases h
      exact .cons digit (.last digit')
  | cons_cons e f cs ih ih' =>
    obtain ⟨d, digit, h⟩ := Option.bind_eq_some_iff.mp ((digitRun?_cons other).symm.trans h)
    obtain ⟨rest, run, rfl⟩ := Option.map_eq_some_iff.mp h
    by_cases under : e = '_'
    · subst under
      rw [digitRun?_underscore] at run
      obtain ⟨d', digit', more⟩ := Option.bind_eq_some_iff.mp run
      have other' := (plain_of_digitIn? digit').2.1
      exact .underscore digit (ih other' ((digitRun?_cons other').trans run))
    · exact .cons digit (ih' f under run)

theorem Grouped.digitRun? (h : Grouped radix cs ds) : digitRun? radix cs = some ds := by
  induction h with
  | last digit =>
    rw [digitRun?_cons (plain_of_digitIn? digit).2.1, digit]
    rfl
  | cons digit _ ih =>
    rw [digitRun?_cons (plain_of_digitIn? digit).2.1, digit, ih]
    rfl
  | underscore digit grouped ih =>
    obtain ⟨e, rest, d', rfl, digit'⟩ := grouped.exists_cons
    rw [digitRun?_cons (plain_of_digitIn? digit).2.1, digit, digitRun?_underscore,
      ← digitRun?_cons (plain_of_digitIn? digit').2.1, ih]
    rfl

theorem Grouped.part (h : Grouped radix cs ds) :
    ∀ c ∈ cs, (decide (c = '_') || (digitIn? radix c).isSome) = true := by
  induction h with
  | last digit => simp [digit]
  | cons digit _ ih | underscore digit _ ih => simpa [digit] using ih

/-- A blank is no part of a run. -/
theorem not_part_of_isMargin (margin : isMargin c = true) :
    (decide (c = '_') || (digitIn? radix c).isSome) = false := by
  cases digit : digitIn? radix c with
  | none =>
    rw [Option.isSome_none, Bool.or_false, decide_eq_false_iff_not]
    rintro rfl
    revert margin
    decide
  | some d =>
    rw [(plain_of_digitIn? digit).1] at margin
    cases margin

/-- A run ends at the blanks behind it. -/
theorem Grouped.span (h : Grouped radix cs ds) (margins : ∀ c ∈ after, isMargin c = true) :
    (cs ++ after).takeWhile (fun c => decide (c = '_') || (digitIn? radix c).isSome) = cs ∧
      (cs ++ after).dropWhile (fun c => decide (c = '_') || (digitIn? radix c).isSome) = after := by
  rw [List.takeWhile_append_of_pos h.part, List.dropWhile_append_of_pos h.part]
  cases after with
  | nil => simp
  | cons c after => simp [not_part_of_isMargin (margins c List.mem_cons_self)]

/-! ## Signs and marks -/

theorem exists_sign (cs : List Char) :
    ∃ sign, Sign sign (unsign cs).1 ∧ cs = sign ++ (unsign cs).2 := by
  unfold unsign
  split
  · exact ⟨_, .minus, rfl⟩
  · exact ⟨_, .plus, rfl⟩
  · exact ⟨_, .none, rfl⟩

theorem unsign_append {sign : List Char} {negative : Bool} (h : Sign sign negative)
    (minus : c ≠ '-') (plus : c ≠ '+') : unsign (sign ++ c :: cs) = (negative, c :: cs) := by
  cases h with
  | none => exact unsign_cons minus plus cs
  | plus | minus => rfl

variable {r : Radix} {mark : List Char}

theorem markedRadix?_eq_some_iff (fixed : r ≠ .byMark) {z : Char} :
    markedRadix? (z :: c :: cs) = some r.shown ↔ decimalValue? z = some 0 ∧ c ∈ r.letters := by
  by_cases zero : decimalValue? z = some 0
  · by_cases x : c = 'x' ∨ c = 'X'
    · rcases x with rfl | rfl <;> cases r <;> simp_all [markedRadix?, Radix.shown, Radix.letters]
    by_cases o : c = 'o' ∨ c = 'O'
    · rcases o with rfl | rfl <;> cases r <;> simp_all [markedRadix?, Radix.shown, Radix.letters]
    by_cases b : c = 'b' ∨ c = 'B'
    · rcases b with rfl | rfl <;> cases r <;> simp_all [markedRadix?, Radix.shown, Radix.letters]
    cases r <;> simp_all [markedRadix?, Radix.letters]
  · simp [markedRadix?, zero]

/-- The letters of a mark are no digits of its radix. -/
theorem digitIn?_of_letter (letter : c ∈ r.letters) : digitIn? r.shown c = none := by
  cases r <;> simp only [Radix.letters, List.mem_cons, List.not_mem_nil, or_false] at letter
  all_goals rcases letter with rfl | rfl <;> decide

theorem unmark_eq (fixed : r ≠ .byMark) (cs : List Char) :
    unmark r cs = if markedRadix? cs = some r.shown then
      (r.shown, match cs.drop 2 with | '_' :: rest => rest | rest => rest) else (r.shown, cs) := by
  cases r with
  | byMark => exact absurd rfl fixed
  | _ => rfl

theorem exists_mark (fixed : r ≠ .byMark) (cs : List Char) :
    ∃ mark rest, Mark r mark ∧ unmark r cs = (r.shown, rest) ∧ cs = mark ++ rest := by
  rw [unmark_eq fixed]
  split
  · rename_i marked
    match cs, marked with
    | z :: c :: cs, marked =>
      obtain ⟨zero, letter⟩ := (markedRadix?_eq_some_iff fixed).mp marked
      rw [List.drop_succ_cons, List.drop_succ_cons, List.drop_zero]
      split
      · exact ⟨_, _, .underscored zero letter, rfl, rfl⟩
      · exact ⟨_, _, .plain zero letter, rfl, rfl⟩
  · exact ⟨[], cs, .none, rfl, rfl⟩

/-- Digits and the blanks behind them do not start with a mark. -/
theorem markedRadix?_grouped (fixed : r ≠ .byMark) (grouped : Grouped r.shown body ds)
    (margins : ∀ c ∈ after, isMargin c = true) : markedRadix? (body ++ after) ≠ some r.shown := by
  intro marked
  obtain ⟨z, c, cs, text⟩ : ∃ z c cs, body ++ after = z :: c :: cs := by
    match body ++ after, marked with
    | z :: c :: cs, _ => exact ⟨z, c, cs, rfl⟩
  rw [text] at marked
  obtain ⟨-, letter⟩ := (markedRadix?_eq_some_iff fixed).mp marked
  have inside : c ∈ body ++ after := by simp [text]
  rcases List.mem_append.mp inside with digit | blank
  · have part := grouped.part c digit
    rw [digitIn?_of_letter letter] at part
    obtain rfl : c = '_' := by simpa using part
    cases r <;> simp [Radix.letters] at letter
  · have blank := margins c blank
    cases r <;> simp only [Radix.letters, List.mem_cons, List.not_mem_nil, or_false] at letter
    all_goals
      rcases letter with rfl | rfl
      all_goals
        revert blank
        decide

theorem unmark_append (fixed : r ≠ .byMark) (h : Mark r mark) (grouped : Grouped r.shown body ds)
    (margins : ∀ c ∈ after, isMargin c = true) :
    unmark r (mark ++ (body ++ after)) = (r.shown, body ++ after) := by
  rw [unmark_eq fixed]
  cases h with
  | none => exact if_neg (markedRadix?_grouped fixed grouped margins)
  | plain zero letter =>
    obtain ⟨c, rest, d, rfl, digit⟩ := grouped.exists_cons
    have other := (plain_of_digitIn? digit).2.1
    refine (if_pos ((markedRadix?_eq_some_iff fixed).mpr ⟨zero, letter⟩)).trans ?_
    rw [List.cons_append, List.cons_append, List.drop_succ_cons, List.drop_succ_cons]
    simp [other]
  | underscored zero letter =>
    exact if_pos ((markedRadix?_eq_some_iff fixed).mpr ⟨zero, letter⟩)

/-! ## Literals -/

variable {i : Int} {text : List Char}

theorem isLiteral_of_literal (fixed : r ≠ .byMark) (h : literal r text = .ok i) : IsLiteral r text i := by
  have margins : ∀ c ∈ text.takeWhile isMargin, isMargin c = true := fun c => List.mem_takeWhile_imp
  rw [← List.takeWhile_append_dropWhile (p := isMargin) (l := text)]
  unfold literal at h
  generalize text.takeWhile isMargin = before at margins
  generalize text.dropWhile isMargin = signed at h
  obtain ⟨sign, isSign, split⟩ := exists_sign signed
  generalize unsign signed = parts at h isSign split
  obtain ⟨negative, unsigned⟩ := parts
  obtain ⟨mark, rest, isMark, unmarked, split'⟩ := exists_mark fixed unsigned
  simp only [unmarked] at h
  rw [split, split', ← List.takeWhile_append_dropWhile (l := rest)
    (p := fun c => decide (c = '_') || (digitIn? r.shown c).isSome)]
  generalize rest.takeWhile (fun c => decide (c = '_') || (digitIn? r.shown c).isSome) = run at h ⊢
  generalize rest.dropWhile (fun c => decide (c = '_') || (digitIn? r.shown c).isSome) = after at h ⊢
  cases run with
  | nil => cases h
  | cons c tail =>
    cases read : digitRun? r.shown (c :: tail) with
    | none => simp [read] at h
    | some ds =>
      simp only [read, List.head?_cons] at h
      split at h
      · cases h
      rename_i other
      split at h
      · cases h
      rename_i short
      split at h
      · cases h
      rename_i blank
      split at h
      · cases h
      cases h
      refine .intro margins isSign isMark (grouped_of_digitRun? other read)
        (fun ten => Nat.le_of_not_lt fun long => short ⟨ten, long⟩) ?_
      simpa using blank

theorem literal_of_isLiteral (fixed : r ≠ .byMark) (h : IsLiteral r text i) : literal r text = .ok i := by
  obtain @⟨before, sign, mark, body, after, negative, ds, margins, signed, marked, grouped, short, blank⟩ := h
  obtain ⟨c, rest, text, margin, minus, plus⟩ : ∃ c rest, mark ++ (body ++ after) = c :: rest ∧
      isMargin c = false ∧ c ≠ '-' ∧ c ≠ '+' := by
    obtain ⟨c, rest, d, rfl, digit⟩ := grouped.exists_cons
    cases marked with
    | none =>
      obtain ⟨margin, -, sign⟩ := plain_of_digitIn? digit
      exact ⟨_, _, rfl, margin, sign⟩
    | plain zero | underscored zero =>
      have digit := isDigit_of_decimalValue? zero
      exact ⟨_, _, rfl, by simp [isMargin, isBlank_of_isDigit digit], (ne_of_isDigit digit).2⟩
  have first : (before ++ (sign ++ (mark ++ (body ++ after)))).dropWhile isMargin =
      sign ++ (mark ++ (body ++ after)) := by
    rw [List.dropWhile_append_of_pos margins, text]
    cases signed with
    | none => exact List.dropWhile_cons_of_neg (by simp [margin])
    | plus | minus => exact List.dropWhile_cons_of_neg (by decide)
  have second : unsign (sign ++ (mark ++ (body ++ after))) = (negative, mark ++ (body ++ after)) := by
    rw [text]
    exact unsign_append signed minus plus
  have third := unmark_append fixed marked grouped blank
  obtain ⟨run, left⟩ := grouped.span blank
  obtain ⟨c, rest, d, rfl, digit⟩ := grouped.exists_cons
  have other := (plain_of_digitIn? digit).2.1
  have long : ¬(r.shown = 10 ∧ maxDigits < ds.length) := fun both =>
    absurd (short both.1) (Nat.not_le_of_lt both.2)
  have clear : after.any (!isMargin ·) = false := by
    simpa using blank
  simp only [literal, first, second, third, run, left, grouped.digitRun?, List.head?_cons]
  rw [if_neg other, if_neg long, clear]
  simp [fixed]

/-- **The grammar of literals.** A text is read as an integer in a fixed radix if it is a literal of it. -/
theorem literal_eq_ok_iff (fixed : r ≠ .byMark) : literal r text = .ok i ↔ IsLiteral r text i :=
  ⟨isLiteral_of_literal fixed, literal_of_isLiteral fixed⟩

end PocketMips.Number
