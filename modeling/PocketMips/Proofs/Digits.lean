import PocketMips.Assembly.Token
import PocketMips.Proofs.Text
import Mathlib.Data.List.TakeWhile

/-!
# Numbers read back from their digits

The digits of a number in a radix are the characters of a list of small numbers, and a literal of such
characters has the number they stand for. So the decimal and the hexadecimal text of a number are read as
that number.
-/
namespace PocketMips.Number

open Text

variable {radix : Nat} {ds : List Nat}

/-! ## Digit characters -/

theorem digitIn?_digitChar (le : radix ≤ 16) {d : Nat} (lt : d < radix) :
    digitIn? radix d.digitChar = some d := by
  have values : ∀ d : Fin 16, digitValue? (d : Nat).digitChar = some (d : Nat) := by decide
  rw [digitIn?, values ⟨d, by omega⟩, Option.filter_some, if_pos (by simpa using lt)]

theorem digitChar_plain {d : Nat} (lt : d < 16) :
    isBlank d.digitChar = false ∧ foldLetter d.digitChar = d.digitChar ∧
      d.digitChar ∉ ['_', '-', '+', 'x', 'X', ',', '#', ':', '(', ')'] := by
  have plain : ∀ d : Fin 16, isBlank (d : Nat).digitChar = false ∧
      foldLetter (d : Nat).digitChar = (d : Nat).digitChar ∧
      (d : Nat).digitChar ∉ ['_', '-', '+', 'x', 'X', ',', '#', ':', '(', ')'] := by
    decide
  exact plain ⟨d, lt⟩

theorem capital_plain {d : Nat} (lt : d < 16) :
    isBlank d.digitChar.toUpper = false ∧ foldLetter d.digitChar.toUpper = d.digitChar ∧
      d.digitChar.toUpper ∉ [',', '#', ':'] := by
  have plain : ∀ d : Fin 16, isBlank (d : Nat).digitChar.toUpper = false ∧
      foldLetter (d : Nat).digitChar.toUpper = (d : Nat).digitChar ∧
      (d : Nat).digitChar.toUpper ∉ [',', '#', ':'] := by
    decide
  exact plain ⟨d, lt⟩

theorem isDigit_digitChar {d : Nat} (lt : d < 10) : isDigit d.digitChar = true := by
  have digits : ∀ d : Fin 10, isDigit (d : Nat).digitChar = true := by decide
  exact digits ⟨d, lt⟩

/-! ## Runs of digits -/

theorem ofDigits_append (radix : Nat) (ds : List Nat) (d : Nat) :
    ofDigits radix (ds ++ [d]) = radix * ofDigits radix ds + d := by
  rw [ofDigits, List.foldl_append]
  rfl

theorem ofDigits_zeros_append (radix k : Nat) (ds : List Nat) :
    ofDigits radix (List.replicate k 0 ++ ds) = ofDigits radix ds := by
  induction k with
  | zero => rfl
  | succ k ih =>
    rw [List.replicate_succ, List.cons_append, ← ih]
    simp [ofDigits]

/-- The text of a number in a radix is made of digits that stand for the number. -/
theorem exists_digits (one_lt : 1 < radix) (n : Nat) :
    ∃ ds, Nat.toDigits radix n = ds.map Nat.digitChar ∧ (∀ d ∈ ds, d < radix) ∧ ds ≠ [] ∧
      ofDigits radix ds = n := by
  induction n using Nat.strongRecOn with
  | ind n ih =>
    by_cases lt : n < radix
    · refine ⟨[n], Nat.toDigits_of_lt_base lt, ?_, List.cons_ne_nil _ _, by simp [ofDigits]⟩
      intro d mem
      cases List.mem_singleton.mp mem
      exact lt
    · obtain ⟨ds, text, small, -, value⟩ := ih (n / radix) (Nat.div_lt_self (by omega) one_lt)
      refine ⟨ds ++ [n % radix], ?_, ?_, by simp, ?_⟩
      · rw [Nat.toDigits_of_base_le one_lt (by omega), text, List.map_append]
        rfl
      · intro d mem
        rcases List.mem_append.mp mem with mem | mem
        · exact small d mem
        · cases List.mem_singleton.mp mem
          exact Nat.mod_lt n (by omega)
      · rw [ofDigits_append, value, Nat.div_add_mod]

/-- The text of a number that zeros and capital digits fill to a width is made of such digits, too. -/
theorem exists_padded (one_lt : 1 < radix) (width n : Nat) :
    ∃ ds : List Nat, padded radix width n = ds.map (·.digitChar.toUpper) ∧ (∀ d ∈ ds, d < radix) ∧
      ds ≠ [] ∧ ofDigits radix ds = n := by
  obtain ⟨ds, text, small, some, value⟩ := exists_digits one_lt n
  refine ⟨List.replicate (width - ds.length) 0 ++ ds, ?_, ?_, by simp [some], ?_⟩
  · rw [padded, if_neg (by omega), Int.natAbs_natCast, text, zeroFill, List.map_append,
      List.map_replicate, List.length_map, List.length_map, List.map_map]
    rfl
  · intro d mem
    rcases List.mem_append.mp mem with mem | mem
    · rw [List.eq_of_mem_replicate mem]
      omega
    · exact small d mem
  · rw [ofDigits_zeros_append, value]

theorem exists_capitals (width n : Nat) :
    ∃ ds : List Nat, padded 16 width n = ds.map (·.digitChar.toUpper) ∧ (∀ d ∈ ds, d < 16) ∧ ds ≠ [] ∧
      ofDigits 16 ds = n :=
  exists_padded (by decide) width n

theorem digitRun?_map (le : radix ≤ 16) (small : ∀ d ∈ ds, d < radix) :
    digitRun? radix (ds.map Nat.digitChar) = some ds := by
  induction ds with
  | nil => rfl
  | cons d ds ih =>
    have lt := small d List.mem_cons_self
    have plain := (digitChar_plain (Nat.lt_of_lt_of_le lt le)).2.2
    rw [List.map_cons, digitRun?]
    · rw [digitIn?_digitChar le lt, ih fun d mem => small d (List.mem_cons_of_mem _ mem)]
      rfl
    · intro underscore
      simp [underscore] at plain

/-! ## Literals -/

theorem Radix.shown_le (radix : Radix) : radix.shown ≤ 16 := by
  cases radix <;> decide

/-- The letter that marks a radix is no digit of it. -/
theorem markedRadix?_ne {radix : Radix} (fixed : radix ≠ .byMark) {z : Char} {d : Nat}
    (lt : d < radix.shown) (cs : List Char) :
    markedRadix? (z :: d.digitChar :: cs) ≠ some radix.shown := by
  have letters : ∀ d : Fin 16, (d : Nat).digitChar ∉ ['x', 'X', 'o', 'O', 'B'] ∧
      ((d : Nat).digitChar = 'b' → (d : Nat) = 11) := by
    decide
  obtain ⟨letter, eleven⟩ := letters ⟨d, Nat.lt_of_lt_of_le lt radix.shown_le⟩
  simp only [List.mem_cons, List.not_mem_nil, not_or, or_false] at letter
  simp only [markedRadix?, letter, or_false, if_false]
  split
  · exact nofun
  · split
    · have value := eleven ‹_›
      cases radix with
      | byMark => exact absurd rfl fixed
      | two =>
        simp only [Radix.shown] at lt value
        omega
      | _ => decide
    · exact nofun

theorem unmark_digits {radix : Radix} (fixed : radix ≠ .byMark) (small : ∀ d ∈ ds, d < radix.shown) :
    unmark radix (ds.map Nat.digitChar) = (radix.shown, ds.map Nat.digitChar) := by
  have unmarked : markedRadix? (ds.map Nat.digitChar) ≠ some radix.shown := by
    match ds, small with
    | [], _ => exact nofun
    | [_], _ => exact nofun
    | d :: e :: ds, small => exact markedRadix?_ne fixed (small e (by simp)) _
  cases radix with
  | byMark => exact absurd rfl fixed
  | two => exact if_neg unmarked
  | eight => exact if_neg unmarked
  | ten => exact if_neg unmarked
  | sixteen => exact if_neg unmarked

theorem unsign_cons {c : Char} (minus : c ≠ '-') (plus : c ≠ '+') (cs : List Char) :
    unsign (c :: cs) = (false, c :: cs) := by
  rw [unsign]
  · intro cs' h
    exact minus (List.cons.inj h).1
  · intro cs' h
    exact plus (List.cons.inj h).1

/-- Digits of a fixed radix are the literal of the number they stand for. -/
theorem literal_digits {radix : Radix} (fixed : radix ≠ .byMark) (small : ∀ d ∈ ds, d < radix.shown)
    (some : ds ≠ []) (short : radix.shown = 10 → ds.length ≤ maxDigits) :
    literal radix (ds.map Nat.digitChar) = .ok (ofDigits radix.shown ds) := by
  have digit : ∀ c ∈ ds.map Nat.digitChar,
      (decide (c = '_') || (digitIn? radix.shown c).isSome) = true := by
    intro c mem
    obtain ⟨d, inside, rfl⟩ := List.mem_map.mp mem
    simp [digitIn?_digitChar radix.shown_le (small d inside)]
  -- The whole text is the run of digits, so nothing is left behind it.
  have run := digitRun?_map radix.shown_le small
  have body := unmark_digits fixed small
  obtain ⟨d, rest, rfl⟩ := List.exists_cons_of_ne_nil some
  have lt := Nat.lt_of_lt_of_le (small d List.mem_cons_self) radix.shown_le
  obtain ⟨blank, -, plain⟩ := digitChar_plain lt
  simp only [List.mem_cons, List.not_mem_nil, or_false, not_or] at plain
  have margin : ((d :: rest).map Nat.digitChar).dropWhile isMargin = (d :: rest).map Nat.digitChar := by
    simp [isMargin, blank]
  have unsigned : unsign ((d :: rest).map Nat.digitChar) = (false, (d :: rest).map Nat.digitChar) :=
    unsign_cons plain.2.1 plain.2.2.1 _
  rw [literal, margin, unsigned]
  simp only [body, List.takeWhile_eq_self_iff.mpr digit, List.dropWhile_eq_nil_iff.mpr digit, run]
  simpa [plain, fixed] using short

end PocketMips.Number

namespace PocketMips.Assembly

open Number Text

variable {ds : List Nat}

/-! ## Number tokens -/

theorem fold_digits (small : ∀ d ∈ ds, d < 16) :
    fold (ds.map Nat.digitChar) = ds.map Nat.digitChar := by
  rw [fold, List.map_map]
  apply List.map_congr_left
  intro d mem
  exact (digitChar_plain (small d mem)).2.1

/-- A token that is a sign and decimal digits is read as the number they stand for. -/
theorem number_of_unsign {token : List Char} {negative : Bool}
    (unsigned : unsign (fold (trim token)) = (negative, ds.map Nat.digitChar))
    (small : ∀ d ∈ ds, d < 10) (some : ds ≠ []) (short : ds.length ≤ maxDigits) :
    number token = .ok (if negative then -(ofDigits 10 ds : Int) else ofDigits 10 ds) := by
  have digits : ds.map Nat.digitChar ≠ [] ∧ (ds.map Nat.digitChar).all isDigit = true := by
    refine ⟨by simpa using some, List.all_eq_true.mpr ?_⟩
    intro c mem
    obtain ⟨d, inside, rfl⟩ := List.mem_map.mp mem
    exact isDigit_digitChar (small d inside)
  have value : literal .ten (ds.map Nat.digitChar) = .ok (ofDigits 10 ds : Int) :=
    literal_digits (by decide) small some fun _ => short
  have unmarked : ∀ rest, ds.map Nat.digitChar ≠ '0' :: 'x' :: rest := by
    intro rest marked
    have mem : 'x' ∈ ds.map Nat.digitChar := by simp [marked]
    obtain ⟨d, inside, letter⟩ := List.mem_map.mp mem
    have plain := (digitChar_plain (Nat.lt_trans (small d inside) (by decide))).2.2
    simp [letter] at plain
  simp only [number, unsigned]
  simp [*, Except.toOption]

theorem tens_le {j k : Nat} (le : j ≤ k) : tens j ≤ tens k :=
  Nat.pow_le_pow_right (by decide) le

theorem length_toDigits_le {n k : Nat} (pos : 0 < k) (lt : n < tens k) :
    (Nat.toDigits 10 n).length ≤ k :=
  (Nat.length_toDigits_le_iff (by decide) pos).mpr lt

/-- The decimal text of an integer: its sign and the digits of its amount. -/
theorem exists_decimal (i : Int) :
    ∃ ds, decimal i = (if i < 0 then '-' :: ds.map Nat.digitChar else ds.map Nat.digitChar) ∧
      (∀ d ∈ ds, d < 10) ∧ ds ≠ [] ∧ ofDigits 10 ds = i.natAbs ∧
      (i.natAbs < tens maxDigits → ds.length ≤ maxDigits) := by
  obtain ⟨ds, text, small, some, value⟩ := exists_digits (by decide : 1 < 10) i.natAbs
  refine ⟨ds, by rw [decimal, text], small, some, value, ?_⟩
  intro lt
  have length := length_toDigits_le (by decide) lt
  rwa [text, List.length_map] at length

theorem decimal_plain {i : Int} {c : Char} (mem : c ∈ decimal i) :
    isBlank c = false ∧ c ∉ [',', '#', ':', '(', ')'] := by
  obtain ⟨ds, text, small, -⟩ := exists_decimal i
  have digits : ∀ c ∈ ds.map Nat.digitChar, isBlank c = false ∧ c ∉ [',', '#', ':', '(', ')'] := by
    intro c mem
    obtain ⟨d, inside, rfl⟩ := List.mem_map.mp mem
    obtain ⟨blank, -, plain⟩ := digitChar_plain (Nat.lt_trans (small d inside) (by decide))
    simp only [List.mem_cons, not_or] at plain
    simp [blank, plain]
  rw [text] at mem
  split at mem
  · rcases List.mem_cons.mp mem with rfl | mem
    · decide
    · exact digits c mem
  · exact digits c mem

theorem decimal_ne_nil (i : Int) : decimal i ≠ [] := by
  obtain ⟨ds, text, -, some, -⟩ := exists_decimal i
  rw [text]
  split
  · exact List.cons_ne_nil _ _
  · simpa using some

theorem isLabel_decimal (i : Int) : isLabel (decimal i) = false := by
  obtain ⟨ds, text, small, some, -⟩ := exists_decimal i
  obtain ⟨d, rest, rfl⟩ := List.exists_cons_of_ne_nil some
  have starts : ∀ d : Fin 10, isLabelStart (d : Nat).digitChar = false := by decide
  have start := starts ⟨d, small d List.mem_cons_self⟩
  rw [text]
  split
  · rfl
  · simp [isLabel, start]

/-- The decimal text of an integer is read as the integer. -/
theorem number_decimal {i : Int} (lt : i.natAbs < tens maxDigits) : number (decimal i) = .ok i := by
  have trimmed := trim_eq_self_of_forall fun c (mem : c ∈ decimal i) => (decimal_plain mem).1
  obtain ⟨ds, text, small, some, value, short⟩ := exists_decimal i
  have small' : ∀ d ∈ ds, d < 16 := fun d mem => Nat.lt_trans (small d mem) (by decide)
  have unsigned : unsign (fold (trim (decimal i))) = (decide (i < 0), ds.map Nat.digitChar) := by
    rw [trimmed, text]
    by_cases neg : i < 0
    · rw [if_pos neg, fold_cons, fold_digits small', decide_eq_true neg]
      rfl
    · obtain ⟨d, rest, rfl⟩ := List.exists_cons_of_ne_nil some
      have plain := (digitChar_plain (small' d List.mem_cons_self)).2.2
      simp only [List.mem_cons, not_or] at plain
      rw [if_neg neg, fold_digits small', decide_eq_false neg]
      exact unsign_cons plain.2.1 plain.2.2.1 _
  rw [number_of_unsign unsigned small some (short lt), value]
  by_cases neg : i < 0
  · simp only [neg, decide_true, if_true]
    congr 1
    omega
  · simp only [neg, decide_false, Bool.false_eq_true, if_false]
    congr 1
    omega

theorem hex_plain {width n : Nat} {c : Char} (mem : c ∈ hex width n) :
    isBlank c = false ∧ c ∉ [',', '#', ':'] := by
  obtain ⟨ds, text, small, -, -⟩ := exists_capitals width n
  rw [hex, text, List.mem_cons, List.mem_cons, List.mem_map] at mem
  rcases mem with rfl | rfl | ⟨d, inside, rfl⟩
  · decide
  · decide
  · obtain ⟨blank, -, plain⟩ := capital_plain (small d inside)
    exact ⟨blank, plain⟩

/-- The hexadecimal text of a natural number is read as the number. -/
theorem number_hex (width n : Nat) : number (hex width n) = .ok (n : Int) := by
  have trimmed := trim_eq_self_of_forall fun c (mem : c ∈ hex width n) => (hex_plain mem).1
  obtain ⟨ds, text, small, some, value⟩ := exists_capitals width n
  have folded : fold (hex width n) = '0' :: 'x' :: ds.map Nat.digitChar := by
    rw [hex, text, fold_cons, fold_cons, fold, List.map_map]
    congr 2
    apply List.map_congr_left
    intro d mem
    exact (capital_plain (small d mem)).2.1
  have digits : literal .sixteen (ds.map Nat.digitChar) = .ok (n : Int) := by
    rw [literal_digits (by decide) small some fun ten => absurd ten (by decide)]
    exact congrArg (fun n : Nat => Except.ok (n : Int)) value
  rw [number, trimmed, folded]
  simp [unsign, digits, Except.toOption]

end PocketMips.Assembly
