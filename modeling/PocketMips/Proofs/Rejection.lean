import PocketMips.Proofs.Digits
import PocketMips.Proofs.Passes

/-!
# Rejected sources

An assembly that gives no words rejects a line, told by its number and its text. The one exception is a register
operand made of digits that are no number: its line is not told.
-/
namespace PocketMips

/-! ## Digits of every script -/

namespace Text

variable {c : Char}

/-- The ranges that the digits lie in. -/
def digitRanges : List (Nat × Nat) := decimalZeros.map (fun z => (z, z + 9)) ++ otherDigits

theorem exists_range_of_isDigit (digit : isDigit c = true) :
    ∃ r ∈ digitRanges, r.1 ≤ c.toNat ∧ c.toNat ≤ r.2 := by
  rw [isDigit, Bool.or_eq_true] at digit
  rcases digit with valued | other
  · rw [decimalValue?, Option.isSome_map, List.find?_isSome] at valued
    obtain ⟨z, mem, inside⟩ := valued
    refine ⟨(z, z + 9), List.mem_append_left _ (List.mem_map.mpr ⟨z, mem, rfl⟩), ?_⟩
    simp only [Bool.and_eq_true, decide_eq_true_eq] at inside
    omega
  · obtain ⟨r, mem, inside⟩ := List.any_eq_true.mp other
    exact ⟨r, List.mem_append_right _ mem, by simpa using inside⟩

/-- A range that meets no range of digits holds no digit. -/
theorem outside_of_isDigit (digit : isDigit c = true) {f : Nat × Nat}
    (apart : ∀ r ∈ digitRanges, r.2 < f.1 ∨ f.2 < r.1) : c.toNat < f.1 ∨ f.2 < c.toNat := by
  obtain ⟨r, mem, inside⟩ := exists_range_of_isDigit digit
  have := apart r mem
  omega

theorem isBlank_of_isDigit (digit : isDigit c = true) : isBlank c = false := by
  have apart : ∀ f ∈ [(0x09, 0x0D), (0x1C, 0x20), (0x85, 0x85), (0xA0, 0xA0), (0x1680, 0x1680),
      (0x2000, 0x200A), (0x2028, 0x2028), (0x2029, 0x2029), (0x202F, 0x202F), (0x205F, 0x205F),
      (0x3000, 0x3000)], ∀ r ∈ digitRanges, r.2 < f.1 ∨ f.2 < r.1 := by decide +kernel
  have outside := fun f mem => outside_of_isDigit digit (apart f mem)
  simp only [List.forall_mem_cons] at outside
  simp only [isBlank, Bool.or_eq_false_iff, Bool.and_eq_false_iff, decide_eq_false_iff_not,
    beq_eq_false_iff_ne]
  omega

theorem ne_of_isDigit (digit : isDigit c = true) : c ≠ '_' ∧ c ≠ '-' ∧ c ≠ '+' := by
  refine ⟨?_, ?_, ?_⟩ <;> rintro rfl <;> revert digit <;> decide

end Text

namespace Number

open Text

variable {c : Char} {cs : List Char}

theorem decimalValue?_lt {d : Nat} (valued : decimalValue? c = some d) : d < 10 := by
  obtain ⟨z, found, rfl⟩ := Option.map_eq_some_iff.mp valued
  have inside := List.find?_some found
  simp only [Bool.and_eq_true, decide_eq_true_eq] at inside
  omega

theorem digitIn?_of_isDigit (digit : isDigit c = true) : digitIn? 10 c = decimalValue? c := by
  have apart : ∀ f ∈ [(0x41, 0x5A), (0x61, 0x7A)],
      ∀ r ∈ digitRanges, r.2 < f.1 ∨ f.2 < r.1 := by decide +kernel
  have outside := fun f mem => outside_of_isDigit digit (apart f mem)
  simp only [List.forall_mem_cons] at outside
  rw [digitIn?, digitValue?]
  rw [if_neg (by omega), if_neg (by omega)]
  cases valued : decimalValue? c with
  | none => rfl
  | some d => simp [decimalValue?_lt valued]

theorem digitRun?_of_decimals (digits : ∀ c ∈ cs, isDigit c = true)
    (valued : ∀ c ∈ cs, decimalValue? c ≠ none) :
    ∃ ds, digitRun? 10 cs = some ds ∧ ds.length = cs.length := by
  induction cs with
  | nil => exact ⟨[], rfl, rfl⟩
  | cons c cs ih =>
    rw [List.forall_mem_cons] at digits valued
    obtain ⟨ds, run, length⟩ := ih digits.2 valued.2
    obtain ⟨d, value⟩ := Option.ne_none_iff_exists'.mp valued.1
    rw [← digitIn?_of_isDigit digits.1] at value
    refine ⟨d :: ds, ?_, by rw [List.length_cons, List.length_cons, length]⟩
    rw [digitRun?]
    · rw [value, run]
      rfl
    · exact (ne_of_isDigit digits.1).1

theorem unmark_ten (cs : List Char) : unmark .ten cs = (10, cs) := by
  have unmarked : markedRadix? cs ≠ some 10 := by
    unfold markedRadix?
    split
    · repeat' split
      all_goals decide
    · decide
  exact if_neg unmarked

/-- Digits are a decimal literal unless one of them has no value or there are too many of them. -/
theorem literal_of_digits (digits : ∀ c ∈ cs, isDigit c = true) (some : cs ≠ []) :
    (∃ e, literal .ten cs = .error e) ↔ (∃ c ∈ cs, decimalValue? c = none) ∨ maxDigits < cs.length := by
  have margin (c : Char) (mem : c ∈ cs) : isMargin c = false := by
    simp [isMargin, isBlank_of_isDigit (digits c mem)]
  have part (c : Char) (mem : c ∈ cs) :
      (decide (c = '_') || (digitIn? 10 c).isSome) = (decimalValue? c).isSome := by
    simp [digitIn?_of_isDigit (digits c mem), ne_of_isDigit (digits c mem)]
  have whole : unsign (cs.dropWhile isMargin) = (false, cs) := by
    obtain ⟨c, rest, rfl⟩ := List.exists_cons_of_ne_nil some
    obtain ⟨-, minus, plus⟩ := ne_of_isDigit (digits c List.mem_cons_self)
    rw [List.dropWhile_cons_of_neg (by simp [margin])]
    exact unsign_cons minus plus rest
  simp only [literal, whole, unmark_ten]
  by_cases valued : ∀ c ∈ cs, decimalValue? c ≠ none
  · -- The whole text is the run of digits.
    have all : ∀ c ∈ cs, (decide (c = '_') || (digitIn? 10 c).isSome) = true := fun c mem => by
      rw [part c mem, Option.isSome_iff_ne_none]
      exact valued c mem
    obtain ⟨ds, run, length⟩ := digitRun?_of_decimals digits valued
    obtain ⟨c, rest, rfl⟩ := List.exists_cons_of_ne_nil some
    have plain := (ne_of_isDigit (digits c List.mem_cons_self)).1
    have known : ¬∃ c' ∈ c :: rest, decimalValue? c' = none := by
      rintro ⟨c', mem, unknown⟩
      exact valued c' mem unknown
    rw [or_iff_right known, ← length]
    simp only [List.takeWhile_eq_self_iff.mpr all, List.dropWhile_eq_nil_iff.mpr all, run]
    by_cases long : maxDigits < ds.length <;> simp [plain, long]
  · -- Something is left behind the run of digits, so the text is malformed if the run is not too long.
    obtain ⟨c, mem, unknown⟩ : ∃ c ∈ cs, decimalValue? c = none := by
      simpa only [not_forall, not_not, exists_prop, ne_eq] using valued
    refine iff_of_true ?_ (.inl ⟨c, mem, unknown⟩)
    have left : cs.dropWhile (fun c => decide (c = '_') || (digitIn? 10 c).isSome) ≠ [] := by
      intro empty
      have all := List.dropWhile_eq_nil_iff.mp empty c mem
      rw [part c mem, unknown] at all
      cases all
    have left : (cs.dropWhile fun c => decide (c = '_') || (digitIn? 10 c).isSome).any (!isMargin ·) =
        true := by
      obtain ⟨c', mem'⟩ := List.exists_mem_of_ne_nil _ left
      have inside := (List.dropWhile_suffix _).subset mem'
      exact List.any_eq_true.mpr ⟨c', mem', by rw [margin c' inside]; rfl⟩
    rw [left]
    split
    · split
      · exact ⟨_, rfl⟩
      · split <;> exact ⟨_, rfl⟩
    · exact ⟨_, rfl⟩

end Number

namespace Assembly

open Number Text

variable {labels labels' : Labels} {address a : Int} {index : Nat} {line text token : List Char}
  {lines operands : List (List Char)} {op : Operation} {e : Error} {le : LiteralError}

/-! ## Operands -/

/-- The token names a register by digits that are no number: one of them has no value, or there are too
many of them. -/
def Unreadable (token : List Char) : Prop :=
  fold (unmarked (trim token)) ≠ [] ∧ (∀ c ∈ fold (unmarked (trim token)), isDigit c = true) ∧
    ((∃ c ∈ fold (unmarked (trim token)), decimalValue? c = none) ∨
      maxDigits < (fold (unmarked (trim token))).length)

theorem register_eq_literal_iff : (∃ le, register token = .error (.literal le)) ↔ Unreadable token := by
  unfold register Unreadable
  generalize fold (unmarked (trim token)) = name
  dsimp only
  split
  · rename_i digits
    have each := List.all_eq_true.mp digits.2
    have read := literal_of_digits each digits.1
    constructor
    · rintro ⟨le, h⟩
      split at h
      · split at h <;> cases h
      · rename_i le' failed
        exact ⟨digits.1, each, read.mp ⟨le', failed⟩⟩
    · rintro ⟨-, -, bad⟩
      obtain ⟨le, failed⟩ := read.mpr bad
      exact ⟨le, by rw [failed]⟩
  · rename_i others
    constructor
    · rintro ⟨le, h⟩
      split at h <;> cases h
    · rintro ⟨some, each, -⟩
      exact absurd ⟨some, List.all_eq_true.mpr each⟩ others

theorem number_ne_literal : number token ≠ .error (.literal le) := by
  unfold number
  split
  dsimp only
  split <;> exact nofun

theorem target_ne_literal {ofAddress : Int → Int} :
    target labels token ofAddress ≠ .error (.literal le) := by
  unfold target
  split
  · exact nofun
  · split
    · exact nofun
    · exact number_ne_literal

/-- The operands of an operation that name registers. -/
def registerOperands (op : Operation) (operands : List (List Char)) : List (List Char) :=
  match op, operands with
  | .r _, [a] => [a]
  | .r op, [a, b, c] => if op.isShift then [a, b] else [a, b, c]
  | .i _, [a, b] => a :: ((addressParts? b).map (·.2)).toList
  | .i _, [a, b, _] => [a, b]
  | _, _ => []

theorem encodeR_eq_literal {op : ROp} (h : encodeR op operands = .error (.literal le)) :
    ∃ token ∈ registerOperands (.r op) operands, register token = .error (.literal le) := by
  unfold encodeR at h
  split at h
  · rename_i a
    rcases bind_eq_error.mp h with bad | ⟨_, -, h⟩
    · exact ⟨a, by simp [registerOperands], bad⟩
    · cases h
  · rename_i a b c
    rcases bind_eq_error.mp h with bad | ⟨_, -, h⟩
    · exact ⟨a, by rw [registerOperands]; split <;> simp, bad⟩
    split at h
    · rcases bind_eq_error.mp h with bad | ⟨_, -, h⟩
      · exact ⟨b, by rw [registerOperands]; split <;> simp, bad⟩
      rcases bind_eq_error.mp h with bad | ⟨_, -, h⟩
      · exact absurd bad number_ne_literal
      · cases h
    · rename_i unshifted
      rcases bind_eq_error.mp h with bad | ⟨_, -, h⟩
      · exact ⟨b, by rw [registerOperands]; split <;> simp, bad⟩
      rcases bind_eq_error.mp h with bad | ⟨_, -, h⟩
      · exact ⟨c, by rw [registerOperands, if_neg unshifted]; simp, bad⟩
      · cases h
  · cases h

theorem encodeI_eq_literal {op : IOp}
    (h : encodeI labels address op operands = .error (.literal le)) :
    ∃ token ∈ registerOperands (.i op) operands, register token = .error (.literal le) := by
  unfold encodeI at h
  split at h
  · rename_i a b
    split at h
    · rcases bind_eq_error.mp h with bad | ⟨_, -, h⟩
      · exact ⟨a, by simp [registerOperands], bad⟩
      split at h
      · cases h
      · rename_i offset base parts
        dsimp only at h
        split at h
        all_goals
          rcases bind_eq_error.mp h with bad | ⟨_, -, h⟩
          · first
            | cases bad
            | exact absurd bad number_ne_literal
          rcases bind_eq_error.mp h with bad | ⟨_, -, h⟩
          · exact ⟨base, by simp [registerOperands, parts], bad⟩
          · cases h
    · cases h
  · rename_i a b c
    split at h
    all_goals
      rcases bind_eq_error.mp h with bad | ⟨_, -, h⟩
      · exact ⟨a, by simp [registerOperands], bad⟩
      rcases bind_eq_error.mp h with bad | ⟨_, -, h⟩
      · exact ⟨b, by simp [registerOperands], bad⟩
      rcases bind_eq_error.mp h with bad | ⟨_, -, h⟩
      · first
        | exact absurd bad target_ne_literal
        | exact absurd bad number_ne_literal
      · cases h
  · cases h

theorem encodeJ_ne_literal {op : JOp} : encodeJ labels op operands ≠ .error (.literal le) := by
  intro h
  unfold encodeJ at h
  split at h
  · rcases bind_eq_error.mp h with bad | ⟨_, -, h⟩
    · exact target_ne_literal bad
    · cases h
  · cases h

/-- A register operand of the instruction text is unreadable. -/
def Misread (text : List Char) : Prop :=
  ∃ op operands token, instruction? text = some (op, operands) ∧ token ∈ registerOperands op operands ∧
    Unreadable token

theorem misread_of_encode (h : encode labels address text = .error (.literal le)) : Misread text := by
  rw [encode_eq] at h
  split at h
  · cases h
  · rename_i op operands instr
    split at h
    · cases h
    · obtain ⟨token, mem, bad⟩ :
          ∃ token ∈ registerOperands op operands, register token = .error (.literal le) := by
        cases op with
        | r op => exact encodeR_eq_literal h
        | i op => exact encodeI_eq_literal h
        | j op => exact absurd h encodeJ_ne_literal
      exact ⟨op, operands, token, instr, mem, register_eq_literal_iff.mp ⟨le, bad⟩⟩

/-! ## Lines -/

/-- The error rejects one of the lines from an index on, told by its number and its text. -/
def Error.Rejects (index : Nat) (lines : List (List Char)) (e : Error) : Prop :=
  ∃ cause i line, lines[i]? = some line ∧ e = .rejected cause (some (placeOf (index + i) line))

theorem Error.Rejects.head (cause : Cause) :
    (Error.rejected cause (some (placeOf index line))).Rejects index (line :: lines) :=
  ⟨cause, 0, line, rfl, rfl⟩

theorem Error.Rejects.cons (h : e.Rejects (index + 1) lines) : e.Rejects index (line :: lines) := by
  obtain ⟨cause, i, line', found, rfl⟩ := h
  refine ⟨cause, i + 1, line', found, ?_⟩
  rw [Nat.add_right_comm, Nat.add_assoc]

theorem locate_rejects (unread : ∀ le, e ≠ .literal le) :
    (e.locate (placeOf index line)).Rejects index (line :: lines) := by
  cases e with
  | rejected cause place => exact .head cause
  | literal le => exact absurd rfl (unread le)

theorem splitLabel_ne_literal (le : LiteralError) : splitLabel line ≠ .error (.literal le) := by
  unfold splitLabel
  split
  · exact nofun
  · dsimp only
    split <;> exact nofun

/-- A failing first pass rejects a line. -/
theorem rejects_of_bindFrom (h : bindFrom labels index a lines = (labels', .error e)) :
    e.Rejects index lines := by
  induction lines generalizing labels index a with
  | nil => cases h
  | cons line lines ih =>
    cases split : splitLabel (clean line) with
    | error e' =>
      rw [bindFrom_of_error split] at h
      cases h
      refine locate_rejects fun le same => ?_
      rw [same] at split
      exact splitLabel_ne_literal le split
    | ok parts =>
      have formed : WellFormed line := ⟨parts, split⟩
      cases label : label? line with
      | none =>
        rw [bindFrom_of_unlabelled formed label] at h
        exact (ih h).cons
      | some name =>
        rw [bindFrom_of_labelled formed label] at h
        split at h
        · cases h
          exact .head _
        · exact (ih h).cons

/-- A failing second pass rejects a line, or a register operand of a line is unreadable. -/
theorem rejects_of_encodeFrom (h : encodeFrom labels index a lines = .error e) :
    e.Rejects index lines ∨ (∃ le, e = .literal le) ∧ ∃ line ∈ lines, Misread (body line) := by
  induction lines generalizing index a with
  | nil => cases h
  | cons line lines ih =>
    cases split : splitLabel (clean line) with
    | error e' =>
      rw [encodeFrom_of_error split] at h
      cases h
      refine .inl (locate_rejects fun le same => ?_)
      rw [same] at split
      exact splitLabel_ne_literal le split
    | ok parts =>
      have formed : WellFormed line := ⟨parts, split⟩
      have later {index : Nat} {a : Int} (h : encodeFrom labels (index + 1) a lines = .error e) :
          e.Rejects index (line :: lines) ∨
            (∃ le, e = .literal le) ∧ ∃ line' ∈ line :: lines, Misread (body line') := by
        rcases ih h with rejects | ⟨literal, line', mem, misread⟩
        · exact .inl rejects.cons
        · exact .inr ⟨literal, line', List.mem_cons_of_mem _ mem, misread⟩
      by_cases empty : body line = []
      · rw [encodeFrom_of_empty formed empty] at h
        exact later h
      · rw [encodeFrom_of_text formed empty] at h
        rcases bind_eq_error.mp h with bad | ⟨w, -, rest⟩
        · obtain ⟨e', made, rfl⟩ := mapError_eq_error.mp bad
          cases e' with
          | rejected cause place => exact .inl (.head cause)
          | literal le => exact .inr ⟨⟨le, rfl⟩, line, List.mem_cons_self, misread_of_encode made⟩
        · exact later (map_eq_error.mp rest)

/-- **An assembly gives words or rejects a line**, unless a register operand is unreadable. There is one
word for each instruction text, and a rejected line is told by its number, counted from one, and its text
without the blanks around it. -/
theorem assemble_outcome (base : Int) (source : Source) :
    (∃ ws, (assemble base source).2 = .ok ws ∧ ws.length = (texts source.toLines).length) ∨
      (∃ cause i line, source.toLines[i]? = some line ∧
        (assemble base source).2 = .error (.rejected cause (some ⟨i + 1, trim line⟩))) ∨
      ∃ le, (assemble base source).2 = .error (.literal le) ∧
        ∃ line ∈ source.toLines, Misread (body line) := by
  have rejects {e : Error} (h : e.Rejects 0 source.toLines) :
      ∃ cause i line, source.toLines[i]? = some line ∧
        Except.error (α := List Word) e = .error (.rejected cause (some ⟨i + 1, trim line⟩)) := by
    obtain ⟨cause, i, line, found, rfl⟩ := h
    exact ⟨cause, i, line, found, by rw [Nat.zero_add]; rfl⟩
  cases made : assemble base source with
  | mk labels result =>
    cases result with
    | ok ws =>
      obtain ⟨-, -, -, encodes⟩ := assembleLines_eq_ok_iff.mp made
      exact .inl ⟨ws, rfl, encodes.length_eq⟩
    | error e =>
      refine .inr ?_
      unfold assemble assembleLines at made
      split at made
      · rename_i bound
        cases made
        exact .inl (rejects (rejects_of_bindFrom bound))
      · obtain ⟨-, failed⟩ := Prod.mk.inj made
        rcases rejects_of_encodeFrom failed with rejected | ⟨⟨le, rfl⟩, misread⟩
        · exact .inl (rejects rejected)
        · exact .inr ⟨le, rfl, misread⟩

/-- A superscript digit is a digit and no number: the assembly fails, and tells no line. -/
theorem superscript_register_tells_no_line :
    (¬∃ ws, (assemble 0 (.text "jr ²".toList)).2 = .ok ws) ∧
      ¬∃ cause place, (assemble 0 (.text "jr ²".toList)).2 = .error (.rejected cause place) := by
  have failed : (assemble 0 (.text "jr ²".toList)).2 = .error (.literal (.malformed .ten ['²'])) := by
    rfl
  rw [failed]
  exact ⟨nofun, nofun⟩

end Assembly

end PocketMips
