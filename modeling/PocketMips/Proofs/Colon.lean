import PocketMips.Proofs.Case

/-!
# Instruction texts hold no colon

A colon is no part of a number, a register or the name of a label, and it separates no operands. So an instruction
text with a word holds none, and what stands behind the first colon of a line is not taken for a label again.
-/
namespace PocketMips.Assembly

open Number Text

variable {labels : Labels} {address i : Int} {w : Word} {op : Operation} {text : List Char}
  {operands : List (List Char)}

/-! ## Numbers, registers and targets -/

theorem colon_not_mem_of_isLiteral (h : IsLiteral .sixteen text i) : ':' ∉ text := by
  obtain @⟨before, sign, mark, body, after, negative, ds, margins, signed, marked, grouped, -, blank⟩ := h
  have zero {z : Char} (value : decimalValue? z = some 0) : z ≠ ':' := by
    rintro rfl
    revert value
    decide
  have letter {c : Char} (mem : c ∈ Radix.letters .sixteen) : c ≠ ':' := by
    rintro rfl
    revert mem
    decide
  simp only [List.mem_append, not_or]
  refine ⟨fun mem => ?_, ?_, ?_, fun mem => ?_, fun mem => ?_⟩
  · exact absurd (margins _ mem) (by decide)
  · cases signed <;> decide
  · cases marked with
    | none => exact List.not_mem_nil
    | plain value mem => simp [(zero value).symm, (letter mem).symm]
    | underscored value mem => simp [(zero value).symm, (letter mem).symm]
  · exact absurd (grouped.part _ mem) (by decide)
  · exact absurd (blank _ mem) (by decide)

theorem colon_not_mem_of_bodyAmount? (h : bodyAmount? text = some i) : ':' ∉ text := by
  unfold bodyAmount? at h
  split at h
  · rename_i digits
    have plain := colon_not_mem_of_isLiteral ((literal_eq_ok_iff (by decide)).mp (mem_toOption_iff.mp h))
    simpa using plain
  · split at h
    · rename_i digits
      exact fun mem => absurd (List.all_eq_true.mp digits.2 _ mem) (by decide)
    · cases h

theorem colon_not_mem_of_number (h : number text = .ok i) : ':' ∉ text := by
  intro mem
  have folded : ':' ∈ fold (trim text) := (mem_fold_iff (by decide)).mpr (mem_trim (by decide) mem)
  obtain ⟨sign, isSign, split⟩ := exists_sign (fold (trim text))
  obtain ⟨negative, body, unsigned⟩ : ∃ negative body, unsign (fold (trim text)) = (negative, body) :=
    ⟨_, _, rfl⟩
  rw [unsigned] at isSign split
  rw [number_eq_bodyAmount? unsigned] at h
  cases read : bodyAmount? body with
  | none =>
    rw [read] at h
    cases h
  | some n =>
    rw [split] at folded
    rcases List.mem_append.mp folded with front | behind
    · cases isSign <;> simp at front
    · exact colon_not_mem_of_bodyAmount? read behind

theorem colon_not_mem_of_register {r : Register} (h : register text = .ok r) : ':' ∉ text := by
  intro mem
  have unmarked_mem {cs : List Char} (mem : ':' ∈ cs) : ':' ∈ unmarked cs := by
    unfold unmarked
    split
    · simpa using mem
    · exact mem
  have folded : ':' ∈ fold (unmarked (trim text)) :=
    (mem_fold_iff (by decide)).mpr (unmarked_mem (mem_trim (by decide) mem))
  unfold register at h
  dsimp only at h
  split at h
  · rename_i digits
    exact absurd (List.all_eq_true.mp digits.2 _ folded) (by decide)
  · split at h
    · rename_i r' found
      have name : r'.bareName.toList = fold (unmarked (trim text)) := by simpa using List.find?_some found
      have plain : ∀ r : Register, ':' ∉ r.bareName.toList := by decide +kernel
      exact plain r' (name ▸ folded)
    · cases h

theorem colon_not_mem_of_isLabel (h : isLabel text = true) : ':' ∉ text := by
  cases text with
  | nil => exact List.not_mem_nil
  | cons c cs =>
    rw [isLabel, Bool.and_eq_true] at h
    have first : c ≠ ':' := by
      rintro rfl
      exact absurd h.1 (by decide)
    exact fun mem => absurd (List.all_eq_true.mp h.2 _ (List.mem_of_ne_of_mem first.symm mem)) (by decide)

theorem colon_not_mem_of_target {ofAddress : Int → Int} (names : ∀ p ∈ labels, isLabel p.1 = true)
    (h : target labels text ofAddress = .ok i) : ':' ∉ text := by
  unfold target at h
  split at h
  · rename_i l found
    obtain ⟨p, known, -⟩ := Option.map_eq_some_iff.mp found
    obtain rfl : p.1 = text := by simpa using List.find?_some known
    exact colon_not_mem_of_isLabel (names p (List.mem_of_find?_eq_some known))
  · split at h
    · cases h
    · exact colon_not_mem_of_number h

/-! ## Instruction texts -/

theorem colon_not_mem_of_encodeAddress {op : IOp} {first second : List Char}
    (h : encodeAddress op first second = .ok w) : ':' ∉ first ∧ ':' ∉ second := by
  rw [encodeAddress_eq] at h
  obtain ⟨rt, target, h⟩ := bind_eq_ok.mp h
  split at h
  · cases h
  · rename_i offset base parts
    obtain ⟨n, read, h⟩ := bind_eq_ok.mp h
    obtain ⟨rs, source, -⟩ := bind_eq_ok.mp h
    have plain : ':' ∉ offset := by
      intro mem
      have mem := mem_trim (by decide) mem
      unfold offsetOf at read
      split at read
      · rename_i empty
        rw [empty] at mem
        cases mem
      · exact colon_not_mem_of_number read mem
    obtain ⟨rfl, -⟩ := addressParts?_eq_some_iff.mp parts
    exact ⟨colon_not_mem_of_register target, by simp [plain, colon_not_mem_of_register source]⟩

theorem colon_not_mem_of_encodeR {op : ROp} (h : encodeR op operands = .ok w) : ':' ∉ operands.flatten := by
  rcases operands with _ | ⟨a, _ | ⟨b, _ | ⟨c, _ | ⟨d, more⟩⟩⟩⟩
  · exact List.not_mem_nil
  · cases op with
    | jr =>
      obtain ⟨rs, source, -⟩ := bind_eq_ok.mp h
      simpa using colon_not_mem_of_register source
    | _ => cases h
  · cases op <;> cases h
  · rw [encodeR_three] at h
    obtain ⟨rd, first, h⟩ := bind_eq_ok.mp h
    have plain : ':' ∉ b ∧ ':' ∉ c := by
      split at h
      · obtain ⟨rt, second, h⟩ := bind_eq_ok.mp h
        obtain ⟨shamt, third, -⟩ := bind_eq_ok.mp h
        exact ⟨colon_not_mem_of_register second, colon_not_mem_of_number third⟩
      · obtain ⟨rs, second, h⟩ := bind_eq_ok.mp h
        obtain ⟨rt, third, -⟩ := bind_eq_ok.mp h
        exact ⟨colon_not_mem_of_register second, colon_not_mem_of_register third⟩
    simp [colon_not_mem_of_register first, plain]
  · cases op <;> cases h

theorem colon_not_mem_of_encodeI {op : IOp} (names : ∀ p ∈ labels, isLabel p.1 = true)
    (h : encodeI labels address op operands = .ok w) : ':' ∉ operands.flatten := by
  rcases operands with _ | ⟨a, _ | ⟨b, _ | ⟨c, _ | ⟨d, more⟩⟩⟩⟩
  · cases h
  · cases h
  · simp only [encodeI] at h
    split at h
    · simp [colon_not_mem_of_encodeAddress h]
    · cases h
  · simp only [encodeI] at h
    split at h
    all_goals
      obtain ⟨r₁, first, h⟩ := bind_eq_ok.mp h
      obtain ⟨r₂, second, h⟩ := bind_eq_ok.mp h
      obtain ⟨n, third, -⟩ := bind_eq_ok.mp h
    · simp [colon_not_mem_of_register first, colon_not_mem_of_register second,
        colon_not_mem_of_target names third]
    · simp [colon_not_mem_of_register first, colon_not_mem_of_register second, colon_not_mem_of_number third]
  · cases h

theorem colon_not_mem_of_encodeJ {op : JOp} (names : ∀ p ∈ labels, isLabel p.1 = true)
    (h : encodeJ labels op operands = .ok w) : ':' ∉ operands.flatten := by
  rcases operands with _ | ⟨a, _ | ⟨b, more⟩⟩
  · cases h
  · obtain ⟨n, read, -⟩ := bind_eq_ok.mp h
    simpa using colon_not_mem_of_target names read
  · cases h

theorem flatten_joinAddress (op : Operation) (operands : List (List Char)) :
    (joinAddress op operands).flatten = operands.flatten := by
  unfold joinAddress
  split
  · split <;> simp
  · rfl

theorem name_of_ofName? (h : Operation.ofName? text = some op) : op.name.toList = text := by
  rcases Option.or_eq_some_iff.mp h with named | ⟨-, others⟩
  on_goal 2 => rcases Option.or_eq_some_iff.mp others with named | ⟨-, named⟩
  all_goals
    obtain ⟨op, found, rfl⟩ := Option.map_eq_some_iff.mp named
    have same := List.find?_some found
    exact of_decide_eq_true same

theorem colon_not_mem_name (op : Operation) : ':' ∉ op.name.toList := by
  cases op with
  | r op | i op | j op => cases op <;> decide

/-- An instruction text with a word holds no colon, if all labels are names. -/
theorem colon_not_mem_of_encode (names : ∀ p ∈ labels, isLabel p.1 = true)
    (h : encode labels address text = .ok w) : ':' ∉ text := by
  obtain ⟨op, operands, instr, -, made⟩ := encode_eq_ok h
  obtain ⟨op', named, joined⟩ := Option.map_eq_some_iff.mp instr
  obtain ⟨rfl, rfl⟩ := Prod.mk.inj joined
  have plain : ':' ∉ (joinAddress op' (tokens text).2).flatten := by
    cases op' with
    | r op => exact colon_not_mem_of_encodeR made
    | i op => exact colon_not_mem_of_encodeI names made
    | j op => exact colon_not_mem_of_encodeJ names made
  rw [flatten_joinAddress, tokens_eq, flatten_fields] at plain
  rw [tokens_eq] at named
  intro mem
  rw [← List.takeWhile_append_dropWhile (p := (!isBlank ·)) (l := text)] at mem
  rcases List.mem_append.mp mem with front | behind
  · have folded : ':' ∈ fold (text.takeWhile (!isBlank ·)) := (mem_fold_iff (by decide)).mpr front
    rw [← name_of_ofName? named] at folded
    exact colon_not_mem_name op' folded
  · exact plain (List.mem_filter.mpr ⟨behind, by decide⟩)

end PocketMips.Assembly
