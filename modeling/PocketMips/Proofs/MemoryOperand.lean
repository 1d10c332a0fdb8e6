import PocketMips.Proofs.Instruction
import PocketMips.Proofs.Numeral

/-!
# Operands of loads and stores

The operand of a load or a store is `offset(base)`: a number or nothing before a register in parentheses, blanks
standing between these tokens as they like. The characters of an operand are put together before it is read, so
that an operand whose tokens are in pieces is accepted as well.
-/
namespace PocketMips.Assembly

open Number Text

variable {labels : Labels} {address : Int} {op : IOp} {w : Word} {e : Error}
  {text operand first offset base : List Char}

/-! ## Operands as they are written -/

/-- The parentheses of an address. -/
def isParenthesis (c : Char) : Bool := c = '(' || c = ')'

/-- The text behind the mnemonic and the separators after it. -/
def operandsText (text : List Char) : List Char := (text.dropWhile (!isBlank ·)).dropWhile isSeparator

/-- The first operand of an instruction text. -/
def firstOperand (text : List Char) : List Char := (operandsText text).takeWhile (!isSeparator ·)

/-- The text behind the first operand. -/
def operandText (text : List Char) : List Char := (operandsText text).dropWhile (!isSeparator ·)

/-- The characters of a text put together. -/
def squeeze (text : List Char) : List Char := text.filter (!isSeparator ·)

/-- An operand `offset(base)` behind separators, with blanks around its tokens. -/
inductive IsAddress : List Char → List Char → List Char → Prop
  | intro {gap offset b₁ b₂ base b₃ b₄ : List Char} : (∀ c ∈ gap, isSeparator c = true) →
    (∀ c ∈ offset, isSeparator c = false ∧ isParenthesis c = false) →
    (∀ c ∈ base, isSeparator c = false ∧ isParenthesis c = false) → base ≠ [] →
    (∀ c ∈ b₁ ++ b₂ ++ b₃ ++ b₄, isBlank c = true) →
    IsAddress (gap ++ (offset ++ (b₁ ++ '(' :: (b₂ ++ (base ++ (b₃ ++ ')' :: b₄)))))) offset base

/-- An operand whose characters are `offset(base)` once they are put together. -/
inductive Joined : List Char → List Char → List Char → Prop
  | intro {o b s : List Char} : (∀ c ∈ o, isParenthesis c = false) → (∀ c ∈ b, isParenthesis c = false) →
    squeeze b ≠ [] → (∀ c ∈ s, isSeparator c = true) →
    Joined (o ++ '(' :: (b ++ ')' :: s)) (squeeze o) (squeeze b)

/-- An address with a token in pieces, or with a comma beside its tokens. -/
def InPieces (operand offset base : List Char) : Prop :=
  Joined operand offset base ∧ ¬IsAddress operand offset base

/-- The word of a load or a store has the base register, the first register and the low half of the offset. -/
def HasWord (op : IOp) (first offset base : List Char) (w : Word) : Prop :=
  ∃ (rt rs : Register) (n : Int), register first = .ok rt ∧ register base = .ok rs ∧
    (if offset = [] then n = 0 else number offset = .ok n) ∧
    w = op.opcode ++ rs ++ rt ++ BitVec.ofInt 16 n

/-! ## Addresses -/

theorem squeeze_append (a b : List Char) : squeeze (a ++ b) = squeeze a ++ squeeze b :=
  List.filter_append a b

theorem squeeze_cons {c : Char} (h : isSeparator c = false) (cs : List Char) :
    squeeze (c :: cs) = c :: squeeze cs :=
  List.filter_cons_of_pos (by simp [h])

theorem squeeze_eq_nil_iff : squeeze text = [] ↔ ∀ c ∈ text, isSeparator c = true := by
  simp [squeeze]

theorem squeeze_eq_self (h : ∀ c ∈ text, isSeparator c = false) : squeeze text = text :=
  List.filter_eq_self.mpr (by simpa using h)

theorem isParenthesis_iff {c : Char} : isParenthesis c = false ↔ c ≠ '(' ∧ c ≠ ')' := by
  simp [isParenthesis]

theorem isParenthesis_of_isSeparator {c : Char} (h : isSeparator c = true) : isParenthesis c = false := by
  rw [isParenthesis_iff]
  constructor <;> rintro rfl <;> revert h <;> decide

theorem addressParts?_eq_some_iff : addressParts? operand = some (offset, base) ↔
    operand = offset ++ '(' :: (base ++ [')']) ∧ (∀ c ∈ offset, isParenthesis c = false) ∧
      (∀ c ∈ base, isParenthesis c = false) ∧ base ≠ [] := by
  have free {cs : List Char} : (∀ c ∈ cs, isParenthesis c = false) ↔ '(' ∉ cs ∧ ')' ∉ cs := by
    simp only [isParenthesis_iff]
    exact ⟨fun h => ⟨fun mem => (h _ mem).1 rfl, fun mem => (h _ mem).2 rfl⟩,
      fun h c mem => ⟨fun same => h.1 (same ▸ mem), fun same => h.2 (same ▸ mem)⟩⟩
  rw [free, free]
  constructor
  · intro parts
    have opened := cut_append '(' operand
    have before := not_mem_cut '(' operand
    unfold addressParts? at parts
    split at parts
    · cases parts
    · rename_i o rest first
      have closed := cut_append ')' rest
      have inside := not_mem_cut ')' rest
      split at parts
      · rename_i b second
        split at parts
        · rename_i plain
          cases parts
          rw [first] at opened before
          rw [second] at closed inside
          exact ⟨by rw [← opened, ← closed], ⟨before, plain.2.2⟩, ⟨plain.2.1, inside⟩, plain.1⟩
        · cases parts
      · cases parts
  · rintro ⟨rfl, ⟨opening, closing⟩, ⟨opening', closing'⟩, nonempty⟩
    rw [addressParts?, cut_append_cons opening]
    simp only [cut_append_cons closing']
    exact if_pos ⟨nonempty, opening', closing⟩

theorem addressParts?_of_joined (h : Joined operand offset base) :
    addressParts? (squeeze operand) = some (offset, base) := by
  obtain @⟨o, b, s, before, inside, some, behind⟩ := h
  have kept {cs : List Char} (h : ∀ c ∈ cs, isParenthesis c = false) :
      ∀ c ∈ squeeze cs, isParenthesis c = false := fun c mem => h c (List.mem_of_mem_filter mem)
  refine addressParts?_eq_some_iff.mpr ⟨?_, kept before, kept inside, some⟩
  rw [squeeze_append, squeeze_cons (by decide), squeeze_append, squeeze_cons (by decide),
    squeeze_eq_nil_iff.mpr behind]

theorem joined_of_addressParts? (h : addressParts? (squeeze operand) = some (offset, base)) :
    Joined operand offset base := by
  have free {cs : List Char} (h : ∀ c ∈ squeeze cs, isParenthesis c = false) :
      ∀ c ∈ cs, isParenthesis c = false := by
    intro c mem
    cases separator : isSeparator c with
    | true => exact isParenthesis_of_isSeparator separator
    | false => exact h c (List.mem_filter.mpr ⟨mem, by simp [separator]⟩)
  obtain ⟨whole, before, inside, some⟩ := addressParts?_eq_some_iff.mp h
  obtain ⟨o, rest, rfl, rfl, opened⟩ := List.filter_eq_append_iff.mp whole
  obtain ⟨gap, rest, rfl, skipped, -, within⟩ := List.filter_eq_cons_iff.mp opened
  obtain ⟨b, rest, rfl, rfl, closed⟩ := List.filter_eq_append_iff.mp within
  obtain ⟨gap', s, rfl, skipped', -, behind⟩ := List.filter_eq_cons_iff.mp closed
  have gap_nil : squeeze gap = [] := squeeze_eq_nil_iff.mpr (by simpa using skipped)
  have gap_nil' : squeeze gap' = [] := squeeze_eq_nil_iff.mpr (by simpa using skipped')
  have joined := Joined.intro (o := o ++ gap) (b := b ++ gap') (s := s)
  rw [squeeze_append, squeeze_append, gap_nil, gap_nil', List.append_nil, List.append_nil,
    List.append_assoc, List.append_assoc] at joined
  refine joined ?_ ?_ some (squeeze_eq_nil_iff.mp behind)
  · exact free (by rwa [squeeze_append, gap_nil, List.append_nil])
  · exact free (by rwa [squeeze_append, gap_nil', List.append_nil])

/-- An operand is put together to an address if it is one but for the separators in it. -/
theorem joined_iff : Joined operand offset base ↔ addressParts? (squeeze operand) = some (offset, base) :=
  ⟨addressParts?_of_joined, joined_of_addressParts?⟩

theorem IsAddress.joined (h : IsAddress operand offset base) : Joined operand offset base := by
  obtain @⟨gap, offset, b₁, b₂, base, b₃, b₄, gaps, offsets, bases, some, blanks⟩ := h
  have blank {b : List Char} (inside : ∀ c ∈ b, c ∈ b₁ ++ b₂ ++ b₃ ++ b₄) : squeeze b = [] :=
    squeeze_eq_nil_iff.mpr fun c mem => by simp [isSeparator, blanks c (inside c mem)]
  rw [joined_iff, addressParts?_eq_some_iff]
  refine ⟨?_, fun c mem => (offsets c mem).2, fun c mem => (bases c mem).2, some⟩
  rw [squeeze_append, squeeze_append, squeeze_append, squeeze_cons (by decide), squeeze_append, squeeze_append,
    squeeze_append, squeeze_cons (by decide), squeeze_eq_nil_iff.mpr gaps,
    squeeze_eq_self fun c mem => (offsets c mem).1, squeeze_eq_self fun c mem => (bases c mem).1,
    blank (by simp +contextual), blank (by simp +contextual), blank (by simp +contextual),
    blank (by simp +contextual)]
  rfl

theorem isAddress_or_inPieces_iff :
    IsAddress operand offset base ∨ InPieces operand offset base ↔ Joined operand offset base := by
  by_cases h : IsAddress operand offset base <;> simp [InPieces, h]
  exact h.joined

/-! ## Loads and stores -/

/-- The offset of an address is zero if it is not written. -/
def offsetOf (offset : List Char) : Except Error Int := if offset = [] then .ok 0 else number offset

theorem encodeAddress_eq (a b : List Char) : encodeAddress op a b =
    register a >>= fun rt =>
      match addressParts? b with
      | none => reject (.malformedAddress b)
      | some (offset, base) =>
        offsetOf (trim offset) >>= fun n => register base >>= fun rs =>
          .ok (Instruction.encodeI op.opcode.toNat rs.toNat rt.toNat n) := by
  unfold encodeAddress
  congr 1
  funext rt
  rcases addressParts? b with _ | ⟨offset, base⟩
  · rfl
  · dsimp only [offsetOf]
    split <;> rfl

theorem hasWord_iff : HasWord op first offset base w ↔
    ∃ rt rs n, register first = .ok rt ∧ register base = .ok rs ∧ offsetOf offset = .ok n ∧
      w = Instruction.encodeI op.opcode.toNat rs.toNat rt.toNat n := by
  have read (n : Int) :
      offsetOf offset = .ok n ↔ if offset = [] then n = 0 else number offset = .ok n := by
    unfold offsetOf
    split
    · rw [Except.ok.injEq, eq_comm]
    · rfl
  simp only [HasWord, read, Instruction.encodeI, ofInt_toNat]

theorem trim_of_joined (joined : Joined operand offset base) : trim offset = offset := by
  obtain ⟨text, -⟩ := addressParts?_eq_some_iff.mp (joined_iff.mp joined)
  refine trim_eq_self_of_forall fun c mem => ?_
  have inside : c ∈ squeeze operand := by
    rw [text]
    exact List.mem_append_left _ mem
  have apart := (List.mem_filter.mp inside).2
  simp only [isSeparator, Bool.not_or, Bool.and_eq_true, Bool.not_eq_true'] at apart
  exact apart.1

/-- Characters put together are the operand of a load or store if they are an address whose parts have a word. -/
theorem encodeAddress_eq_ok_iff : encodeAddress op first (squeeze operand) = .ok w ↔
    ∃ offset base, Joined operand offset base ∧ HasWord op first offset base w := by
  simp only [hasWord_iff]
  rw [encodeAddress_eq]
  constructor
  · intro made
    obtain ⟨rt, target, made⟩ := bind_eq_ok.mp made
    split at made
    · cases made
    · rename_i offset base parts
      have joined := joined_iff.mpr parts
      rw [trim_of_joined joined] at made
      obtain ⟨n, read, made⟩ := bind_eq_ok.mp made
      obtain ⟨rs, source, made⟩ := bind_eq_ok.mp made
      cases made
      exact ⟨offset, base, joined, rt, rs, n, target, source, read, rfl⟩
  · rintro ⟨offset, base, joined, rt, rs, n, target, source, read, rfl⟩
    refine bind_eq_ok.mpr ⟨rt, target, ?_⟩
    rw [joined_iff.mp joined]
    refine bind_eq_ok.mpr ⟨n, ?_, bind_eq_ok.mpr ⟨rs, source, rfl⟩⟩
    rw [trim_of_joined joined, read]

theorem register_eq_error {token : List Char} (h : register token = .error e) :
    (∃ cause, e = .rejected cause none) ∨ Unreadable token := by
  cases e with
  | literal le => exact .inr (register_eq_literal_iff.mp ⟨le, h⟩)
  | rejected cause place =>
    unfold register at h
    dsimp only at h
    split at h
    · split at h
      · split at h <;> cases h
        exact .inl ⟨_, rfl⟩
      · cases h
    · split at h <;> cases h
      exact .inl ⟨_, rfl⟩

/-- The word of a load or store fails with a rejection or with a register that is unreadable. -/
theorem encodeAddress_eq_error (h : encodeAddress op first (squeeze operand) = .error e) :
    (∃ cause, e = .rejected cause none) ∨ Unreadable first ∨
      ∃ offset base, Joined operand offset base ∧ Unreadable base := by
  rw [encodeAddress_eq] at h
  rcases bind_eq_error.mp h with bad | ⟨rt, -, h⟩
  · exact (register_eq_error bad).imp_right .inl
  · split at h
    · cases h
      exact .inl ⟨_, rfl⟩
    · rename_i offset base parts
      rcases bind_eq_error.mp h with bad | ⟨n, -, h⟩
      · refine .inl ?_
        unfold offsetOf at bad
        split at bad
        · cases bad
        · exact ⟨_, number_eq_error bad⟩
      rcases bind_eq_error.mp h with bad | ⟨rs, -, h⟩
      · exact (register_eq_error bad).imp_right fun unread => .inr ⟨offset, base, joined_iff.mpr parts, unread⟩
      · cases h

theorem joinAddress_memory (memory : op.isMemory = true) (first second : List Char)
    (more : List (List Char)) :
    joinAddress (.i op) (first :: second :: more) = [first, (second :: more).flatten] := by
  cases more with
  | nil => simp [joinAddress]
  | cons third more => simp [joinAddress, memory]

/-- The operands of a text are the first one and those behind it. -/
theorem tokens_snd (text : List Char) :
    operandsText text = [] ∧ (tokens text).2 = [] ∨
      (tokens text).2 = firstOperand text :: fields isSeparator (operandText text) := by
  have operands : (tokens text).2 = fields isSeparator (operandsText text) := by
    rw [operandsText, fields_dropWhile, tokens_eq]
  rw [operands, firstOperand, operandText]
  cases rest : operandsText text with
  | nil => exact .inl ⟨rfl, rfl⟩
  | cons c cs =>
    have plain : isSeparator c = false := by
      have first := List.head?_dropWhile_not isSeparator (text.dropWhile (!isBlank ·))
      rw [operandsText] at rest
      rwa [rest] at first
    refine .inr ?_
    rw [fields_of_plain plain, List.takeWhile_cons_of_pos (by simp [plain]),
      List.dropWhile_cons_of_pos (by simp [plain])]

/-- A load or store has the word of its first operand and the rest put together, if there is one. -/
theorem encode_memory (named : Operation.ofName? (fold (tokens text).1) = some (.i op))
    (memory : op.isMemory = true) :
    (∃ cause, encode labels address text = reject cause) ∧ squeeze (operandText text) = [] ∨
      encode labels address text =
        encodeAddress op (firstOperand text) (squeeze (operandText text)) := by
  have count : operandCount (.i op) = 2 := by simp [operandCount, memory]
  have refused (few : (joinAddress (.i op) (tokens text).2).length ≠ 2) :
      ∃ cause, encode labels address text = reject cause := by
    simp only [encode, named, count]
    exact ⟨_, if_pos few⟩
  have joined := flatten_fields isSeparator (operandText text)
  rcases tokens_snd text with ⟨none, operands⟩ | operands
  · refine .inl ⟨refused ?_, ?_⟩
    · simp [operands, joinAddress]
    · rw [operandText, none]
      rfl
  · cases behind : fields isSeparator (operandText text) with
    | nil =>
      rw [behind] at operands joined
      refine .inl ⟨refused ?_, joined.symm⟩
      simp [operands, joinAddress]
    | cons second more =>
      rw [behind] at operands joined
      have pair := joinAddress_memory memory (firstOperand text) second more
      rw [joined, ← operands] at pair
      have instr : instruction? text = some (.i op, [firstOperand text, squeeze (operandText text)]) := by
        rw [instruction?, named, Option.map_some, pair]
        rfl
      refine .inr ((encode_of_instruction? instr count.symm).trans ?_)
      rw [encodeOperands, encodeI, if_pos memory]

theorem squeeze_ne_nil (joined : Joined operand offset base) : squeeze operand ≠ [] := by
  obtain ⟨text, -⟩ := addressParts?_eq_some_iff.mp (joined_iff.mp joined)
  simp [text]

/-- **The operands of loads and stores.** A load or a store is accepted if behind its first operand stands
`offset(base)` with blanks between the tokens, or characters that become it once they are put together, and the
word is that of the registers and the offset. All others are rejected, unless a register is unreadable. -/
theorem memory_operand (named : Operation.ofName? (fold (tokens text).1) = some (.i op))
    (memory : op.isMemory = true) :
    (∀ w, encode labels address text = .ok w ↔ ∃ offset base,
      (IsAddress (operandText text) offset base ∨ InPieces (operandText text) offset base) ∧
        HasWord op (firstOperand text) offset base w) ∧
    ∀ e, encode labels address text = .error e → (∃ cause, e = .rejected cause none) ∨
      Unreadable (firstOperand text) ∨ ∃ offset base, Joined (operandText text) offset base ∧ Unreadable base := by
  simp only [isAddress_or_inPieces_iff]
  rcases @encode_memory labels address _ _ named memory with ⟨⟨cause, refused⟩, nothing⟩ | made
  · rw [refused]
    refine ⟨fun w => iff_of_false nofun ?_, fun e failed => ?_⟩
    · rintro ⟨offset, base, joined, -⟩
      exact squeeze_ne_nil joined nothing
    · cases failed
      exact .inl ⟨cause, rfl⟩
  · rw [made]
    exact ⟨fun w => encodeAddress_eq_ok_iff, fun e => encodeAddress_eq_error⟩

/-- Blanks around the tokens of an address. -/
theorem spaced_memory_operand :
    Operation.ofName? (fold (tokens "LW $t0,, 8 ( $sp )".toList).1) = some (.i .lw) ∧
      IOp.isMemory .lw = true ∧ encode [] 0 "LW $t0,, 8 ( $sp )".toList = .ok 0x8FA80008 := by
  have written : operandText "LW $t0,, 8 ( $sp )".toList =
      [',', ',', ' '] ++ (['8'] ++ ([' '] ++ '(' :: ([' '] ++ (['$', 's', 'p'] ++ ([' '] ++ ')' :: []))))) := by
    decide +kernel
  have address : IsAddress (operandText "LW $t0,, 8 ( $sp )".toList) ['8'] ['$', 's', 'p'] := by
    rw [written]
    exact .intro (by decide) (by decide) (by decide) (by decide) (by decide)
  have named : Operation.ofName? (fold (tokens "LW $t0,, 8 ( $sp )".toList).1) = some (.i .lw) := by
    decide +kernel
  refine ⟨named, rfl, ((memory_operand named rfl).1 _).mpr ?_⟩
  exact ⟨_, _, .inl address, 8, 29, 8, by decide +kernel, by decide +kernel, by decide +kernel, by decide +kernel⟩

/-- The offset of an address is at most one token. -/
theorem IsAddress.one_offset (h : IsAddress operand offset base) :
    (fields isSeparator (cut '(' operand).1).length ≤ 1 := by
  obtain @⟨gap, offset, b₁, b₂, base, b₃, b₄, gaps, offsets, -, -, blanks⟩ := h
  have blank : ∀ c ∈ b₁, isSeparator c = true := fun c mem => by
    simp [isSeparator, blanks c (by simp [mem])]
  have before : '(' ∉ gap ++ (offset ++ b₁) := by
    have opening : isSeparator '(' = false := by decide
    simp only [List.mem_append, not_or]
    refine ⟨fun mem => ?_, fun mem => ?_, fun mem => ?_⟩
    · exact absurd (gaps _ mem) (by simp [opening])
    · exact absurd (offsets _ mem).2 (by decide)
    · exact absurd (blank _ mem) (by simp [opening])
  have front := cut_append_cons before (b₂ ++ (base ++ (b₃ ++ ')' :: b₄)))
  rw [List.append_assoc, List.append_assoc] at front
  rw [front, fields_gap_append gaps, fields_append_of_forall blank]
  by_cases some : offset = []
  · rw [some]
    decide
  · rw [fields_eq_singleton some fun c mem => (offsets c mem).1]
    rfl

/-- The pieces of an offset are read as one number, though it is no token. -/
theorem offset_in_pieces_is_read :
    (assemble 0 (.text "lw $t0, 1 2($sp)".toList)).2 = .ok [0x8FA8000C] ∧
      ¬∃ offset base, IsAddress (operandText "lw $t0, 1 2($sp)".toList) offset base := by
  refine ⟨by decide +kernel, ?_⟩
  rintro ⟨offset, base, address⟩
  exact absurd address.one_offset (by decide +kernel)

end PocketMips.Assembly
