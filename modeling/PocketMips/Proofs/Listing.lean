import PocketMips.Assembly
import PocketMips.Instruction.Listing
import PocketMips.Proofs.Digits

/-!
# Listings as source lines

The listing of an instruction is a source line without label and comment. Its tokens are the name of the
operation and the operands, and every operand is read as what it was written for.
-/
namespace PocketMips.Assembly

open Number Text

/-! ## Tokens -/

/-- A text that a line may hold between its separators: no blank, comma, comment mark or colon in it. -/
def IsToken (cs : List Char) : Prop :=
  cs ≠ [] ∧ ∀ c ∈ cs, isBlank c = false ∧ c ≠ ',' ∧ c ≠ '#' ∧ c ≠ ':'

instance (cs : List Char) : Decidable (IsToken cs) :=
  -- Not by trying all characters.
  have : Decidable (∀ c ∈ cs, isBlank c = false ∧ c ≠ ',' ∧ c ≠ '#' ∧ c ≠ ':') :=
    List.decidableBAll _ cs
  inferInstanceAs (Decidable (_ ∧ _))

theorem isToken_name : ∀ r : Register, IsToken r.name.toList := by
  decide +kernel

theorem isToken_decimal (i : Int) : IsToken (decimal i) := by
  refine ⟨decimal_ne_nil i, ?_⟩
  intro c mem
  obtain ⟨blank, plain⟩ := decimal_plain mem
  simp only [List.mem_cons, not_or] at plain
  exact ⟨blank, plain.1, plain.2.1, plain.2.2.1⟩

theorem isToken_hex (width n : Nat) : IsToken (hex width n) := by
  refine ⟨List.cons_ne_nil _ _, ?_⟩
  intro c mem
  simpa using hex_plain mem

theorem isToken_address (i : Int) (r : Register) :
    IsToken (decimal i ++ '(' :: r.name.toList ++ [')']) := by
  refine ⟨by simp, ?_⟩
  intro c mem
  rcases List.mem_append.mp mem with mem | mem
  · rcases List.mem_append.mp mem with mem | mem
    · exact (isToken_decimal i).2 c mem
    · rcases List.mem_cons.mp mem with rfl | mem
      · decide
      · exact (isToken_name r).2 c mem
  · cases List.mem_singleton.mp mem
    decide

theorem isToken_mnemonic (op : Operation) : IsToken op.name.toList := by
  cases op with
  | r op => cases op <;> decide
  | i op => cases op <;> decide
  | j op => cases op <;> decide

theorem ofName?_name (op : Operation) : Operation.ofName? (fold op.name.toList) = some op := by
  cases op with
  | r op => cases op <;> decide
  | i op => cases op <;> decide
  | j op => cases op <;> decide

/-! ## Lines -/

variable {name : String} {operands : List (List Char)}

theorem mem_line {c : Char} (mem : c ∈ Instruction.line name operands) :
    c = ' ' ∨ c = ',' ∨ ∃ t ∈ name.toList :: operands, c ∈ t := by
  rcases List.mem_append.mp mem with mem | mem
  · exact Or.inr (Or.inr ⟨_, List.mem_cons_self, mem⟩)
  · rcases List.mem_cons.mp mem with rfl | mem
    · exact Or.inl rfl
    · rcases mem_intercalate mem with mem | ⟨t, inside, mem⟩
      · simp only [List.mem_cons, List.not_mem_nil, or_false] at mem
        rcases mem with rfl | rfl
        · exact Or.inr (Or.inl rfl)
        · exact Or.inl rfl
      · exact Or.inr (Or.inr ⟨t, List.mem_cons_of_mem _ inside, mem⟩)

/-- A line of tokens holds neither a comment nor a label. -/
theorem marks_not_mem_line (tokens : ∀ t ∈ name.toList :: operands, IsToken t) :
    '#' ∉ Instruction.line name operands ∧ ':' ∉ Instruction.line name operands := by
  constructor
  all_goals
    intro mem
    rcases mem_line mem with c | c | ⟨t, inside, mem⟩
    · cases c
    · cases c
    · have plain := (tokens t inside).2 _ mem
      simp at plain

theorem clean_line (tokens : ∀ t ∈ name.toList :: operands, IsToken t) (ne : operands ≠ []) :
    clean (Instruction.line name operands) = Instruction.line name operands := by
  have head : IsToken name.toList := tokens _ List.mem_cons_self
  rw [clean, cut_of_not_mem (marks_not_mem_line tokens).1]
  apply trim_eq_self
  · intro c first
    obtain ⟨d, ds, text⟩ := List.exists_cons_of_ne_nil head.1
    rw [Instruction.line, text, List.cons_append, List.head?_cons] at first
    cases first
    exact (head.2 c (by simp [text])).1
  · intro c last
    obtain ⟨t, inside, d, mem, ends⟩ := exists_getLast?_intercalate [',', ' '] ne
      fun t mem => (tokens t (List.mem_cons_of_mem _ mem)).1
    rw [Instruction.line, List.getLast?_append, List.getLast?_cons, ends] at last
    cases last
    exact ((tokens t (List.mem_cons_of_mem _ inside)).2 _ mem).1

theorem splitLabel_line (tokens : ∀ t ∈ name.toList :: operands, IsToken t) :
    splitLabel (Instruction.line name operands) = .ok (none, Instruction.line name operands) := by
  rw [splitLabel, cut_of_not_mem (marks_not_mem_line tokens).2]

theorem tokens_line (tokens : ∀ t ∈ name.toList :: operands, IsToken t) :
    Assembly.tokens (Instruction.line name operands) = (name.toList, operands) := by
  have head : ∀ c ∈ name.toList, (!isBlank c) = true := by
    intro c mem
    simp [((tokens _ List.mem_cons_self).2 c mem).1]
  have first : (Instruction.line name operands).takeWhile (!isBlank ·) = name.toList := by
    rw [Instruction.line, List.takeWhile_append_of_pos head]
    simp [show isBlank ' ' = true by decide]
  have rest : fields (fun c => isBlank c || c = ',') ([',', ' '].intercalate operands) = operands := by
    apply fields_intercalate (by decide) (by decide)
    · intro t mem
      exact (tokens t (List.mem_cons_of_mem _ mem)).1
    · intro t mem c inside
      have plain := (tokens t (List.mem_cons_of_mem _ mem)).2 c inside
      simp [plain.1, plain.2.1]
  simp only [Assembly.tokens, first]
  rw [Instruction.line, List.drop_left, fields_cons (by decide), rest]

/-! ## Listings -/

/-- The text is the line of a name and of operands. -/
def Lists (text : List Char) (name : String) (operands : List (List Char)) : Prop :=
  text = Instruction.line name operands ∧ operands ≠ [] ∧ ∀ t ∈ name.toList :: operands, IsToken t

section Lists

variable {text : List Char} (h : Lists text name operands)
include h

theorem Lists.ne_nil : text ≠ [] := by
  rw [h.1]
  simp [Instruction.line]

theorem Lists.trim : trim text = text := by
  obtain ⟨rfl, some, tokens⟩ := h
  have cleaned := clean_line tokens some
  rwa [clean, cut_of_not_mem (marks_not_mem_line tokens).1] at cleaned

/-- Such a line is an instruction text and nothing else. -/
theorem Lists.split : splitLabel (clean text) = .ok (none, text) := by
  obtain ⟨rfl, some, tokens⟩ := h
  rw [clean_line tokens some, splitLabel_line tokens]

end Lists

end PocketMips.Assembly
