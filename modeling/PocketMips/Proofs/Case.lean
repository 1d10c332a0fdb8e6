import PocketMips.Proofs.MemoryOperand

/-!
# The case of letters

Folding a text changes neither where it is trimmed and cut nor which fields it has. Mnemonics, registers and
numbers are read from folded texts, so instruction texts that are folded alike have the same word. The one
exception is the target of a branch or a jump, which may be a label.
-/
namespace PocketMips

/-! ## Folded texts -/

namespace Text

variable {sep : Char → Bool} {mark c : Char} {cs : List Char}

theorem toLower_of_not_ascii (h : ¬c.toNat < 128) : c.toLower = c := dif_neg fun ⟨_, le⟩ => by
  have le : c.toNat ≤ 90 := le
  omega

/-- Folding keeps what is the same for a letter in both cases. -/
theorem class_foldLetter {α : Type} (p : Char → α) (kelvin : p 'k' = p '\u212a')
    (ascii : ∀ n < 128, p (foldLetter (.ofNat n)) = p (.ofNat n)) (c : Char) : p (foldLetter c) = p c := by
  by_cases small : c.toNat < 128
  · exact forall_ascii c small ascii
  · by_cases sign : c = '\u212a'
    · rw [sign]
      exact kelvin
    · rw [foldLetter, if_neg sign, toLower_of_not_ascii small]

/-- Texts that differ in the case of their letters are folded alike. -/
theorem fold_of_toLower {text text' : List Char} (same : text.map Char.toLower = text'.map Char.toLower) :
    fold text = fold text' := by
  have through (cs : List Char) : fold cs = fold (cs.map Char.toLower) := by
    simp only [fold, List.map_map]
    refine List.map_congr_left fun c _ => ?_
    rw [Function.comp_apply]
    by_cases small : c.toNat < 128
    · exact forall_ascii c small (by decide +kernel)
    · rw [toLower_of_not_ascii small]
  rw [through text, same, ← through]

theorem isBlank_foldLetter (c : Char) : isBlank (foldLetter c) = isBlank c :=
  class_foldLetter isBlank (by decide) (by decide +kernel) c

theorem dropWhile_fold {p : Char → Bool} (keeps : ∀ c, p (foldLetter c) = p c) (cs : List Char) :
    (fold cs).dropWhile p = fold (cs.dropWhile p) := by
  have same : p ∘ foldLetter = p := funext keeps
  rw [fold, List.dropWhile_map, same, fold]

theorem takeWhile_fold {p : Char → Bool} (keeps : ∀ c, p (foldLetter c) = p c) (cs : List Char) :
    (fold cs).takeWhile p = fold (cs.takeWhile p) := by
  have same : p ∘ foldLetter = p := funext keeps
  rw [fold, List.takeWhile_map, same, fold]

theorem trim_fold (cs : List Char) : trim (fold cs) = fold (trim cs) := by
  have reversed (cs : List Char) : (fold cs).reverse = fold cs.reverse := List.map_reverse.symm
  rw [trim, dropWhile_fold isBlank_foldLetter, dropEnd, reversed, dropWhile_fold isBlank_foldLetter, reversed]
  rfl

/-- The marks of an instruction text are folded to themselves, and nothing else is. -/
theorem foldLetter_eq_mark (mem : mark ∈ ['$', '(', ')', ':', '#']) (c : Char) :
    foldLetter c = mark ↔ c = mark := by
  have same : decide (foldLetter c = mark) = decide (c = mark) := by
    revert c
    simp only [List.mem_cons, List.not_mem_nil, or_false] at mem
    rcases mem with rfl | rfl | rfl | rfl | rfl
    all_goals exact class_foldLetter (fun c => decide (c = _)) (by decide) (by decide +kernel)
  simpa using same

theorem mem_fold_iff (mem : mark ∈ ['$', '(', ')', ':', '#']) : mark ∈ fold cs ↔ mark ∈ cs := by
  simp only [fold, List.mem_map, foldLetter_eq_mark mem, exists_eq_right]

theorem cut_fold (mem : mark ∈ ['$', '(', ')', ':', '#']) (cs : List Char) :
    cut mark (fold cs) = (fold (cut mark cs).1, (cut mark cs).2.map fold) := by
  induction cs with
  | nil => rfl
  | cons c cs ih =>
    rw [fold_cons, cut, cut, ih]
    by_cases h : c = mark
    · rw [if_pos h, if_pos ((foldLetter_eq_mark mem c).mpr h)]
      rfl
    · rw [if_neg h, if_neg (mt (foldLetter_eq_mark mem c).mp h)]
      rfl

theorem fields_fold (keeps : ∀ c, sep (foldLetter c) = sep c) (cs : List Char) :
    fields sep (fold cs) = (fields sep cs).map fold := by
  have pieces : (fold cs).splitOnP sep = (cs.splitOnP sep).map fold := by
    induction cs with
    | nil => rfl
    | cons c cs ih =>
      obtain ⟨first, others, split⟩ := List.exists_cons_of_ne_nil (List.splitOnP_ne_nil sep cs)
      rw [fold_cons, List.splitOnP_cons_eq_if_modifyHead, List.splitOnP_cons_eq_if_modifyHead, keeps, ih, split]
      split <;> rfl
  have nonempty : (fun piece : List Char => decide (piece ≠ [])) ∘ fold = fun piece => decide (piece ≠ []) := by
    funext piece
    simp [fold]
  rw [fields, pieces, List.filter_map, nonempty, fields]

end Text

/-! ## Operands -/

namespace Assembly

open Number Text

variable {labels : Labels} {address i : Int} {op : Operation} {w : Word} {r : Register}
  {a b text text' : List Char} {operands operands' : List (List Char)}

theorem unmarked_fold (cs : List Char) : unmarked (fold cs) = fold (unmarked cs) := by
  cases cs with
  | nil => rfl
  | cons c cs =>
    by_cases mark : c = '$'
    · subst mark
      rfl
    · have other : foldLetter c ≠ '$' := mt (foldLetter_eq_mark (by decide) c).mp mark
      simp [unmarked, mark, other]

/-- A register is read from its folded token. -/
theorem register_of_fold (same : fold a = fold b) (h : register a = .ok r) : register b = .ok r := by
  have name : fold (unmarked (trim a)) = fold (unmarked (trim b)) := by
    rw [← unmarked_fold, ← trim_fold, same, trim_fold, unmarked_fold]
  unfold register at h ⊢
  rw [← name]
  dsimp only at h ⊢
  split at h
  · rename_i digits
    rw [if_pos digits]
    split at h
    · split at h
      · simp_all
      · cases h
    · cases h
  · rename_i others
    rw [if_neg others]
    split at h
    · simp_all
    · cases h

/-- A number is read from its folded token. -/
theorem number_of_fold (same : fold a = fold b) (h : number a = .ok i) : number b = .ok i := by
  have token : fold (trim a) = fold (trim b) := by rw [← trim_fold, same, trim_fold]
  obtain ⟨negative, body, unsigned⟩ : ∃ negative body, unsign (fold (trim b)) = (negative, body) :=
    ⟨_, _, rfl⟩
  rw [number_eq_bodyAmount? (token ▸ unsigned)] at h
  rw [number_eq_bodyAmount? unsigned]
  cases read : bodyAmount? body with
  | none =>
    rw [read] at h
    cases h
  | some n =>
    rw [read] at h
    exact h

theorem addressParts?_fold (cs : List Char) :
    addressParts? (fold cs) = (addressParts? cs).map fun (offset, base) => (fold offset, fold base) := by
  unfold addressParts?
  rw [cut_fold (by decide)]
  rcases cut '(' cs with ⟨offset, _ | rest⟩
  · rfl
  · simp only [Option.map_some]
    rw [cut_fold (by decide)]
    rcases cut ')' rest with ⟨base, _ | _ | _⟩
    · rfl
    · have opening {cs : List Char} : '(' ∈ fold cs ↔ '(' ∈ cs := mem_fold_iff (by decide)
      have closing {cs : List Char} : ')' ∈ fold cs ↔ ')' ∈ cs := mem_fold_iff (by decide)
      have nonempty : fold base ≠ [] ↔ base ≠ [] := by simp [fold]
      simp only [Option.map_some, fold_nil, opening, closing, nonempty]
      split <;> rfl
    · rfl

theorem offsetOf_of_fold (same : fold a = fold b) (h : offsetOf a = .ok i) : offsetOf b = .ok i := by
  have empty : a = [] ↔ b = [] := by
    rw [← List.map_eq_nil_iff (f := foldLetter), ← List.map_eq_nil_iff (l := b) (f := foldLetter)]
    exact Eq.congr_left same
  unfold offsetOf at h ⊢
  by_cases none : a = []
  · rw [if_pos (empty.mp none)]
    rwa [if_pos none] at h
  · rw [if_neg (mt empty.mpr none)]
    rw [if_neg none] at h
    exact number_of_fold same h

/-! ## Instruction texts -/

theorem exists_one (same : [a].map fold = operands.map fold) : ∃ a', operands = [a'] ∧ fold a = fold a' := by
  obtain ⟨a', rest, rfl, first, same⟩ := List.map_eq_cons_iff.mp same.symm
  cases List.map_eq_nil_iff.mp same
  exact ⟨a', rfl, first.symm⟩

theorem exists_two (same : [a, b].map fold = operands.map fold) :
    ∃ a' b', operands = [a', b'] ∧ fold a = fold a' ∧ fold b = fold b' := by
  obtain ⟨a', rest, rfl, first, same⟩ := List.map_eq_cons_iff.mp same.symm
  obtain ⟨b', rfl, second⟩ := exists_one same.symm
  exact ⟨a', b', rfl, first.symm, second⟩

theorem exists_three {c : List Char} (same : [a, b, c].map fold = operands.map fold) :
    ∃ a' b' c', operands = [a', b', c'] ∧ fold a = fold a' ∧ fold b = fold b' ∧ fold c = fold c' := by
  obtain ⟨a', rest, rfl, first, same⟩ := List.map_eq_cons_iff.mp same.symm
  obtain ⟨b', c', rfl, second, third⟩ := exists_two same.symm
  exact ⟨a', b', c', rfl, first.symm, second, third⟩

theorem encodeR_of_fold {op : ROp} (same : operands.map fold = operands'.map fold)
    (h : encodeR op operands = .ok w) : encodeR op operands' = .ok w := by
  rcases operands with _ | ⟨a, _ | ⟨b, _ | ⟨c, _ | ⟨d, more⟩⟩⟩⟩
  · cases op <;> cases h
  · obtain ⟨a', rfl, first⟩ := exists_one same
    cases op with
    | jr => exact bind_ok_mono (register_of_fold first) id h
    | _ => cases h
  · cases op <;> cases h
  · obtain ⟨a', b', c', rfl, first, second, third⟩ := exists_three same
    rw [encodeR_three] at h ⊢
    refine bind_ok_mono (register_of_fold first) (fun {rd} h => ?_) h
    split at h
    · rename_i shift
      rw [if_pos shift]
      exact bind_ok_mono (register_of_fold second) (bind_ok_mono (number_of_fold third) id) h
    · rename_i plain
      rw [if_neg plain]
      exact bind_ok_mono (register_of_fold second) (bind_ok_mono (register_of_fold third) id) h
  · cases op <;> cases h

theorem encodeAddress_of_fold {op : IOp} {a' b' : List Char} (first : fold a = fold a')
    (second : fold b = fold b') (h : encodeAddress op a b = .ok w) : encodeAddress op a' b' = .ok w := by
  rw [encodeAddress_eq] at h ⊢
  refine bind_ok_mono (register_of_fold first) (fun {rt} h => ?_) h
  split at h
  · cases h
  · rename_i offset base parts
    have folded : addressParts? (fold b') = some (fold offset, fold base) := by
      rw [← second, addressParts?_fold, parts]
      rfl
    rw [addressParts?_fold] at folded
    obtain ⟨⟨offset', base'⟩, parts', same⟩ := Option.map_eq_some_iff.mp folded
    obtain ⟨sameOffset, sameBase⟩ := Prod.mk.inj same
    have trimmed : fold (trim offset) = fold (trim offset') := by
      rw [← trim_fold, ← sameOffset, trim_fold]
    rw [parts']
    exact bind_ok_mono (offsetOf_of_fold trimmed) (bind_ok_mono (register_of_fold sameBase.symm) id) h

/-- The operand of a branch or a jump that may be a label. -/
def targetOperand? (op : Operation) (operands : List (List Char)) : Option (List Char) :=
  match op, operands with
  | .j _, [a] => some a
  | .i op, [_, _, c] => if op.isBranch then some c else none
  | _, _ => none

theorem encodeI_of_fold {op : IOp} (same : operands.map fold = operands'.map fold)
    (targets : targetOperand? (.i op) operands = targetOperand? (.i op) operands')
    (h : encodeI labels address op operands = .ok w) : encodeI labels address op operands' = .ok w := by
  rcases operands with _ | ⟨a, _ | ⟨b, _ | ⟨c, _ | ⟨d, more⟩⟩⟩⟩
  · cases h
  · cases h
  · obtain ⟨a', b', rfl, first, second⟩ := exists_two same
    simp only [encodeI] at h ⊢
    split at h
    · rename_i memory
      rw [if_pos memory]
      exact encodeAddress_of_fold first second h
    · cases h
  · obtain ⟨a', b', c', rfl, first, second, third⟩ := exists_three same
    simp only [encodeI, targetOperand?] at h targets ⊢
    split at h
    · rename_i branch
      rw [if_pos branch, if_pos branch, Option.some.injEq] at targets
      subst targets
      rw [if_pos branch]
      exact bind_ok_mono (register_of_fold first) (bind_ok_mono (register_of_fold second) id) h
    · rename_i plain
      rw [if_neg plain]
      exact bind_ok_mono (register_of_fold first)
        (bind_ok_mono (register_of_fold second) (bind_ok_mono (number_of_fold third) id)) h
  · cases h

theorem encodeJ_of_fold {op : JOp} (same : operands.map fold = operands'.map fold)
    (targets : targetOperand? (.j op) operands = targetOperand? (.j op) operands')
    (h : encodeJ labels op operands = .ok w) : encodeJ labels op operands' = .ok w := by
  rcases operands with _ | ⟨a, _ | ⟨b, more⟩⟩
  · cases h
  · obtain ⟨a', rfl, -⟩ := exists_one same
    cases targets
    exact h
  · cases h

theorem map_fold_joinAddress (op : Operation) (operands : List (List Char)) :
    (joinAddress op operands).map fold = joinAddress op (operands.map fold) := by
  rcases operands with _ | ⟨a, _ | ⟨b, _ | ⟨c, more⟩⟩⟩
  · cases op <;> rfl
  · cases op <;> rfl
  · cases op <;> rfl
  · cases op with
    | r op | j op => rfl
    | i op =>
      have flat : fold (b :: c :: more).flatten = ((b :: c :: more).map fold).flatten := List.map_flatten
      simp only [joinAddress, List.map_cons]
      split
      · exact congrArg (fun second => [fold a, second]) flat
      · rfl

/-- The operand of an instruction text that may be a label. -/
def targetOf? (text : List Char) : Option (List Char) :=
  (instruction? text).bind fun (op, operands) => targetOperand? op operands

theorem tokens_fold (text : List Char) :
    tokens (fold text) = (fold (tokens text).1, (tokens text).2.map fold) := by
  have word (c : Char) : (!isBlank (foldLetter c)) = !isBlank c := by rw [isBlank_foldLetter]
  have separator (c : Char) : isSeparator (foldLetter c) = isSeparator c :=
    class_foldLetter isSeparator (by decide) (by decide +kernel) c
  rw [tokens_eq, tokens_eq, takeWhile_fold word, dropWhile_fold word, fields_fold separator]

/-- Instruction texts that are folded alike and have the same target have the same word. -/
theorem encode_of_fold (same : fold text = fold text') (targets : targetOf? text = targetOf? text')
    (h : encode labels address text = .ok w) : encode labels address text' = .ok w := by
  have folded := tokens_fold text
  rw [same, tokens_fold] at folded
  obtain ⟨names, fields⟩ := Prod.mk.inj folded
  obtain ⟨op, operands, instr, count, made⟩ := encode_eq_ok h
  obtain ⟨op', named, joined⟩ := Option.map_eq_some_iff.mp instr
  obtain ⟨rfl, rfl⟩ := Prod.mk.inj joined
  have instr' : instruction? text' = some (op', joinAddress op' (tokens text').2) := by
    rw [instruction?, names, named, Option.map_some]
  have alike : (joinAddress op' (tokens text).2).map fold = (joinAddress op' (tokens text').2).map fold := by
    rw [map_fold_joinAddress, ← fields, map_fold_joinAddress]
  have count' : (joinAddress op' (tokens text').2).length = operandCount op' := by
    rw [← count, ← List.length_map fold, ← alike, List.length_map]
  simp only [targetOf?, instr, instr', Option.bind_some] at targets
  rw [encode_of_instruction? instr' count']
  cases op' with
  | r op => exact encodeR_of_fold alike made
  | i op => exact encodeI_of_fold alike targets made
  | j op => exact encodeJ_of_fold alike targets made

end Assembly

end PocketMips
