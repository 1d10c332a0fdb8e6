import PocketMips.Proofs.Rejection

/-!
# Positions in the source

The passes of an assembly agree on every address: the words are those of the lines that hold an instruction
text, each at its place, and a label stands for the place of the first word behind it. An assembly that
rejects its source tells the first line that is wrong, those with a wrong label before all others.
-/
namespace PocketMips.Assembly

open Text

variable {labels labels' : Labels} {index : Nat} {base a : Int} {line name : List Char}
  {lines : List (List Char)} {ws : List Word} {e : Error}

/-! ## Words and labels -/

/-- The lines that hold an instruction text. -/
def coded (lines : List (List Char)) : List (List Char) := lines.filter (body · ≠ [])

theorem texts_eq_map (lines : List (List Char)) : texts lines = (coded lines).map body := by
  rw [texts, coded, List.filter_map]
  rfl

theorem length_texts (lines : List (List Char)) : (texts lines).length = (coded lines).length := by
  rw [texts_eq_map, List.length_map]

theorem names_bound (a : Int) (lines : List (List Char)) :
    (bound a lines).map (·.1) = lines.filterMap label? := by
  induction lines generalizing a with
  | nil => rfl
  | cons line lines ih =>
    rw [bound, List.filterMap_cons]
    cases label? line with
    | none => exact ih _
    | some name => exact congrArg (name :: ·) (ih _)

/-- The instruction text behind the first lines is that of the first line from there on that holds one. -/
theorem getElem?_coded (lines : List (List Char)) (i : Nat) :
    (coded lines)[(coded (lines.take i)).length]? = (lines.drop i).find? (body · ≠ []) := by
  have parts : coded lines = coded (lines.take i) ++ coded (lines.drop i) := by
    rw [coded, coded, coded, ← List.filter_append, List.take_append_drop]
  rw [parts, List.getElem?_append_right (Nat.le_refl _), Nat.sub_self, ← List.head?_eq_getElem?, coded,
    List.head?_filter]

/-- A word is that of the line at its place among those with an instruction text. -/
theorem Encodes.line_of_word (encodes : Encodes labels a (texts lines) ws) {k : Nat} {w : Word}
    (word : ws[k]? = some w) :
    ∃ line, (coded lines)[k]? = some line ∧ encode labels (a + 4 * k) (body line) = .ok w := by
  obtain ⟨lt, -⟩ := List.getElem?_eq_some_iff.mp word
  rw [encodes.length_eq, length_texts] at lt
  have text : (texts lines)[k]? = some (body (coded lines)[k]) := by
    rw [texts_eq_map, List.getElem?_map, List.getElem?_eq_getElem lt]
    rfl
  obtain ⟨w', word', made⟩ := encodes.getElem? text
  rw [word] at word'
  cases word'
  exact ⟨_, List.getElem?_eq_getElem lt, made⟩

/-- **Both passes agree on every address.** In an assembled program every line is well formed. There are as
many words as lines with an instruction text, and each is the word of its line, four behind the word before
it, under the labels of the whole program. These are the labels in front of the lines, each once; a label
stands for the address behind the words of the lines before its own, and a word there is that of the first
line from the label on with an instruction text. -/
theorem passes_agree {source : Source} (assembled : assemble base source = (labels, .ok ws)) :
    (∀ line ∈ source.toLines, WellFormed line) ∧
      ws.length = (coded source.toLines).length ∧
      (∀ (k : Nat) w, ws[k]? = some w → ∃ line, (coded source.toLines)[k]? = some line ∧
        encode labels (base + 4 * k) (body line) = .ok w) ∧
      labels.map (·.1) = source.toLines.filterMap label? ∧ (labels.map (·.1)).Nodup ∧
      ∀ (i : Nat) line name, source.toLines[i]? = some line → label? line = some name →
        let k := (coded (source.toLines.take i)).length
        labels.address? name = some (base + 4 * k) ∧
          ∀ w, ws[k]? = some w → ∃ first, (source.toLines.drop i).find? (body · ≠ []) = some first ∧
            encode labels (base + 4 * k) (body first) = .ok w := by
  obtain ⟨formed, nodup, rfl, encodes⟩ := assembleLines_eq_ok_iff.mp assembled
  refine ⟨formed, ?_, fun k w => encodes.line_of_word, names_bound _ _, nodup, ?_⟩
  · rw [encodes.length_eq, length_texts]
  · intro i line name found label
    refine ⟨?_, ?_⟩
    · rw [← length_texts]
      exact (address?_of_assembleLines assembled).mpr ⟨i, line, found, label, rfl⟩
    · intro w word
      obtain ⟨first, at_, made⟩ := encodes.line_of_word word
      exact ⟨first, (getElem?_coded _ i).symm.trans at_, made⟩

/-- Two labels before one instruction, between comments and blank lines, and one behind all of them. -/
def layered : Source :=
  .lines ["# counts down".toList, "main:".toList, "".toList, "loop: addi $t0, $t0, -1 # down".toList,
    "  bne $t0, $zero, main".toList, "end:".toList]

theorem layered_passes_agree :
    ∃ labels ws, assemble 64 layered = (labels, .ok ws) ∧ ws.length = 2 ∧
      labels.address? "main".toList = some 64 ∧ labels.address? "loop".toList = some 64 ∧
      labels.address? "end".toList = some 72 ∧
      encode labels 64 "addi $t0, $t0, -1".toList = .ok 0x2108FFFF ∧ ws[0]? = some 0x2108FFFF := by
  have assembled : assemble 64 layered =
      ([("main".toList, 64), ("loop".toList, 64), ("end".toList, 72)], .ok [0x2108FFFF, 0x1500FFFE]) := by
    decide +kernel
  obtain ⟨-, length, -, -, -, places⟩ := passes_agree assembled
  obtain ⟨main, word⟩ := places 1 "main:".toList _ rfl rfl
  obtain ⟨first, next, made⟩ := word _ rfl
  have first_eq : first = "loop: addi $t0, $t0, -1 # down".toList := by
    cases next
    rfl
  subst first_eq
  exact ⟨_, _, assembled, rfl, main, (places 3 _ _ rfl rfl).1, (places 5 _ _ rfl rfl).1, made, rfl⟩

/-! ## The line that is told -/

/-- The label in front of the line is no name, or one that is known already. -/
inductive Misbinds (known : List (List Char)) (line : List Char) : Error → Prop
  | malformed {label : List Char} : splitLabel (clean line) = reject (.invalidLabel label) →
    Misbinds known line (.rejected (.invalidLabel label) none)
  | duplicate {name : List Char} : label? line = some name → name ∈ known →
    Misbinds known line (.rejected (.duplicateLabel name) none)

/-- The line, behind lines placed at a base, holds an instruction text without a word. -/
def Refuses (labels : Labels) (base : Int) (before : List (List Char)) (line : List Char) (e : Error) : Prop :=
  body line ≠ [] ∧ encode labels (base + 4 * (texts before).length) (body line) = .error e

/-- The line with an index is the first one that is wrong, where the lines before a line decide with it. -/
structure FirstWrong (wrong : List (List Char) → List Char → Error → Prop) (lines : List (List Char))
    (i : Nat) (line : List Char) (e : Error) : Prop where
  found : lines[i]? = some line
  isWrong : wrong (lines.take i) line e
  first : ∀ j < i, ∀ earlier, lines[j]? = some earlier → ∀ e', ¬wrong (lines.take j) earlier e'

section FirstWrong

variable {wrong : List (List Char) → List Char → Error → Prop} {i : Nat} {other : List Char}

theorem FirstWrong.head (isWrong : wrong [] line e) : FirstWrong wrong (line :: lines) 0 line e :=
  ⟨rfl, isWrong, fun _ lt => absurd lt (Nat.not_lt_zero _)⟩

theorem FirstWrong.tail (right : ∀ e', ¬wrong [] line e')
    (h : FirstWrong (fun before => wrong (line :: before)) lines i other e) :
    FirstWrong wrong (line :: lines) (i + 1) other e := by
  refine ⟨h.found, h.isWrong, ?_⟩
  rintro (_ | j) lt earlier found
  · cases found
    exact right
  · exact h.first j (Nat.lt_of_succ_lt_succ lt) earlier found

end FirstWrong

theorem splitLabel_eq_error {text : List Char} (split : splitLabel text = .error e) :
    ∃ label, e = .rejected (.invalidLabel label) none := by
  unfold splitLabel at split
  split at split
  · cases split
  · dsimp only at split
    split at split <;> cases split
    exact ⟨_, rfl⟩

theorem not_misbinds {known : List (List Char)} (formed : WellFormed line)
    (fresh : ∀ name, label? line = some name → name ∉ known) : ¬Misbinds known line e := by
  rintro (split | ⟨label, old⟩)
  · exact (malformed_of_error split).1 formed
  · exact fresh _ label old

/-- A first pass that fails has bound the labels before the first line with a wrong one. -/
theorem firstWrong_of_bindFrom (h : bindFrom labels index a lines = (labels', .error e)) :
    ∃ i line e₀, FirstWrong (fun before => Misbinds (labels.map (·.1) ++ before.filterMap label?))
        lines i line e₀ ∧
      e = e₀.locate (placeOf (index + i) line) ∧ labels' = labels ++ bound a (lines.take i) := by
  -- The names of the labels bound so far stand for the lines before those that are left.
  induction lines generalizing labels index a with
  | nil => cases h
  | cons line lines ih =>
    cases split : splitLabel (clean line) with
    | error e₀ =>
      rw [bindFrom_of_error split] at h
      cases h
      obtain ⟨label, rfl⟩ := splitLabel_eq_error split
      exact ⟨0, line, _, .head (.malformed split), rfl, (List.append_nil _).symm⟩
    | ok parts =>
      have formed : WellFormed line := ⟨parts, split⟩
      have at_ (i : Nat) : index + 1 + i = index + (i + 1) := by omega
      cases label : label? line with
      | none =>
        rw [bindFrom_of_unlabelled formed label] at h
        obtain ⟨i, other, e₀, first, rfl, rfl⟩ := ih h
        refine ⟨i + 1, other, e₀, .tail (fun _ => not_misbinds formed ?_) ?_, by rw [at_], ?_⟩
        · intro name label'
          rw [label] at label'
          cases label'
        · simpa only [List.filterMap_cons, label] using first
        · rw [List.take_succ_cons, bound, label]
      | some name =>
        rw [bindFrom_of_labelled formed label] at h
        split at h
        · rename_i old
          have known : name ∈ labels.map (·.1) ++ [].filterMap label? :=
            List.mem_append_left _ (isSome_address?_iff.mp old)
          cases h
          exact ⟨0, line, _, .head (.duplicate label known), rfl, (List.append_nil _).symm⟩
        · rename_i new
          obtain ⟨i, other, e₀, first, rfl, rfl⟩ := ih h
          refine ⟨i + 1, other, e₀, .tail (fun _ => not_misbinds formed ?_) ?_, by rw [at_], ?_⟩
          · intro name' label' known
            rw [label] at label'
            cases label'
            rw [List.filterMap_nil, List.append_nil] at known
            exact new (isSome_address?_iff.mpr known)
          · simpa only [List.filterMap_cons, label, List.map_append, List.map_cons, List.map_nil,
              List.append_assoc, List.singleton_append] using first
          · rw [List.take_succ_cons, bound, label, List.append_assoc, List.singleton_append]

/-- The first pass succeeds with the labels of the lines if they are proper ones and no two are the same. -/
theorem bindLabels_eq_ok_iff :
    bindLabels base lines = (labels, .ok ()) ↔ (∀ line ∈ lines, WellFormed line) ∧
      ((bound base lines).map (·.1)).Nodup ∧ labels = bound base lines :=
  bindFrom_eq_ok_iff List.nodup_nil

/-- After a first pass that succeeds no line has a wrong label. -/
theorem not_misbinds_of_bindLabels (h : bindLabels base lines = (labels, .ok ())) {i : Nat}
    (found : lines[i]? = some line) : ¬Misbinds ((lines.take i).filterMap label?) line e := by
  obtain ⟨formed, nodup, -⟩ := bindLabels_eq_ok_iff.mp h
  rw [names_bound] at nodup
  obtain ⟨lt, rfl⟩ := List.getElem?_eq_some_iff.mp found
  refine not_misbinds (formed _ (List.getElem_mem lt)) fun name label old => ?_
  rw [← List.take_append_drop i lines, List.drop_eq_getElem_cons lt, List.filterMap_append,
    List.filterMap_cons, label] at nodup
  exact (List.nodup_append.mp nodup).2.2 name old name List.mem_cons_self rfl

/-- A second pass that fails has met the first instruction text without a word. -/
theorem firstWrong_of_encodeFrom (formed : ∀ line ∈ lines, WellFormed line)
    (h : encodeFrom labels index a lines = .error e) :
    ∃ i line e₀, FirstWrong (Refuses labels a) lines i line e₀ ∧
      e = e₀.locate (placeOf (index + i) line) := by
  induction lines generalizing index a with
  | nil => cases h
  | cons line lines ih =>
    rw [List.forall_mem_cons] at formed
    have at_ (i : Nat) : index + 1 + i = index + (i + 1) := by omega
    by_cases empty : body line = []
    · rw [encodeFrom_of_empty formed.1 empty] at h
      obtain ⟨i, other, e₀, first, rfl⟩ := ih formed.2 h
      refine ⟨i + 1, other, e₀, .tail (fun _ refused => refused.1 empty) ?_, by rw [at_]⟩
      have same : (fun before => Refuses labels a (line :: before)) = Refuses labels a := by
        funext before
        unfold Refuses
        rw [texts_cons, if_pos empty]
      rwa [same]
    · rw [encodeFrom_of_text formed.1 empty] at h
      have place : a + 4 * ((texts []).length : Int) = a := Int.add_zero a
      rcases bind_eq_error.mp h with bad | ⟨w, made, rest⟩
      · obtain ⟨e₀, refused, rfl⟩ := mapError_eq_error.mp bad
        refine ⟨0, line, e₀, .head ⟨empty, ?_⟩, rfl⟩
        rw [place]
        exact refused
      · obtain ⟨i, other, e₀, first, rfl⟩ := ih formed.2 (map_eq_error.mp rest)
        refine ⟨i + 1, other, e₀, .tail ?_ ?_, by rw [at_]⟩
        · rintro e' ⟨-, refused⟩
          rw [place, mapError_eq_ok.mp made] at refused
          cases refused
        · have same : (fun before => Refuses labels a (line :: before)) = Refuses labels (a + 4) := by
            funext before
            unfold Refuses
            have next : a + 4 * ((texts (line :: before)).length : Int) =
                a + 4 + 4 * (texts before).length := by
              rw [texts_cons, if_neg empty, List.length_cons]
              omega
            rw [next]
          rwa [same]

theorem eq_of_locate {cause : Cause} {place : Option Place} {p : Place}
    (h : .rejected cause place = e.locate p) : (∃ q, e = .rejected cause q) ∧ place = some p := by
  cases e with
  | rejected cause' q =>
    cases h
    exact ⟨⟨q, rfl⟩, rfl⟩
  | literal => cases h

/-- **The line that is told.** A rejected source is told by the number, counted from one, and the text,
without the blanks around it, of its first line that is wrong. If a line has a malformed label or one of an
earlier line, the first such line is told, whatever is wrong with the instructions, and the labels before
it are bound. Otherwise it is the first line whose instruction text has no word at its address under the
labels of all lines, and these are bound. -/
theorem rejection_tells_first_line {source : Source} {cause : Cause} {place : Option Place}
    (failed : assemble base source = (labels, .error (.rejected cause place))) :
    ((∃ i line e, source.toLines[i]? = some line ∧
          Misbinds ((source.toLines.take i).filterMap label?) line e) →
        ∃ i line q, FirstWrong (fun before => Misbinds (before.filterMap label?)) source.toLines i line
            (.rejected cause q) ∧
          place = some ⟨i + 1, trim line⟩ ∧ labels = bound base (source.toLines.take i)) ∧
      ((¬∃ i line e, source.toLines[i]? = some line ∧
          Misbinds ((source.toLines.take i).filterMap label?) line e) →
        ∃ i line q, FirstWrong (Refuses (bound base source.toLines) base) source.toLines i line
            (.rejected cause q) ∧
          place = some ⟨i + 1, trim line⟩ ∧ labels = bound base source.toLines) := by
  unfold assemble assembleLines at failed
  split at failed
  · rename_i bound
    cases failed
    obtain ⟨i, line, e₀, first, located, bound⟩ := firstWrong_of_bindFrom bound
    rw [Nat.zero_add] at located
    obtain ⟨⟨q, rfl⟩, told⟩ := eq_of_locate located
    exact ⟨fun _ => ⟨i, line, q, first, told, bound⟩,
      fun none => absurd ⟨i, line, _, first.found, first.isWrong⟩ none⟩
  · rename_i first
    obtain ⟨rfl, met⟩ := Prod.mk.inj failed
    refine ⟨fun ⟨i, line, e, found, misbinds⟩ => absurd misbinds (not_misbinds_of_bindLabels first found),
      fun _ => ?_⟩
    obtain ⟨formed, -, rfl⟩ := bindLabels_eq_ok_iff.mp first
    obtain ⟨i, line, e₀, first, located⟩ := firstWrong_of_encodeFrom formed met
    rw [Nat.zero_add] at located
    obtain ⟨⟨q, rfl⟩, told⟩ := eq_of_locate located
    exact ⟨i, line, q, first, told, rfl⟩

/-- An unknown instruction before a label that is bound twice, and a malformed one behind it. -/
def clashing : Source :=
  .lines ["one:".toList, "halt".toList, "  one: jr $ra # again ".toList, "2: jr $ra".toList]

/-- Two instructions that are wrong before a label. -/
def halting : Source := .lines ["jr $ra".toList, "\thalt # here".toList, "jr".toList, "end:".toList]

theorem first_lines_told :
    (assemble 8 clashing = ([("one".toList, 8)],
        .error (.rejected (.duplicateLabel "one".toList) (some ⟨3, "one: jr $ra # again".toList⟩))) ∧
      ∃ line q, FirstWrong (fun before => Misbinds (before.filterMap label?)) clashing.toLines 2 line
        (.rejected (.duplicateLabel "one".toList) q)) ∧
    assemble 8 halting = ([("end".toList, 20)],
        .error (.rejected (.unknownInstruction "halt".toList) (some ⟨2, "halt # here".toList⟩))) ∧
      ∃ line q, FirstWrong (Refuses [("end".toList, 20)] 8) halting.toLines 1 line
        (.rejected (.unknownInstruction "halt".toList) q) := by
  have clash : assemble 8 clashing = ([("one".toList, 8)],
      .error (.rejected (.duplicateLabel "one".toList) (some ⟨3, "one: jr $ra # again".toList⟩))) := by
    decide +kernel
  have halt : assemble 8 halting = ([("end".toList, 20)],
      .error (.rejected (.unknownInstruction "halt".toList) (some ⟨2, "halt # here".toList⟩))) := by
    decide +kernel
  have proper : bindLabels 8 halting.toLines = ([("end".toList, 20)], .ok ()) := by decide +kernel
  refine ⟨⟨clash, ?_⟩, halt, ?_⟩
  · obtain ⟨i, line, q, first, told, -⟩ := (rejection_tells_first_line clash).1
      ⟨2, _, .rejected (.duplicateLabel "one".toList) none, rfl, .duplicate rfl (by decide)⟩
    obtain ⟨number, -⟩ := Place.mk.inj (Option.some.inj told)
    obtain rfl : i = 2 := by omega
    exact ⟨line, q, first⟩
  · obtain ⟨i, line, q, first, told, bound⟩ := (rejection_tells_first_line halt).2
      fun ⟨i, line, e, found, misbinds⟩ => not_misbinds_of_bindLabels proper found misbinds
    obtain ⟨number, -⟩ := Place.mk.inj (Option.some.inj told)
    obtain rfl : i = 1 := by omega
    rw [← bound] at first
    exact ⟨line, q, first⟩

end PocketMips.Assembly
