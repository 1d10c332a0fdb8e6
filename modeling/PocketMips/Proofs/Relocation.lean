import PocketMips.Proofs.Positions
import PocketMips.Proofs.Target

/-!
# Sources at another base

If a source is assembled at a base that is a multiple of four further on, its labels move with it and its words
stay as they are, but for the jumps to labels: their targets move by as many words. The passes are followed line
by line, so a source is rejected at both bases or at none, with the same error.
-/
namespace PocketMips.Assembly

open Text

variable {labels : Labels} {base base' d k : Int}

/-! ## Labels and targets -/

/-- The labels at addresses further on. -/
def moved (d : Int) (labels : Labels) : Labels := labels.map fun (name, l) => (name, l + d)

theorem address?_moved (labels : Labels) (name : List Char) :
    (moved d labels).address? name = (labels.address? name).map (· + d) := by
  rw [moved, Labels.address?, List.find?_map, Option.map_map, Labels.address?, Option.map_map]
  rfl

theorem next_add (a d : Int) (line : List Char) : next (a + d) line = next a line + d := by
  unfold next
  split <;> omega

/-- A target among labels that have moved is what the place it had stands for now. -/
theorem target_moved (labels : Labels) (token : List Char) (ofAddress : Int → Int) :
    target (moved d labels) token ofAddress = target labels token fun l => ofAddress (l + d) := by
  rw [target, address?_moved, target]
  cases labels.address? token <;> rfl

/-- Among labels the address of a target in words moves with them, and a number stays. -/
theorem target_add_words (named : ∀ p ∈ labels, isLabel p.1 = true) (token : List Char) (k : Int) :
    (target labels token fun l => (l + 4 * k) / 4) =
      (target labels token (· / 4)).map fun field => if isLabel token then field + k else field := by
  cases found : labels.address? token with
  | some l =>
    rw [target_of_label found, target_of_label found]
    have words : (l + 4 * k) / 4 = l / 4 + k := by omega
    exact congrArg Except.ok (words.trans (if_pos (isLabel_of_address? named found)).symm)
  | none =>
    simp only [target, found]
    split
    · rfl
    · cases number token <;> rfl

/-! ## Words -/

/-- The jump by a word to a target so many words further on. -/
def retarget (k : Int) (w : Word) : Word :=
  Instruction.opcodeOf w ++ (w.extractLsb' 0 26 + BitVec.ofInt 26 k)

/-- Whether the text is a jump to a label. -/
def jumpsToLabel (text : List Char) : Bool :=
  match instruction? text with
  | some (.j _, [token]) => isLabel token
  | _ => false

theorem jumpsToLabel_iff {text : List Char} : jumpsToLabel text = true ↔
    ∃ op name, instruction? text = some (.j op, [name]) ∧ isLabel name = true := by
  unfold jumpsToLabel
  constructor
  · intro h
    split at h
    · rename_i op name jump
      exact ⟨op, name, jump, h⟩
    · cases h
  · rintro ⟨op, name, jump, named⟩
    rw [jump]
    exact named

/-- The word of a text if the program is so many words further on. -/
def relocate (k : Int) (text : List Char) (w : Word) : Word := if jumpsToLabel text then retarget k w else w

theorem fields_retarget (k : Int) (w : Word) : Instruction.opcodeOf (retarget k w) = Instruction.opcodeOf w ∧
    (retarget k w).extractLsb' 0 26 = w.extractLsb' 0 26 + BitVec.ofInt 26 k :=
  Instruction.fields_j _ _ _ rfl

theorem retarget_encodeJ (opcode field : Int) :
    retarget k (Instruction.encodeJ opcode field) = Instruction.encodeJ opcode (field + k) := by
  obtain ⟨code, target⟩ := Instruction.fields_j _ _ (Instruction.encodeJ opcode field) rfl
  rw [retarget, Instruction.opcodeOf, code, target, Instruction.encodeJ, BitVec.ofInt_add]

/-- The distance of a branch stays, and the target of a jump moves if it is a label. -/
theorem encode_moved (named : ∀ p ∈ labels, isLabel p.1 = true) (a : Int) (text : List Char) :
    encode (moved (4 * k) labels) (a + 4 * k) text = (encode labels a text).map (relocate k text) := by
  have stays (notJump : ∀ op token, instruction? text ≠ some (.j op, [token])) :
      (encode labels a text).map (relocate k text) = encode labels a text := by
    have plain : ¬jumpsToLabel text = true := fun jumps =>
      have ⟨op, token, jump, _⟩ := jumpsToLabel_iff.mp jumps
      notJump op token jump
    have same : relocate k text = id := funext fun w => if_neg plain
    rw [same]
    exact congrFun Except.map_id _
  cases depends text with
  | never notJump same => rw [stays notJump, same]
  | onDistance notJump word =>
    have distance (l : Int) : (l + 4 * k - (a + 4 * k + 4)) / 4 = (l - (a + 4)) / 4 := by omega
    rw [stays notJump, word, word, target_moved]
    simp only [distance]
  | @onAddress op token jump word =>
    have jumps : jumpsToLabel text = isLabel token := by rw [jumpsToLabel, jump]
    rw [word, word, target_moved, target_add_words named]
    cases target labels token (· / 4) with
    | error e => rfl
    | ok field =>
      refine congrArg Except.ok ?_
      rw [relocate, jumps]
      split
      · exact (retarget_encodeJ _ _).symm
      · rfl

/-! ## The passes -/

theorem bindFrom_moved (labels : Labels) (index : Nat) (a : Int) (lines : List (List Char)) :
    bindFrom (moved d labels) index (a + d) lines =
      (moved d (bindFrom labels index a lines).1, (bindFrom labels index a lines).2) := by
  induction lines generalizing labels index a with
  | nil => rfl
  | cons line lines ih =>
    cases split : splitLabel (clean line) with
    | error e => rw [bindFrom_of_error split, bindFrom_of_error split]
    | ok parts =>
      have formed : WellFormed line := ⟨parts, split⟩
      cases label : label? line with
      | none => rw [bindFrom_of_unlabelled formed label, bindFrom_of_unlabelled formed label, next_add, ih]
      | some name =>
        have added : moved d labels ++ [(name, a + d)] = moved d (labels ++ [(name, a)]) := by
          rw [moved, moved, List.map_append]
          rfl
        rw [bindFrom_of_labelled formed label, bindFrom_of_labelled formed label, address?_moved,
          Option.isSome_map, next_add, added, ih]
        split <;> rfl

theorem encodeFrom_moved (named : ∀ p ∈ labels, isLabel p.1 = true) (index : Nat) (a : Int)
    (lines : List (List Char)) :
    encodeFrom (moved (4 * k) labels) index (a + 4 * k) lines =
      (encodeFrom labels index a lines).map (List.zipWith (relocate k) (texts lines)) := by
  induction lines generalizing index a with
  | nil => rfl
  | cons line lines ih =>
    cases split : splitLabel (clean line) with
    | error e =>
      rw [encodeFrom_of_error split, encodeFrom_of_error split]
      rfl
    | ok parts =>
      have formed : WellFormed line := ⟨parts, split⟩
      rw [texts_cons]
      by_cases empty : body line = []
      · rw [encodeFrom_of_empty formed empty, encodeFrom_of_empty formed empty, if_pos empty, ih]
      · have behind : a + 4 * k + 4 = a + 4 + 4 * k := by omega
        rw [encodeFrom_of_text formed empty, encodeFrom_of_text formed empty, if_neg empty,
          encode_moved named, behind, ih]
        cases encode labels a (body line) with
        | error e => rfl
        | ok w => cases encodeFrom labels (index + 1) (a + 4) lines <;> rfl

/-- A source that is assembled so many words further on. -/
theorem assemble_moved (base k : Int) (source : Source) : assemble (base + 4 * k) source =
    (moved (4 * k) (assemble base source).1,
      (assemble base source).2.map (List.zipWith (relocate k) (texts source.toLines))) := by
  have first : bindLabels (base + 4 * k) source.toLines =
      (moved (4 * k) (bindLabels base source.toLines).1, (bindLabels base source.toLines).2) :=
    bindFrom_moved [] 0 base source.toLines
  unfold assemble assembleLines
  rw [first]
  cases bound : bindLabels base source.toLines with
  | mk labels result =>
    cases result with
    | error e => rfl
    | ok =>
      obtain ⟨-, -, rfl⟩ := bindLabels_eq_ok_iff.mp bound
      exact congrArg _ (encodeFrom_moved (fun _ => isLabel_of_mem_bound) 0 base source.toLines)

/-- **Relocation changes jumps to labels only.** At two bases that differ by a multiple of four, as two multiples
of four do, a source is rejected with the same error or assembled to as many words. The labels are the same, each
address with the difference added. A word stays as it is, also that of a branch to a label, unless its text is a
jump to a label: then the opcode stays and the target moves by the difference in words. -/
theorem relocation_moves_label_jumps (source : Source) (multiple : (4 : Int) ∣ base' - base) :
    (assemble base' source).1 = (assemble base source).1.map (fun (name, l) => (name, l + (base' - base))) ∧
      (∀ e, (assemble base' source).2 = .error e ↔ (assemble base source).2 = .error e) ∧
      ∀ ws ws', (assemble base source).2 = .ok ws → (assemble base' source).2 = .ok ws' →
        ws.length = (coded source.toLines).length ∧ ws'.length = (coded source.toLines).length ∧
          ∀ (i : Nat) line w w', (coded source.toLines)[i]? = some line →
            ws[i]? = some w → ws'[i]? = some w' →
            if jumpsToLabel (body line) then
              Instruction.opcodeOf w' = Instruction.opcodeOf w ∧
                w'.extractLsb' 0 26 = w.extractLsb' 0 26 + BitVec.ofInt 26 ((base' - base) / 4)
            else w' = w := by
  obtain ⟨k, apart⟩ := multiple
  obtain rfl : base' = base + 4 * k := by omega
  have words : (base + 4 * k - base) / 4 = k := by omega
  have distance : base + 4 * k - base = 4 * k := by omega
  rw [words, distance, assemble_moved]
  refine ⟨rfl, fun e => map_eq_error, fun ws ws' made made' => ?_⟩
  have assembled : assemble base source = (_, .ok ws) := Prod.ext rfl made
  obtain ⟨-, -, -, encodes⟩ := assembleLines_eq_ok_iff.mp assembled
  have length : ws.length = (coded source.toLines).length := by rw [encodes.length_eq, length_texts]
  dsimp only at made'
  rw [made] at made'
  cases made'
  refine ⟨length, ?_, fun i line w w' found word word' => ?_⟩
  · rw [List.length_zipWith, length, length_texts, Nat.min_self]
  · have text : (texts source.toLines)[i]? = some (body line) := by
      rw [texts_eq_map, List.getElem?_map, found]
      rfl
    rw [List.getElem?_zipWith, text, word] at word'
    cases word'
    unfold relocate
    split
    · exact fields_retarget k w
    · rfl

/-- A call and a jump to labels, a branch back, and a jump to a number. -/
def subroutine : Source :=
  .lines ["main: jal work".toList, "j 2".toList, "work: addi $v0, $v0, 1".toList, "bne $v0, $t0, work".toList,
    "j main".toList]

theorem subroutine_relocated :
    (4 : Int) ∣ 8 - (-8) ∧
      assemble (-8) subroutine = ([("main".toList, -8), ("work".toList, 0)],
        .ok [0x0C000000, 0x08000002, 0x20420001, 0x1448FFFE, 0x0BFFFFFE]) ∧
      assemble 8 subroutine = ([("main".toList, 8), ("work".toList, 16)],
        .ok [0x0C000004, 0x08000002, 0x20420001, 0x1448FFFE, 0x08000002]) ∧
      (0x08000002 : Word).extractLsb' 0 26 =
        (0x0BFFFFFE : Word).extractLsb' 0 26 + BitVec.ofInt 26 ((8 - (-8)) / 4) := by
  have near : assemble (-8) subroutine = ([("main".toList, -8), ("work".toList, 0)],
      .ok [0x0C000000, 0x08000002, 0x20420001, 0x1448FFFE, 0x0BFFFFFE]) := by
    decide +kernel
  have far : assemble 8 subroutine = ([("main".toList, 8), ("work".toList, 16)],
      .ok [0x0C000004, 0x08000002, 0x20420001, 0x1448FFFE, 0x08000002]) := by
    decide +kernel
  have multiple : (4 : Int) ∣ 8 - (-8) := by decide
  obtain ⟨-, -, words⟩ := relocation_moves_label_jumps subroutine multiple
  obtain ⟨-, -, fields⟩ := words _ _ (congrArg Prod.snd near) (congrArg Prod.snd far)
  have last := fields 4 "j main".toList _ _ (by decide +kernel) rfl rfl
  rw [if_pos (by decide +kernel)] at last
  exact ⟨multiple, near, far, last.2⟩

end PocketMips.Assembly
