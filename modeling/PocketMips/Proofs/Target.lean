import PocketMips.Proofs.Layout

/-!
# Targets of branches and jumps

The labels of a program and the place of an instruction decide on its word through its target alone: a branch
holds the distance to a label, a jump its address, and all other instructions have one word everywhere.
-/
namespace PocketMips.Assembly

open Text

variable {labels labels' : Labels} {address address' l : Int} {op : Operation} {token : List Char}
  {operands : List (List Char)}

/-! ## Operands -/

theorem encodeI_of_no_target {op : IOp} (plain : targetOperand? (.i op) operands = none) :
    encodeI labels address op operands = encodeI labels' address' op operands := by
  rcases operands with _ | ⟨a, _ | ⟨b, _ | ⟨c, _ | ⟨d, more⟩⟩⟩⟩
  · rfl
  · rfl
  · rfl
  · rw [targetOperand?, ite_eq_right_iff] at plain
    have plain : ¬op.isBranch = true := by
      intro branch
      cases plain branch
    rw [encodeI, if_neg plain, encodeI, if_neg plain]
  · rfl

theorem encodeOperands_of_no_target (plain : targetOperand? op operands = none) :
    encodeOperands labels address op operands = encodeOperands labels' address' op operands := by
  cases op with
  | r op => rfl
  | i op => exact encodeI_of_no_target plain
  | j op =>
    rcases operands with _ | ⟨a, _ | ⟨b, more⟩⟩
    · rfl
    · cases plain
    · rfl

/-- A branch reads its registers before its target. -/
theorem exists_encodeI_eq {op : IOp} (aimed : targetOperand? (.i op) operands = some token) :
    ∃ front : Except Error (Int → Word), ∀ labels address, encodeI labels address op operands =
      front >>= fun word => (target labels token fun l => (l - (address + 4)) / 4).map word := by
  rcases operands with _ | ⟨a, _ | ⟨b, _ | ⟨c, _ | ⟨d, more⟩⟩⟩⟩
  · cases aimed
  · cases aimed
  · cases aimed
  · rw [targetOperand?] at aimed
    split at aimed
    · rename_i branch
      cases aimed
      refine ⟨register a >>= fun rs => register b >>= fun rt =>
        .ok (Instruction.encodeI op.opcode.toNat rs.toNat rt.toNat), fun labels address => ?_⟩
      rw [encodeI, if_pos branch]
      cases register a with
      | error e => rfl
      | ok rs =>
        cases register b with
        | error e => rfl
        | ok rt => cases target labels token _ <;> rfl
    · cases aimed
  · cases aimed

/-! ## Instruction texts -/

/-- How the word of an instruction text depends on the labels and on its address. -/
inductive Depends (text : List Char) : Prop
  | never (notJump : ∀ op token, instruction? text ≠ some (.j op, [token]))
    (same : ∀ labels labels' address address', encode labels address text = encode labels' address' text)
  | onDistance {token : List Char} {front : Except Error (Int → Word)}
    (notJump : ∀ op token, instruction? text ≠ some (.j op, [token]))
    (word : ∀ labels address, encode labels address text =
      front >>= fun word => (target labels token fun l => (l - (address + 4)) / 4).map word)
  | onAddress {op : JOp} {token : List Char} (jump : instruction? text = some (.j op, [token]))
    (word : ∀ labels address, encode labels address text =
      (target labels token (· / 4)).map (Instruction.encodeJ op.opcode.toNat))

theorem depends (text : List Char) : Depends text := by
  cases instr : instruction? text with
  | none =>
    refine .never (by simp [instr]) fun labels labels' address address' => ?_
    rw [encode_eq, encode_eq, instr]
  | some found =>
    obtain ⟨op, operands⟩ := found
    by_cases count : operands.length = operandCount op
    · have word (labels : Labels) (address : Int) :
          encode labels address text = encodeOperands labels address op operands :=
        encode_of_instruction? instr count
      cases aimed : targetOperand? op operands with
      | none =>
        refine .never (fun jop token jump => ?_) fun labels labels' address address' => ?_
        · cases instr.symm.trans jump
          cases aimed
        · rw [word, word]
          exact encodeOperands_of_no_target aimed
      | some token =>
        cases op with
        | r op => cases aimed
        | i op =>
          obtain ⟨front, eq⟩ := exists_encodeI_eq aimed
          refine .onDistance (fun jop token jump => ?_) fun labels address => (word _ _).trans (eq _ _)
          cases instr.symm.trans jump
        | j op =>
          rcases operands with _ | ⟨a, _ | ⟨b, more⟩⟩
          · cases aimed
          · refine .onAddress instr fun labels address => (word _ _).trans ?_
            rw [encodeOperands, encodeJ]
            cases target labels a (· / 4) <;> rfl
          · cases aimed
    · refine .never (fun jop token jump => ?_) fun labels labels' address address' => ?_
      · cases instr.symm.trans jump
        exact count rfl
      · rw [encode_eq, encode_eq, instr]
        exact (if_pos count).trans (if_pos count).symm

theorem isLabel_of_address? (named : ∀ p ∈ labels, isLabel p.1 = true)
    (found : labels.address? token = some l) : isLabel token = true := by
  have known := isSome_address?_iff.mp (Option.isSome_of_eq_some found)
  obtain ⟨⟨name, l'⟩, mem, rfl⟩ := List.mem_map.mp known
  exact named _ mem

end PocketMips.Assembly
