import PocketMips.Proofs.Canonical
import PocketMips.Proofs.Listing
import PocketMips.Proofs.Passes
import Mathlib.Data.List.Forall2

/-!
# A listing assembles to the program it shows

The listing of a supported word is encoded as the word without what the listing leaves out. So the
listings of the words of an assembled program assemble to the same words.
-/
namespace PocketMips

namespace Instruction

open Number

/-! ## Forms of listings -/

section Shapes

variable {rs rt rd : Register} {shamt : BitVec 5} {immediate : BitVec 16}

theorem listing_jr :
    (r rs rt rd shamt ROp.jr.funct).listing = line (Operation.r .jr).name [rs.name.toList] :=
  rfl

variable {op : ROp}

theorem listing_shift (shift : op.isShift = true) :
    (r rs rt rd shamt op.funct).listing =
      line (Operation.r op).name [rd.name.toList, rt.name.toList, decimal shamt.toNat] := by
  cases op with
  | sll | srl => rfl
  | _ => cases shift

theorem canonical_shift (shift : op.isShift = true) :
    (r rs rt rd shamt op.funct).canonical = .r 0 rt rd shamt op.funct := by
  cases op with
  | sll | srl => rfl
  | _ => cases shift

theorem listing_registers (jr : op ≠ .jr) (shift : op.isShift = false) :
    (r rs rt rd shamt op.funct).listing =
      line (Operation.r op).name [rd.name.toList, rs.name.toList, rt.name.toList] := by
  cases op with
  | jr => exact absurd rfl jr
  | sll | srl => cases shift
  | _ => rfl

theorem canonical_registers (jr : op ≠ .jr) (shift : op.isShift = false) :
    (r rs rt rd shamt op.funct).canonical = .r rs rt rd 0 op.funct := by
  cases op with
  | jr => exact absurd rfl jr
  | sll | srl => cases shift
  | _ => rfl

variable {op : IOp}

theorem listing_memory (memory : op.isMemory = true) :
    (i op.opcode rs rt immediate).listing =
      line (Operation.i op).name
        [rt.name.toList, decimal (signed immediate) ++ '(' :: rs.name.toList ++ [')']] := by
  simp only [listing, IOp.ofOpcode?_opcode, Option.map_some, memory, mnemonic, operation?]
  rfl

theorem listing_branch (branch : op.isBranch = true) :
    (i op.opcode rs rt immediate).listing =
      line (Operation.i op).name [rs.name.toList, rt.name.toList, decimal (signed immediate)] := by
  cases op with
  | beq | bne => rfl
  | _ => cases branch

theorem listing_unsigned (unsigned : op.isZeroExtended = true) :
    (i op.opcode rs rt immediate).listing =
      line (Operation.i op).name [rt.name.toList, rs.name.toList, decimal immediate.toNat] := by
  cases op with
  | andi | ori => rfl
  | _ => cases unsigned

theorem listing_signed (memory : op.isMemory = false) (branch : op.isBranch = false)
    (unsigned : op.isZeroExtended = false) :
    (i op.opcode rs rt immediate).listing =
      line (Operation.i op).name [rt.name.toList, rs.name.toList, decimal (signed immediate)] := by
  simp only [listing, IOp.ofOpcode?_opcode, Option.map_some, memory, branch, unsigned, mnemonic,
    operation?]
  rfl

end Shapes

end Instruction

namespace Assembly

open Instruction Number Text

/-! ## Operands -/

theorem register_name : ∀ r : Register, register r.name.toList = .ok r := by
  decide +kernel

theorem addressParts?_address (i : Int) (r : Register) :
    addressParts? (decimal i ++ '(' :: r.name.toList ++ [')']) = some (decimal i, r.name.toList) := by
  have offset : '(' ∉ decimal i ∧ ')' ∉ decimal i := by
    constructor
    all_goals
      intro mem
      have plain := (decimal_plain mem).2
      simp at plain
  have base : ∀ r : Register, '(' ∉ r.name.toList ∧ ')' ∉ r.name.toList ∧ r.name.toList ≠ [] := by
    decide +kernel
  obtain ⟨opening, closing, some⟩ := base r
  rw [addressParts?, List.append_assoc, List.cons_append, cut_append_cons offset.1]
  simp only
  rw [cut_append_cons closing]
  exact if_pos ⟨some, opening, offset.2⟩

/-- No field of a word has a decimal text that is too long. -/
theorem number_field {i : Int} (lt : i.natAbs < 100000) : number (decimal i) = .ok i := by
  exact number_decimal (Nat.lt_of_lt_of_le lt (tens_le (j := 5) (by decide)))

theorem number_signed (immediate : BitVec 16) :
    number (decimal (signed immediate)) = .ok immediate.toInt := by
  have lower := immediate.le_toInt
  have upper := immediate.toInt_lt
  rw [signed_eq]
  apply number_field
  omega

theorem target_number {token : List Char} (plain : isLabel token = false) (ofAddress : Int → Int) :
    target [] token ofAddress = number token := by
  rw [target, Labels.address?, List.find?_nil, Option.map_none, plain]
  rfl

/-! ## Operands of each class -/

section Operands

variable (labels : Labels) (address : Int) (rs rt rd : Register) (shamt : BitVec 5)
  (immediate : BitVec 16)

theorem encodeR_shift {op : ROp} (shift : op.isShift = true) :
    encodeR op [rd.name.toList, rt.name.toList, decimal shamt.toNat] =
      .ok (Instruction.r 0 rt rd shamt op.funct).toWord := by
  have amount : number (decimal shamt.toNat) = .ok (shamt.toNat : Int) := by
    have := shamt.isLt
    apply number_field
    omega
  cases op with
  | sll | srl =>
    simp only [encodeR, register_name, amount, shift]
    rfl
  | _ => cases shift

theorem encodeR_registers {op : ROp} (shift : op.isShift = false) :
    encodeR op [rd.name.toList, rs.name.toList, rt.name.toList] =
      .ok (Instruction.r rs rt rd 0 op.funct).toWord := by
  simp only [encodeR, register_name, shift]
  rfl

/-- The immediate may be written as a signed number or as an unsigned one. -/
theorem toWord_i (opcode : BitVec 6) :
    Instruction.encodeI opcode.toNat rs.toNat rt.toNat immediate.toInt =
      (Instruction.i opcode rs rt immediate).toWord := by
  simp only [toWord, Instruction.encodeI, BitVec.ofInt_toInt, ofInt_toNat]

theorem encodeI_address {op : IOp} (memory : op.isMemory = true) :
    encodeI labels address op
        [rt.name.toList, decimal (signed immediate) ++ '(' :: rs.name.toList ++ [')']] =
      .ok (Instruction.i op.opcode rs rt immediate).toWord := by
  have trimmed := trim_eq_self_of_forall fun c (mem : c ∈ decimal (signed immediate)) =>
    (decimal_plain mem).1
  simp only [encodeI, memory, if_true, encodeAddress, register_name, addressParts?_address, trimmed,
    if_neg (decimal_ne_nil _), number_signed]
  exact congrArg Except.ok (toWord_i rs rt immediate op.opcode)

theorem encodeI_branch {op : IOp} (branch : op.isBranch = true) :
    encodeI [] address op [rs.name.toList, rt.name.toList, decimal (signed immediate)] =
      .ok (Instruction.i op.opcode rs rt immediate).toWord := by
  simp only [encodeI, branch, if_true, register_name, target_number (isLabel_decimal _), number_signed]
  exact congrArg Except.ok (toWord_i rs rt immediate op.opcode)

theorem encodeI_signed {op : IOp} (branch : op.isBranch = false) :
    encodeI labels address op [rt.name.toList, rs.name.toList, decimal (signed immediate)] =
      .ok (Instruction.i op.opcode rs rt immediate).toWord := by
  simp only [encodeI, branch, register_name, number_signed]
  exact congrArg Except.ok (toWord_i rs rt immediate op.opcode)

theorem encodeI_unsigned {op : IOp} (branch : op.isBranch = false) :
    encodeI labels address op [rt.name.toList, rs.name.toList, decimal immediate.toNat] =
      .ok (Instruction.i op.opcode rs rt immediate).toWord := by
  have pattern : number (decimal immediate.toNat) = .ok (immediate.toNat : Int) := by
    have := immediate.isLt
    apply number_field
    omega
  simp only [encodeI, branch, register_name, pattern]
  rfl

theorem encodeJ_number (op : JOp) (target : BitVec 26) :
    encodeJ [] op [hex 7 target.toNat] = .ok (Instruction.j op.opcode target).toWord := by
  have plain : isLabel (hex 7 target.toNat) = false := rfl
  simp only [encodeJ, target_number plain, number_hex]
  rfl

end Operands

/-! ## Lines -/

theorem joinAddress_eq_self {op : Operation} {operands : List (List Char)}
    (count : operands.length = operandCount op) : joinAddress op operands = operands := by
  unfold joinAddress
  split
  · split
    · rename_i memory
      simp [operandCount, memory] at count
    · rfl
  · rfl

/-- Every operation takes an operand. -/
theorem operands_ne_nil {op : Operation} {operands : List (List Char)}
    (count : operands.length = operandCount op) : operands ≠ [] := by
  intro none
  subst none
  cases op with
  | r op => cases op <;> cases count
  | i op => cases op <;> cases count
  | j op => cases count

/-- The text is a line of an operation and as many operands as it takes, which have the word. -/
def Reads (text : List Char) (w : Word) : Prop :=
  ∃ (op : Operation) (operands : List (List Char)), text = line op.name operands ∧
    operands.length = operandCount op ∧ (∀ t ∈ operands, IsToken t) ∧
    ∀ address, encodeOperands [] address op operands = .ok w

variable {address : Int} {text : List Char} {w : Word}

theorem Reads.encode (h : Reads text w) : encode [] address text = .ok w := by
  obtain ⟨op, operands, rfl, count, parts, made⟩ := h
  have split := tokens_line (List.forall_mem_cons.mpr ⟨isToken_mnemonic op, parts⟩)
  have instr : instruction? (line op.name operands) = some (op, operands) := by
    rw [instruction?, split, ofName?_name, Option.map_some, joinAddress_eq_self count]
  rw [encode_of_instruction? instr count, made]

theorem Reads.lists (h : Reads text w) : ∃ name operands, Lists text name operands := by
  obtain ⟨op, operands, rfl, count, tokens, -⟩ := h
  exact ⟨op.name, operands, rfl, operands_ne_nil count,
    List.forall_mem_cons.mpr ⟨isToken_mnemonic op, tokens⟩⟩

/-! ## Listings -/

section Listings

variable (rs rt rd : Register) (shamt : BitVec 5) (immediate : BitVec 16)

theorem reads_listing_r (op : ROp) :
    Reads (Instruction.r rs rt rd shamt op.funct).listing
      (Instruction.r rs rt rd shamt op.funct).canonical.toWord := by
  by_cases jr : op = .jr
  · subst jr
    refine ⟨.r .jr, _, listing_jr, rfl, List.forall_mem_singleton.mpr (isToken_name rs), ?_⟩
    intro address
    simp only [encodeOperands, encodeR, register_name]
    rfl
  · cases shift : op.isShift with
    | true =>
      have count : operandCount (.r op) = 3 := by
        cases op <;> first | rfl | cases shift
      rw [canonical_shift shift]
      exact ⟨.r op, _, listing_shift shift, count.symm, by simp [isToken_name, isToken_decimal],
        fun _ => encodeR_shift rt rd shamt shift⟩
    | false =>
      have count : operandCount (.r op) = 3 := by
        cases op <;> first | rfl | exact absurd rfl jr
      rw [canonical_registers jr shift]
      exact ⟨.r op, _, listing_registers jr shift, count.symm, by simp [isToken_name],
        fun _ => encodeR_registers rs rt rd shift⟩

theorem reads_listing_i (op : IOp) :
    Reads (Instruction.i op.opcode rs rt immediate).listing
      (Instruction.i op.opcode rs rt immediate).toWord := by
  cases memory : op.isMemory with
  | true =>
    have count : operandCount (.i op) = 2 := by rw [operandCount, memory, if_pos rfl]
    have tokens := List.forall_mem_cons.mpr
      ⟨isToken_name rt, List.forall_mem_singleton.mpr (isToken_address (signed immediate) rs)⟩
    exact ⟨.i op, _, listing_memory memory, count.symm, tokens,
      fun address => encodeI_address [] address rs rt immediate memory⟩
  | false =>
    have count : operandCount (.i op) = 3 := by rw [operandCount, memory]; rfl
    cases branch : op.isBranch with
    | true =>
      exact ⟨.i op, _, listing_branch branch, count.symm, by simp [isToken_name, isToken_decimal],
        fun address => encodeI_branch address rs rt immediate branch⟩
    | false =>
      cases unsigned : op.isZeroExtended with
      | true =>
        exact ⟨.i op, _, listing_unsigned unsigned, count.symm,
          by simp [isToken_name, isToken_decimal],
          fun address => encodeI_unsigned [] address rs rt immediate branch⟩
      | false =>
        exact ⟨.i op, _, listing_signed memory branch unsigned, count.symm,
          by simp [isToken_name, isToken_decimal],
          fun address => encodeI_signed [] address rs rt immediate branch⟩

theorem reads_listing_j (op : JOp) (target : BitVec 26) :
    Reads (Instruction.j op.opcode target).listing (Instruction.j op.opcode target).toWord := by
  have listing : (Instruction.j op.opcode target).listing =
      line (Operation.j op).name [hex 7 target.toNat] := by
    cases op <;> rfl
  exact ⟨.j op, _, listing, rfl, List.forall_mem_singleton.mpr (isToken_hex _ _),
    fun _ => encodeJ_number op target⟩

end Listings

/-- The listing of a supported word has the word without what the listing does not show. -/
theorem reads_disassemble (supported : isSupported w = true) :
    Reads (disassemble w) (decode w).canonical.toWord := by
  rw [disassemble]
  rcases codes_of_isSupported supported with ⟨opcode, op, funct⟩ | ⟨op, opcode⟩ | ⟨op, opcode⟩
  · rw [decode_r opcode, funct]
    exact reads_listing_r _ _ _ _ op
  · rw [decode_i opcode]
    exact reads_listing_i _ _ _ op
  · rw [decode_j opcode]
    exact reads_listing_j op _

/-! ## Programs -/

theorem Encodes.isCanonical {labels : Labels} {texts : List (List Char)} {ws : List Word}
    (h : Encodes labels address texts ws) : ∀ w ∈ ws, (decode w).IsCanonical := by
  induction h with
  | nil => exact nofun
  | cons made _ ih => exact List.forall_mem_cons.mpr ⟨isCanonical_of_encode made, ih⟩

theorem reads_of_isCanonical (canonical : (decode w).IsCanonical) : Reads (disassemble w) w := by
  have reads := reads_disassemble (w := w) (by rw [isSupported_eq, canonical.1])
  rwa [canonical.2, toWord_decode] at reads

/-- Lines that read as words assemble to the words, wherever they are placed. -/
theorem assembleLines_of_reads {lines : List (List Char)} {ws : List Word} (base : Int)
    (reads : List.Forall₂ Reads lines ws) : assembleLines base lines = ([], .ok ws) := by
  have passes : ∀ a, (∀ line ∈ lines, WellFormed line) ∧ bound a lines = [] ∧
      Encodes [] a (texts lines) ws := by
    -- No line has a label, so the words are made under the empty map at every address.
    induction reads with
    | nil => exact fun a => ⟨nofun, rfl, .nil⟩
    | @cons line w lines ws first _ ih =>
      intro a
      obtain ⟨name, operands, listed⟩ := first.lists
      have split := listed.split
      have ne := listed.ne_nil
      have text : body line = line := by rw [body, split]
      have label : label? line = none := by rw [label?, split]
      obtain ⟨formed, none, encodes⟩ := ih (a + 4)
      refine ⟨List.forall_mem_cons.mpr ⟨⟨_, split⟩, formed⟩, ?_, ?_⟩
      · rw [bound, label, next, if_neg (by rwa [text]), none]
      · rw [texts_cons, if_neg (by rwa [text]), text]
        exact .cons first.encode encodes
  obtain ⟨formed, none, encodes⟩ := passes base
  refine assembleLines_eq_ok_iff.mpr ⟨formed, ?_, none.symm, encodes⟩
  rw [none]
  exact List.nodup_nil

/-- **Round trip.** The words of an assembled program are supported, and their listings assemble to the
same words at every base. -/
theorem assemble_listing {base base' : Int} {source : Source} {labels : Labels} {ws : List Word}
    (assembled : assemble base source = (labels, .ok ws)) :
    (∀ w ∈ ws, isSupported w = true ∧ w.toNat < 0x100000000) ∧
      assemble base' (.lines (ws.map disassemble)) = ([], .ok ws) := by
  obtain ⟨-, -, -, encodes⟩ := assembleLines_eq_ok_iff.mp assembled
  have canonical := encodes.isCanonical
  refine ⟨?_, ?_⟩
  · intro w mem
    rw [isSupported_eq, (canonical w mem).1]
    exact ⟨rfl, w.isLt⟩
  · apply assembleLines_of_reads
    refine List.forall₂_map_left_iff.mpr (List.forall₂_same.mpr ?_)
    exact fun w mem => reads_of_isCanonical (canonical w mem)

/-- A shift, a load, a branch forwards, a jump back and a label at the end. -/
def rotate : Source :=
  .text "top: sll $t0, $t1, 31\n lw $a0 -4 ($sp) # last\nbeq a0, $zero done\nJ top\ndone:".toList

theorem rotate_round_trip :
    assemble 64 rotate = ([("top".toList, 64), ("done".toList, 80)],
        .ok [0x000947C0, 0x8FA4FFFC, 0x10800001, 0x08000010]) ∧
      (∀ w ∈ ([0x000947C0, 0x8FA4FFFC, 0x10800001, 0x08000010] : List Word),
        isSupported w = true ∧ w.toNat < 0x100000000) ∧
      assemble 0 (.lines (([0x000947C0, 0x8FA4FFFC, 0x10800001, 0x08000010] : List Word).map
        disassemble)) = ([], .ok [0x000947C0, 0x8FA4FFFC, 0x10800001, 0x08000010]) := by
  have assembled : assemble 64 rotate = ([("top".toList, 64), ("done".toList, 80)],
      .ok [0x000947C0, 0x8FA4FFFC, 0x10800001, 0x08000010]) := by
    decide +kernel
  exact ⟨assembled, assemble_listing assembled⟩

end Assembly

end PocketMips
