import PocketMips.Instruction
import PocketMips.Proofs.Alu
import Mathlib.Tactic.Common

/-!
# Codes, fields and words

An operation is found under its own code only, a word is put together from its fields, and reading the
fields of such a word gives them back.
-/
namespace PocketMips

/-! ## Operations by their codes -/

/-- What is found by its code has that code. -/
theorem code_of_find? {α : Type} {code : α → BitVec 6} {all : List α} {c : BitVec 6} {op : α}
    (h : (all.find? fun op => ((code op).toNat : Int) = c.toNat) = some op) : code op = c := by
  have found := List.find?_some h
  exact BitVec.eq_of_toNat_eq (Int.ofNat_inj.mp (of_decide_eq_true found))

theorem ROp.ofFunct?_eq_some_iff {funct : BitVec 6} {op : ROp} :
    ROp.ofFunct? funct.toNat = some op ↔ op.funct = funct :=
  ⟨code_of_find?, fun h => h ▸ ROp.ofFunct?_funct op⟩

theorem IOp.ofOpcode?_eq_some_iff {opcode : BitVec 6} {op : IOp} :
    IOp.ofOpcode? opcode.toNat = some op ↔ op.opcode = opcode :=
  ⟨code_of_find?, fun h => h ▸ IOp.ofOpcode?_opcode op⟩

theorem JOp.ofOpcode?_eq_some_iff {opcode : BitVec 6} {op : JOp} :
    JOp.ofOpcode? opcode.toNat = some op ↔ op.opcode = opcode :=
  ⟨code_of_find?, fun h => h ▸ JOp.ofOpcode?_opcode op⟩

theorem IOp.kind_opcode (op : IOp) : Kind.ofOpcode op.opcode.toNat = .i := by
  cases op <;> decide

theorem JOp.kind_opcode (op : JOp) : Kind.ofOpcode op.opcode.toNat = .j := by
  cases op <;> decide

namespace Instruction

/-! ## Fields of words -/

section Fields

variable (opcode funct : BitVec 6) (rs rt rd shamt : BitVec 5) (immediate : BitVec 16)
  (target : BitVec 26)

theorem fields_r (w : Word) (h : w = opcode ++ rs ++ rt ++ rd ++ shamt ++ funct) :
    w.extractLsb' 26 6 = opcode ∧ w.extractLsb' 21 5 = rs ∧ w.extractLsb' 16 5 = rt ∧
      w.extractLsb' 11 5 = rd ∧ w.extractLsb' 6 5 = shamt ∧ w.extractLsb' 0 6 = funct := by
  subst h
  refine ⟨?_, ?_, ?_, ?_, ?_, ?_⟩
  all_goals
    simp (disch := decide) only [BitVec.extractLsb'_append_eq_of_add_le,
      BitVec.extractLsb'_append_eq_of_le]
    exact BitVec.extractLsb'_eq_self

theorem fields_i (w : Word) (h : w = opcode ++ rs ++ rt ++ immediate) :
    w.extractLsb' 26 6 = opcode ∧ w.extractLsb' 21 5 = rs ∧ w.extractLsb' 16 5 = rt ∧
      w.extractLsb' 0 16 = immediate := by
  subst h
  refine ⟨?_, ?_, ?_, ?_⟩
  all_goals
    simp (disch := decide) only [BitVec.extractLsb'_append_eq_of_add_le,
      BitVec.extractLsb'_append_eq_of_le]
    exact BitVec.extractLsb'_eq_self

theorem fields_j (w : Word) (h : w = opcode ++ target) :
    w.extractLsb' 26 6 = opcode ∧ w.extractLsb' 0 26 = target := by
  subst h
  refine ⟨?_, ?_⟩
  all_goals
    simp (disch := decide) only [BitVec.extractLsb'_append_eq_of_add_le,
      BitVec.extractLsb'_append_eq_of_le]
    exact BitVec.extractLsb'_eq_self

end Fields

/-- A word is its fields, whichever way it is cut. -/
theorem word_fields (w : Word) :
    w.extractLsb' 26 6 ++ w.extractLsb' 21 5 ++ w.extractLsb' 16 5 ++ w.extractLsb' 11 5 ++
        w.extractLsb' 6 5 ++ w.extractLsb' 0 6 = w ∧
      w.extractLsb' 26 6 ++ w.extractLsb' 21 5 ++ w.extractLsb' 16 5 ++ w.extractLsb' 0 16 = w ∧
      w.extractLsb' 26 6 ++ w.extractLsb' 0 26 = w := by
  refine ⟨?_, ?_, ?_⟩
  all_goals
    repeat rw [BitVec.extractLsb'_append_extractLsb'_eq_extractLsb' (by rfl)]
    exact BitVec.extractLsb'_eq_self

/-! ## Supported words -/

theorem opcodeOf_eq_zero {w : Word} (h : Kind.ofOpcode (opcodeOf w).toNat = .r) : opcodeOf w = 0 := by
  unfold Kind.ofOpcode at h
  by_cases zero : ((opcodeOf w).toNat : Int) = 0
  · exact BitVec.eq_of_toNat_eq (Int.ofNat_inj.mp zero)
  · rw [if_neg zero] at h
    split at h <;> cases h

/-- A supported word has the codes of an operation. -/
theorem codes_of_isSupported {w : Word} (h : isSupported w = true) :
    (opcodeOf w = 0 ∧ ∃ op : ROp, functOf w = op.funct) ∨ (∃ op : IOp, opcodeOf w = op.opcode) ∨
      ∃ op : JOp, opcodeOf w = op.opcode := by
  unfold isSupported at h
  split at h
  · rename_i kind
    obtain ⟨op, found⟩ := Option.isSome_iff_exists.mp h
    exact Or.inl ⟨opcodeOf_eq_zero kind, op, (ROp.ofFunct?_eq_some_iff.mp found).symm⟩
  · obtain ⟨op, found⟩ := Option.isSome_iff_exists.mp h
    exact Or.inr (Or.inr ⟨op, (JOp.ofOpcode?_eq_some_iff.mp found).symm⟩)
  · obtain ⟨op, found⟩ := Option.isSome_iff_exists.mp h
    exact Or.inr (Or.inl ⟨op, (IOp.ofOpcode?_eq_some_iff.mp found).symm⟩)

theorem isSupported_eq (w : Word) : isSupported w = (decode w).operation?.isSome := by
  unfold isSupported decode
  split <;> simp only [*, operation?, Option.isSome_map]

theorem decode_r {w : Word} (h : opcodeOf w = 0) :
    decode w = .r (w.extractLsb' 21 5) (w.extractLsb' 16 5) (w.extractLsb' 11 5) (w.extractLsb' 6 5)
      (functOf w) := by
  unfold decode
  rw [h]
  rfl

theorem decode_i {w : Word} {op : IOp} (h : opcodeOf w = op.opcode) :
    decode w =
      .i op.opcode (w.extractLsb' 21 5) (w.extractLsb' 16 5) (w.extractLsb' 0 16) := by
  unfold decode
  simp only [h, op.kind_opcode]

theorem decode_j {w : Word} {op : JOp} (h : opcodeOf w = op.opcode) :
    decode w = .j op.opcode (w.extractLsb' 0 26) := by
  unfold decode
  simp only [h, op.kind_opcode]

/-! ## Decoding and encoding -/

theorem toWord_decode (w : Word) : (decode w).toWord = w := by
  obtain ⟨r, i, j⟩ := word_fields w
  cases kind : Kind.ofOpcode (opcodeOf w).toNat with
  | r =>
    have opcode : opcodeOf w = BitVec.ofInt 6 0 := opcodeOf_eq_zero kind
    simp only [decode, kind, toWord, encodeR, ofInt_toNat]
    rw [← opcode]
    exact r
  | i =>
    simp only [decode, kind, toWord, encodeI, ofInt_toNat]
    exact i
  | j =>
    simp only [decode, kind, toWord, encodeJ, ofInt_toNat]
    exact j

theorem decode_encodeR (rs rt rd shamt funct : Int) :
    decode (encodeR rs rt rd shamt funct 0) =
      .r (BitVec.ofInt 5 rs) (BitVec.ofInt 5 rt) (BitVec.ofInt 5 rd) (BitVec.ofInt 5 shamt)
        (BitVec.ofInt 6 funct) := by
  obtain ⟨ho, hs, ht, hd, ha, hf⟩ := fields_r _ _ _ _ _ _ _ (encodeR.eq_1 rs rt rd shamt funct 0)
  unfold decode opcodeOf functOf
  rw [ho, hs, ht, hd, ha, hf]
  rfl

theorem decode_encodeI_residue {opcode : Int} (h : Kind.ofOpcode (opcode % 64) = .i)
    (rs rt immediate : Int) :
    decode (encodeI opcode rs rt immediate) =
      .i (BitVec.ofInt 6 opcode) (BitVec.ofInt 5 rs) (BitVec.ofInt 5 rt) (BitVec.ofInt 16 immediate) := by
  obtain ⟨ho, hs, ht, hi⟩ := fields_i _ _ _ _ _ (encodeI.eq_1 opcode rs rt immediate)
  replace h := (congrArg Kind.ofOpcode (toNat_ofInt_eq 6 opcode)).trans h
  unfold decode opcodeOf
  simp only [ho, hs, ht, hi, h]

theorem decode_encodeJ_residue {opcode : Int} (h : Kind.ofOpcode (opcode % 64) = .j) (target : Int) :
    decode (encodeJ opcode target) = .j (BitVec.ofInt 6 opcode) (BitVec.ofInt 26 target) := by
  obtain ⟨ho, ht⟩ := fields_j _ _ _ (encodeJ.eq_1 opcode target)
  replace h := (congrArg Kind.ofOpcode (toNat_ofInt_eq 6 opcode)).trans h
  unfold decode opcodeOf
  simp only [ho, ht, h]

theorem decode_encodeI {opcode : BitVec 6} (h : Kind.ofOpcode opcode.toNat = .i)
    (rs rt immediate : Int) :
    decode (encodeI opcode.toNat rs rt immediate) =
      .i opcode (BitVec.ofInt 5 rs) (BitVec.ofInt 5 rt) (BitVec.ofInt 16 immediate) := by
  rw [decode_encodeI_residue, ofInt_toNat]
  rwa [Int.emod_eq_of_lt (by omega) (by omega)]

theorem decode_encodeJ {opcode : BitVec 6} (h : Kind.ofOpcode opcode.toNat = .j) (target : Int) :
    decode (encodeJ opcode.toNat target) = .j opcode (BitVec.ofInt 26 target) := by
  rw [decode_encodeJ_residue, ofInt_toNat]
  rwa [Int.emod_eq_of_lt (by omega) (by omega)]

theorem signed_eq (immediate : BitVec 16) : signed immediate = immediate.toInt := by
  rw [signed, Alu.toSigned_eq, Alu.signExtend_eq (by decide) (by decide), ofInt_toNat, ofInt_toNat,
    BitVec.toInt_signExtend_of_le (by decide)]

/-- **Encoding and decoding are inverse.** The word of any integers as fields is read as an instruction of
the class of its opcode, with the residues of the integers in its fields and the immediate in two's
complement; and the fields of any word make up the residue of the word again. -/
theorem encode_decode_inverse :
    (∀ rs rt rd shamt funct : Int,
      decode (encodeR rs rt rd shamt funct 0) =
        .r (.ofInt 5 rs) (.ofInt 5 rt) (.ofInt 5 rd) (.ofInt 5 shamt) (.ofInt 6 funct)) ∧
    (∀ opcode rs rt immediate : Int, Kind.ofOpcode (opcode % 64) = .i →
      decode (encodeI opcode rs rt immediate) =
        .i (.ofInt 6 opcode) (.ofInt 5 rs) (.ofInt 5 rt) (.ofInt 16 immediate) ∧
      signed (.ofInt 16 immediate) = immediate.bmod 0x10000) ∧
    (∀ opcode target : Int, Kind.ofOpcode (opcode % 64) = .j →
      decode (encodeJ opcode target) = .j (.ofInt 6 opcode) (.ofInt 26 target)) ∧
    ∀ w : Int, ((decode (.ofInt 32 w)).toWord.toNat : Int) = w % 0x100000000 := by
  refine ⟨decode_encodeR, fun opcode rs rt immediate kind => ⟨?_, ?_⟩,
    fun opcode target kind => decode_encodeJ_residue kind target, fun w => ?_⟩
  · exact decode_encodeI_residue kind rs rt immediate
  · rw [signed_eq, BitVec.toInt_ofInt]
  · rw [toWord_decode]
    exact toNat_ofInt_eq 32 w

/-- Opcodes, registers and immediates beyond their fields, also negative ones. -/
theorem residues_encoded_decoded :
    Kind.ofOpcode ((-56 : Int) % 64) = .i ∧ Kind.ofOpcode ((67 : Int) % 64) = .j ∧
      decode (encodeI (-56) (-1) 37 (-0x18000)) = .i 8 31 5 0x8000 ∧
      signed (.ofInt 16 (-0x18000)) = -0x8000 ∧
      decode (encodeJ 67 (-1)) = .j 3 0x3FFFFFF := by
  obtain ⟨-, i, j, -⟩ := encode_decode_inverse
  obtain ⟨fields, negative⟩ := i (-56) (-1) 37 (-0x18000) (by decide)
  exact ⟨by decide, by decide, fields, negative.trans (by decide), j 67 (-1) (by decide)⟩

end Instruction

end PocketMips
