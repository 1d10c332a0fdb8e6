import PocketMips.Proofs.Cycle
import PocketMips.Proofs.RoundTrip

/-!
# Listings of arbitrary words

The listing of every word is one source line. It assembles if the word is supported, and then to the word
without the fields that its operation does not use; no machine tells the two words apart.
-/
namespace PocketMips

namespace Text

/-! ## Texts of one line -/

variable {cs : List Char}

theorem isBlank_of_isBreak {c : Char} (h : isBreak c = true) : isBlank c = true := by
  simp only [isBreak, Bool.or_eq_true, Bool.and_eq_true, decide_eq_true_eq, beq_iff_eq] at h
  simp only [isBlank, Bool.or_eq_true, Bool.and_eq_true, decide_eq_true_eq, beq_iff_eq]
  omega

theorem uniformBreaks_eq_self (h : '\r' ∉ cs) : uniformBreaks cs = cs := by
  fun_induction uniformBreaks cs with
  | case1 => rfl
  | case2 => simp at h
  | case3 c cs _ ih =>
    rw [List.mem_cons, not_or] at h
    rw [if_neg (Ne.symm h.1), ih h.2]

theorem pieces_eq_singleton {ends : Char → Bool} (some : cs ≠ []) (h : ∀ c ∈ cs, ends c = false) :
    pieces ends cs = [cs] := by
  induction cs with
  | nil => exact absurd rfl some
  | cons c cs ih =>
    rw [List.forall_mem_cons] at h
    cases cs with
    | nil => simp [pieces, h.1]
    | cons d ds => rw [pieces, h.1, ih (List.cons_ne_nil d ds) h.2]; rfl

/-- A text without breaks is its only line. -/
theorem lines_eq_singleton (some : cs ≠ []) (h : ∀ c ∈ cs, isBreak c = false) : lines cs = [cs] := by
  rw [lines, uniformBreaks_eq_self, pieces_eq_singleton some h]
  intro mem
  cases h _ mem

end Text

namespace Instruction

/-! ## Fields that do not matter -/

theorem decode_toWord_r (rs rt rd : Register) (shamt : BitVec 5) (funct : BitVec 6) :
    decode (r rs rt rd shamt funct).toWord = r rs rt rd shamt funct := by
  simp only [toWord, decode_encodeR, ofInt_toNat]

/-- Zeros in unused fields make a word of the same instruction otherwise. -/
theorem decode_canonical (w : Word) : decode (decode w).canonical.toWord = (decode w).canonical := by
  cases instr : decode w with
  | r rs rt rd shamt funct =>
    rw [canonical]
    split
    · exact decode_toWord_r ..
    · split <;> exact decode_toWord_r ..
  | i opcode rs rt immediate => simp only [canonical, ← instr, toWord_decode]
  | j opcode target => simp only [canonical, ← instr, toWord_decode]

/-- Two instructions of the same operation that no machine tells apart: executing one and moving on ends
as executing the other and moving on does. -/
structure ActsAs (a b : Instruction) : Prop where
  kind : a.kind = b.kind
  mnemonic : a.mnemonic = b.mnemonic
  executes : ∀ m : Machine, (m.execute a).map (·.advance a) = (m.execute b).map (·.advance b)

theorem ActsAs.refl (a : Instruction) : a.ActsAs a := ⟨rfl, rfl, fun _ => rfl⟩

/-- The fields that a listing does not show are those that the execution does not read. -/
theorem canonical_actsAs {w : Word} (supported : isSupported w = true) :
    (decode w).canonical.ActsAs (decode w) := by
  rcases codes_of_isSupported supported with ⟨opcode, op, funct⟩ | ⟨op, opcode⟩ | ⟨op, opcode⟩
  · rw [decode_r opcode, funct]
    cases op <;> exact ⟨rfl, rfl, fun _ => rfl⟩
  · rw [decode_i opcode]
    exact .refl _
  · rw [decode_j opcode]
    exact .refl _

end Instruction

namespace Assembly

open Instruction Number Text

variable {w : Word} {text : List Char}

/-! ## Listings as lines -/

section Lists

variable {name : String} {operands : List (List Char)} (h : Lists text name operands)
include h

theorem Lists.lines : Text.lines text = [text] := by
  obtain ⟨rfl, -, tokens⟩ := h
  apply lines_eq_singleton
  · simp [line]
  · intro c mem
    rcases mem_line mem with rfl | rfl | ⟨t, inside, mem⟩
    · rfl
    · rfl
    · have plain := ((tokens t inside).2 c mem).1
      exact Bool.eq_false_iff.mpr fun ends => by simp [isBlank_of_isBreak ends] at plain

/-- A line that names no operation is refused by its name. -/
theorem Lists.refused (unknown : Operation.ofName? (fold name.toList) = none) (base : Int) :
    assembleLines base [text] =
      ([], .error (.rejected (.unknownInstruction name.toList) (some ⟨1, text⟩))) := by
  have formed : WellFormed text := ⟨_, h.split⟩
  have unlabelled : label? text = none := by rw [label?, h.split]
  have whole : body text = text := by rw [body, h.split]
  have bound : bindLabels base [text] = ([], .ok ()) := bindFrom_of_unlabelled formed unlabelled
  have ne : body text ≠ [] := by rw [whole]; exact h.ne_nil
  have place : placeOf 0 text = ⟨1, text⟩ := by rw [placeOf, h.trim]
  obtain ⟨rfl, -, tokens⟩ := h
  have refused : encode [] base (line name operands) = reject (.unknownInstruction name.toList) := by
    simp only [encode, tokens_line tokens, unknown]
  simp only [assembleLines, bound]
  rw [encodeFrom_of_text formed ne, whole, refused, place]
  rfl

end Lists

theorem isSupported_of_j {opcode : BitVec 6} {target : BitVec 26} (h : decode w = .j opcode target) :
    isSupported w = true := by
  have jumps : ∀ c : BitVec 6, Kind.ofOpcode c.toNat = .j → (JOp.ofOpcode? c.toNat).isSome = true := by
    decide
  cases kind : Kind.ofOpcode (opcodeOf w).toNat with
  | j => simp only [isSupported, kind, jumps _ kind]
  | r => simp only [decode, kind] at h; cases h
  | i => simp only [decode, kind] at h; cases h

/-- Only a word of the first two classes is not supported, and its listing has three operands. -/
theorem lists_of_unsupported (unsupported : isSupported w = false) :
    ∃ operands, Lists (disassemble w) unknownName operands := by
  have unknown : IsToken unknownName.toList := by decide
  have none : (decode w).operation? = none := by
    rw [isSupported_eq, Option.isSome_eq_false_iff, Option.isNone_iff_eq_none] at unsupported
    exact unsupported
  rw [disassemble]
  cases instr : decode w with
  | r rs rt rd shamt funct =>
    have code : ROp.ofFunct? funct.toNat = .none := by
      rw [instr, operation?, Option.map_eq_none_iff] at none
      exact none
    refine ⟨[rd.name.toList, rs.name.toList, rt.name.toList], ?_, List.cons_ne_nil _ _, ?_⟩
    · simp only [listing, code, mnemonic, operation?]
      rfl
    · simp [unknown, isToken_name]
  | i opcode rs rt immediate =>
    have code : IOp.ofOpcode? opcode.toNat = .none := by
      rw [instr, operation?, Option.map_eq_none_iff] at none
      exact none
    refine ⟨[rt.name.toList, rs.name.toList, decimal (signed immediate)], ?_, List.cons_ne_nil _ _, ?_⟩
    · simp only [listing, code, mnemonic, operation?]
      rfl
    · simp [unknown, isToken_name, isToken_decimal]
  | j opcode target =>
    rw [isSupported_of_j instr] at unsupported
    cases unsupported

theorem exists_lists (w : Word) : ∃ name operands, Lists (disassemble w) name operands := by
  cases supported : isSupported w with
  | false => exact ⟨_, lists_of_unsupported supported⟩
  | true => exact (reads_disassemble supported).lists

/-! ## Assembling one listing -/

/-- **Every word.** The listing of the word of an integer, given as a text or as its line, assembles if
and only if the word is supported. What it assembles to is the word with zeros in the fields that its
operation does not use, an instruction that no machine tells apart from the listed one; a machine can
refuse them only for their access to the memory. The listing of any other word is refused by its name. -/
theorem assemble_disassemble (i base : Int) :
    let w : Word := BitVec.ofInt 32 i
    assemble base (.text (disassemble w)) = assemble base (.lines [disassemble w]) ∧
      (isSupported w = true → ∃ w' : Word,
        assemble base (.lines [disassemble w]) = ([], .ok [w']) ∧ w'.toNat < 0x100000000 ∧
          decode w' = (decode w).canonical ∧ (decode w').ActsAs (decode w) ∧
          ∀ (m : Machine) (f : Machine.Fault),
            m.execute (decode w) = .error f → ∃ g, f = .memory g) ∧
      (isSupported w = false → assemble base (.lines [disassemble w]) =
        ([], .error (.rejected (.unknownInstruction unknownName.toList)
          (some ⟨1, disassemble w⟩)))) := by
  intro w
  obtain ⟨name, operands, listed⟩ := exists_lists w
  refine ⟨?_, ?_, ?_⟩
  · simp only [assemble, Source.toLines, listed.lines]
  · intro supported
    have reads := reads_disassemble supported
    refine ⟨(decode w).canonical.toWord, assembleLines_of_reads base (.cons reads .nil),
      BitVec.isLt _, decode_canonical w, ?_, ?_⟩
    · rw [decode_canonical]
      exact canonical_actsAs supported
    · intro m f failed
      obtain ⟨g, -, -, memory, -⟩ := Machine.execute_eq_error supported failed
      exact ⟨g, memory⟩
  · intro unsupported
    obtain ⟨operands, listed⟩ := lists_of_unsupported unsupported
    exact listed.refused (by decide) base

/-- An addition with a shift amount, given as a negative integer, and a word without operation. -/
theorem junk_reassembles :
    isSupported (BitVec.ofInt 32 (-0xFEF6A820)) = true ∧
      assemble 0 (.text (disassemble 0x010957E0)) = ([], .ok [0x01095020]) ∧
      (decode 0x01095020).ActsAs (decode 0x010957E0) ∧
      isSupported (BitVec.ofInt 32 (-1)) = false ∧
      assemble 0 (.lines ["unknown $ra, $ra, -1".toList]) =
        ([], .error (.rejected (.unknownInstruction unknownName.toList)
          (some ⟨1, "unknown $ra, $ra, -1".toList⟩))) := by
  have supported : isSupported (BitVec.ofInt 32 (-0xFEF6A820)) = true := by decide
  have unsupported : isSupported (BitVec.ofInt 32 (-1)) = false := by decide
  obtain ⟨same, accepted, -⟩ := assemble_disassemble (-0xFEF6A820) 0
  obtain ⟨w, made, -, fields, acts, -⟩ := accepted supported
  have word : w = 0x01095020 := by rw [← toWord_decode w, fields]; decide
  subst word
  have refused := (assemble_disassemble (-1) 0).2.2 unsupported
  have text : disassemble (BitVec.ofInt 32 (-1)) = "unknown $ra, $ra, -1".toList := by decide +kernel
  rw [text] at refused
  exact ⟨supported, same.trans made, acts, unsupported, refused⟩

end Assembly

end PocketMips
