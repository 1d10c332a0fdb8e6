import PocketMips.Proofs.Load
import PocketMips.Proofs.Passes
import PocketMips.Proofs.Transfer

/-!
# References land on their labels

A branch that is taken, or a jump, whose operand is a label leads to the address of the label, if the
fields of its word can hold the way there.
-/
namespace PocketMips.Assembly

open Instruction

variable {base l a : Int} {lines : List (List Char)} {labels : Labels} {ws : List Word} {w : Word}
  {line name : List Char} {m : Machine}

/-! ## Addresses in an assembled program -/

theorem lineAddress_bounds (assembled : assembleLines base lines = (labels, .ok ws)) (i : Nat) :
    ∃ k : Nat, lineAddress base lines i = base + 4 * k ∧ k ≤ ws.length := by
  obtain ⟨-, -, rfl, encodes⟩ := assembleLines_eq_ok_iff.mp assembled
  refine ⟨_, rfl, ?_⟩
  have split := texts_append (lines.take i) (lines.drop i)
  rw [List.take_append_drop] at split
  rw [encodes.length_eq, split, List.length_append]
  exact Nat.le_add_right _ _

theorem instruction?_body_ne_nil {op : Operation} {operands : List (List Char)}
    (instr : instruction? (body line) = some (op, operands)) : body line ≠ [] := by
  intro empty
  rw [empty] at instr
  cases instr

/-! ## One reference -/

/-- A branch to a label, taken within the reach of its immediate. -/
theorem branch_reaches {op : IOp} {rs rt : Register}
    (made : w = Instruction.encodeI op.opcode.toNat rs.toNat rt.toNat ((l - (a + 4)) / 4))
    (aligned : (l - a) % 4 = 0) (nonneg : 0 ≤ l) (lt : l < 0x100000000) (at_ : m.pc = a)
    (fetched : m.fetch = .ok w) (taken : op.form = .branch (decide (m.get rs = m.get rt)))
    (lower : -32768 ≤ (l - (a + 4)) / 4) (upper : (l - (a + 4)) / 4 ≤ 32767) :
    ∃ n, m.cycle = .ok (decode w, n) ∧ n.pc = l := by
  have decoded := decode_encodeI op.kind_opcode rs.toNat rt.toNat ((l - (a + 4)) / 4)
  rw [← made, ofInt_toNat, ofInt_toNat] at decoded
  have offset : (BitVec.ofInt 16 ((l - (a + 4)) / 4)).toInt = (l - (a + 4)) / 4 := by
    rw [BitVec.toInt_ofInt]
    apply Int.bmod_eq_of_le <;> omega
  have ran := Machine.cycle_branch taken fetched decoded
  refine ⟨_, ran, ?_⟩
  simp only [if_true, offset, at_]
  omega

/-- A jump to a label in the region of the jump. -/
theorem jump_reaches {op : JOp} (made : w = Instruction.encodeJ op.opcode.toNat (l / 4))
    (aligned : l % 4 = 0) (start : 0 ≤ a) (stop : a < 0x100000000) (region : l / 0x10000000 = a / 0x10000000)
    (at_ : m.pc = a) (fetched : m.fetch = .ok w) :
    ∃ n, m.cycle = .ok (decode w, n) ∧ n.pc = l ∧ (op = .jal → n.get .ra = (a + 4) % 0x100000000) := by
  have decoded := decode_encodeJ op.kind_opcode (l / 4)
  rw [← made] at decoded
  have ran := Machine.cycle_jump (by rwa [at_]) (by rwa [at_]) fetched decoded
  refine ⟨_, ran, ?_, ?_⟩
  · simp only [at_, BitVec.toNat_ofInt]
    omega
  · rintro rfl
    have size : Alu.modulus = 4294967296 := rfl
    have word : (m.registers.set Register.ra (Alu.add m.pc 4)).get .ra =
        BitVec.ofInt 32 (Alu.add m.pc 4) := by
      rw [RegisterFile.get_set, if_pos ⟨rfl, by decide⟩]
    show (((m.registers.set Register.ra (Alu.add m.pc 4)).get .ra).toNat : Int) = _
    rw [word, at_, BitVec.toNat_ofInt, Alu.add, Alu.toUnsigned, size]
    omega

/-! ## References in a program -/

/-- **References.** In a program that is assembled and loaded at a base, with all its words below
`2 ^ 32`, every label stands for the address of its line, and the word of a line with an instruction is at
the address of the line. A machine that executes this word there goes to the label that the line refers
to: by a branch that is taken, if the distance in words is a signed 16-bit number, and by a jump, if the
base is a multiple of four and both addresses have the same upper four bits. A jump that notes where to
return to notes the address of the next line. -/
theorem reference_reaches_label {source : Source} (assembled : assemble base source = (labels, .ok ws))
    (nonneg : 0 ≤ base) (fits : base + 4 * ws.length < 0x100000000) {i : Nat}
    (found : source.toLines[i]? = some line) {op : Operation} {operands : List (List Char)}
    (instr : instruction? (body line) = some (op, operands)) (bound : labels.address? name = some l) :
    (∃ j definition, source.toLines[j]? = some definition ∧ label? definition = some name ∧
      l = lineAddress base source.toLines j) ∧
    ∃ w, (∀ m n : Machine, m.load (Image.ofWords (ws.map fun w => w.toNat)) base = .ok n →
        n.memory.readWord (lineAddress base source.toLines i) = .ok w.toNat) ∧
      ∀ m : Machine, m.pc = lineAddress base source.toLines i → m.fetch = .ok w →
        (∀ (branch : IOp) (s t : List Char), op = .i branch → operands = [s, t, name] →
          branch.isBranch = true →
          ∃ rs rt, register s = .ok rs ∧ register t = .ok rt ∧
            (branch.form = .branch (decide (m.get rs = m.get rt)) →
              -32768 ≤ (l - (m.pc + 4)) / 4 → (l - (m.pc + 4)) / 4 ≤ 32767 →
              ∃ n, m.cycle = .ok (decode w, n) ∧ n.pc = l)) ∧
        ∀ jump : JOp, op = .j jump → operands = [name] → base % 4 = 0 →
          l / 0x10000000 = m.pc / 0x10000000 →
          ∃ n, m.cycle = .ok (decode w, n) ∧ n.pc = l ∧
            (jump = .jal → n.get .ra = lineAddress base source.toLines (i + 1) ∧
              lineAddress base source.toLines (i + 1) = m.pc + 4) := by
  have text := instruction?_body_ne_nil instr
  obtain ⟨j, definition, defines, label, rfl⟩ := (address?_of_assembleLines assembled).mp bound
  obtain ⟨k, w, word, place, made⟩ := word_of_line assembled found text
  obtain ⟨k', place', le⟩ := lineAddress_bounds assembled j
  obtain ⟨lt, -⟩ := List.getElem?_eq_some_iff.mp word
  have after : lineAddress base source.toLines (i + 1) = lineAddress base source.toLines i + 4 := by
    rw [lineAddress_next found, next, if_neg text]
  refine ⟨⟨j, definition, defines, label, rfl⟩, w, ?_, ?_⟩
  · intro m n loaded
    have word' : (ws.map fun w => (w.toNat : Int))[k]? = some (w.toNat : Int) := by
      rw [List.getElem?_map, word, Option.map_some]
    have read := Machine.readWord_of_load loaded (by rw [List.length_map]; omega) word'
    rwa [ofInt_toNat, ← place] at read
  · intro m at_ fetched
    obtain ⟨_, _, instr', -, made⟩ := encode_eq_ok made
    cases instr.symm.trans instr'
    constructor
    · rintro branch s t rfl rfl branches
      obtain ⟨rs, rt, first, second, made⟩ := encodeI_label branches bound made
      refine ⟨rs, rt, first, second, ?_⟩
      intro taken lower upper
      rw [at_] at lower upper
      exact branch_reaches made (by omega) (by omega) (by omega) at_ fetched taken lower upper
    · rintro jump rfl rfl aligned region
      have made := encodeJ_label bound made
      rw [at_] at region
      obtain ⟨n, ran, pc, ra⟩ :=
        jump_reaches made (by omega) (by omega) (by omega) region at_ fetched
      refine ⟨n, ran, pc, ?_⟩
      intro jal
      rw [ra jal, after, at_]
      omega

/-- A branch forwards to a label at the end, and a call back to a label on a line of its own. -/
def loop : Source :=
  .lines ["loop:".toList, "beq $t0, $zero, done".toList, "jal loop".toList, "done:".toList]

theorem loop_reaches_labels :
    ∃ m branched called instr instr',
      (Machine.ofMemory (.blank (.fixed 72))).load (Image.ofWords [0x11000001, 0x0C000010]) 64 = .ok m ∧
      m.cycle = .ok (instr, branched) ∧ branched.pc = 72 ∧
      Machine.cycle { m with pc := 68 } = .ok (instr', called) ∧ called.pc = 64 ∧
      called.get .ra = 72 := by
  have assembled : assemble 64 loop = ([("loop".toList, 64), ("done".toList, 72)],
      .ok [0x11000001, 0x0C000010]) := by
    decide +kernel
  obtain ⟨m, loaded⟩ : ∃ m, (Machine.ofMemory (.blank (.fixed 72))).load
      (Image.ofWords [0x11000001, 0x0C000010]) 64 = .ok m := ⟨_, rfl⟩
  obtain ⟨_, _, -, -, same⟩ := Machine.load_eq_ok loaded
  have pc : m.pc = 64 := by rw [same]
  have zero : ∀ r, m.get r = 0 := by
    intro r
    rw [Machine.get, same, RegisterFile.get_cleared]
    rfl
  have atEnd : Labels.address? [("loop".toList, 64), ("done".toList, 72)] "done".toList = some 72 := by
    decide
  have atStart : Labels.address? [("loop".toList, 64), ("done".toList, 72)] "loop".toList = some 64 := by
    decide
  obtain ⟨-, w, place, forwards⟩ :=
    reference_reaches_label assembled (by decide) (by decide) (i := 1) rfl rfl atEnd
  obtain ⟨-, w', place', back⟩ :=
    reference_reaches_label assembled (by decide) (by decide) (i := 2) rfl rfl atStart
  have fetched : m.fetch = .ok w := by
    apply Machine.fetch_of_readWord
    rw [pc]
    exact place _ _ loaded
  have fetched' : Machine.fetch { m with pc := 68 } = .ok w' :=
    Machine.fetch_of_readWord (place' _ m loaded)
  obtain ⟨rs, rt, -, -, branch⟩ := (forwards m pc fetched).1 .beq _ _ rfl rfl rfl
  obtain ⟨branched, ran, target⟩ :=
    branch (by rw [zero, zero]; rfl) (by rw [pc]; decide) (by rw [pc]; decide)
  obtain ⟨called, ran', target', ra⟩ := (back _ rfl fetched').2 .jal rfl rfl rfl rfl
  exact ⟨m, branched, called, _, _, loaded, ran, target, ran', target', (ra rfl).1⟩

end PocketMips.Assembly
