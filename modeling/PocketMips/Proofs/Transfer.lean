import PocketMips.Proofs.Cycle

/-!
# Where branches and jumps lead

A branch that is taken goes as many words away from the next instruction as its immediate says, and a jump
goes to its target in the region of the program counter.
-/
namespace PocketMips.Machine

/-! ## Targets as numbers -/

theorem branchTarget_eq (pc : Int) (immediate : BitVec 16) :
    Alu.add (Alu.add pc 4) (Alu.shiftLeft (Alu.signExtend 16 immediate.toNat) 2) =
      (pc + 4 + 4 * immediate.toInt) % 0x100000000 := by
  have extended : Alu.signExtend 16 immediate.toNat = ((immediate.signExtend 32).toNat : Int) := by
    rw [Alu.signExtend_eq (by decide) (by decide), ofInt_toNat]
  have signed : immediate.toInt = (immediate.signExtend 32).toInt := by
    rw [BitVec.toInt_signExtend_of_le (by decide)]
  have amount : ((2 : Int) % 32).toNat = 2 := rfl
  have size : Alu.modulus = 4294967296 := rfl
  rw [extended, signed, BitVec.toInt_eq_toNat_cond]
  generalize (immediate.signExtend 32).toNat = n
  simp only [Alu.add, Alu.shiftLeft, Alu.toUnsigned, size, amount, Nat.shiftLeft_eq]
  split <;> omega

theorem and_region {n : Nat} (lt : n < 0x100000000) :
    n &&& 0xF0000000 = 0x10000000 * (n / 0x10000000) := by
  apply Nat.eq_of_testBit_eq
  intro i
  rw [show 0xF0000000 = 2 ^ 28 * (2 ^ 4 - 1) from rfl, show 0x10000000 = 2 ^ 28 from rfl,
    Nat.testBit_and, Nat.testBit_two_pow_mul, Nat.testBit_two_pow_mul, Nat.testBit_div_two_pow,
    Nat.testBit_two_pow_sub_one]
  -- The bits below 28 are cleared on both sides, and there are none from 32 on.
  by_cases low : i < 28
  · simp [Nat.not_le.mpr low]
  · have index : i - 28 + 28 = i := by omega
    rw [index]
    by_cases high : i < 32
    · simp [show 28 ≤ i by omega, show i - 28 < 4 by omega]
    · have le : 2 ^ 32 ≤ 2 ^ i := Nat.pow_le_pow_right (by decide) (by omega)
      have zero : n.testBit i = false := Nat.testBit_lt_two_pow (Nat.lt_of_lt_of_le lt le)
      simp [zero]

theorem toNat_toUnsigned_of_lt {n : Nat} (lt : n < 0x100000000) : (Alu.toUnsigned n).toNat = n := by
  have size : Alu.modulus = 4294967296 := rfl
  rw [Alu.toUnsigned, size]
  omega

theorem jumpTarget_of_lt {pc : Int} (nonneg : 0 ≤ pc) (lt : pc < 0x100000000) (target : BitVec 26) :
    Alu.or (Alu.and pc 0xF0000000) (target.toNat * 4) =
      pc / 0x10000000 * 0x10000000 + target.toNat * 4 := by
  obtain ⟨n, rfl⟩ := Int.eq_ofNat_of_zero_le nonneg
  have small := target.isLt
  have region : Alu.and n 0xF0000000 = ((0x10000000 * (n / 0x10000000) : Nat) : Int) := by
    rw [Alu.and, toNat_toUnsigned_of_lt (by omega), ← and_region (by omega)]
    rfl
  have joined : 0x10000000 * (n / 0x10000000) ||| target.toNat * 4 =
      0x10000000 * (n / 0x10000000) + target.toNat * 4 :=
    (Nat.two_pow_add_eq_or_of_lt (show target.toNat * 4 < 2 ^ 28 by omega) _).symm
  have field : (Alu.toUnsigned (target.toNat * 4)).toNat = target.toNat * 4 :=
    toNat_toUnsigned_of_lt (n := target.toNat * 4) (by omega)
  rw [region, Alu.or, toNat_toUnsigned_of_lt (by omega), field, joined]
  omega

/-! ## Cycles -/

variable {m : Machine} {w : Word} {rs rt : Register} {immediate : BitVec 16}

theorem equal_get (m : Machine) (r s : Register) :
    Alu.equal (m.get r) (m.get s) = decide (m.get r = m.get s) := by
  rw [Alu.equal_eq, get, get, ofInt_toNat, ofInt_toNat]
  exact decide_eq_decide.mpr (BitVec.toNat_inj.symm.trans Int.ofNat_inj.symm)

/-- A cycle that executes a branch. -/
theorem cycle_branch {op : IOp} {onEqual : Bool} (form : op.form = .branch onEqual)
    (fetched : m.fetch = .ok w) (decoded : Instruction.decode w = .i op.opcode rs rt immediate) :
    m.cycle = .ok (Instruction.decode w, { m with
      pc := if decide (m.get rs = m.get rt) = onEqual then (m.pc + 4 + 4 * immediate.toInt) % 0x100000000
        else (m.pc + 4) % 0x100000000 }) := by
  have supported : Instruction.isSupported w = true := by
    rw [Instruction.isSupported_eq, decoded, Instruction.operation?, IOp.ofOpcode?_opcode]
    rfl
  have branches : (Instruction.decode w).isBranch = true := by
    rw [decoded, Instruction.isBranch, IOp.ofOpcode?_opcode, Option.map_some, IOp.isBranch, form]
    rfl
  have executed : m.execute (Instruction.decode w) = .ok { m with
      pc := if decide (m.get rs = m.get rt) = onEqual then (m.pc + 4 + 4 * immediate.toInt) % 0x100000000
        else (m.pc + 4) % 0x100000000 } := by
    rw [decoded]
    simp only [execute, executeI, IOp.ofOpcode?_opcode, form, branchTarget_eq, equal_get, beq_iff_eq]
    rfl
  rw [cycle_of_execute fetched supported executed, advance, branches, Bool.or_true, if_pos rfl]

/-- The machine after a jump has noted where to return to, if it does. -/
def noted (m : Machine) : JOp → Machine
  | .j => m
  | .jal => m.set Register.ra (Alu.add m.pc 4)

/-- A cycle that executes a jump. -/
theorem cycle_jump {op : JOp} {target : BitVec 26} (nonneg : 0 ≤ m.pc) (lt : m.pc < 0x100000000)
    (fetched : m.fetch = .ok w) (decoded : Instruction.decode w = .j op.opcode target) :
    m.cycle = .ok (Instruction.decode w,
      { m.noted op with pc := m.pc / 0x10000000 * 0x10000000 + target.toNat * 4 }) := by
  have supported : Instruction.isSupported w = true := by
    rw [Instruction.isSupported_eq, decoded, Instruction.operation?, JOp.ofOpcode?_opcode]
    rfl
  have jumps : (Instruction.decode w).isJump = true := by rw [decoded, Instruction.isJump]
  have executed : m.execute (Instruction.decode w) =
      .ok { m.noted op with pc := m.pc / 0x10000000 * 0x10000000 + target.toNat * 4 } := by
    rw [decoded]
    simp only [execute, executeJ, JOp.ofOpcode?_opcode, jumpTarget_of_lt nonneg lt]
    cases op <;> rfl
  rw [cycle_of_execute fetched supported executed, advance, jumps, Bool.true_or, if_pos rfl]

end PocketMips.Machine
