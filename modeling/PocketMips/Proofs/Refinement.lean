import PocketMips.Proofs.Cycle
import PocketMips.Proofs.Instruction
import PocketMips.Proofs.View

/-!
# A cycle is a step of the machine of words

In a state that a run can be in, a cycle whose accesses the memory holds does what the step of the view
does, and keeps everything that the view leaves out.
-/
namespace PocketMips.Machine

variable {m : Machine} {rs rt rd : Register} {shamt : BitVec 5} {immediate : BitVec 16}

/-- The instruction takes the machine to a state of its view that is regular again. -/
def Executes (m : Machine) (instr : Instruction) (s : Option WordMachine) : Prop :=
  ∃ n, m.execute instr = .ok n ∧ s = some (n.advance instr).view ∧ (n.advance instr).Regular ∧
    m.SameProgram (n.advance instr)

/-! ## Numbers as words -/

theorem ofInt_add_four : BitVec.ofInt 32 (Alu.add m.pc 4) = m.view.pc + 4 := by
  rw [Alu.add_eq, ofInt_toNat]
  rfl

@[simp] theorem ofInt_flag (b : Bool) : BitVec.ofInt 32 (flag b) = WordMachine.bit b := by
  cases b <;> rfl

theorem toNat_shamt (shamt : BitVec 5) : ((shamt.toNat : Int) % 32).toNat = shamt.toNat := by
  have := shamt.isLt
  omega

theorem signExtend_toNat {bits : Nat} (pos : 0 < bits) (le : bits ≤ 32) (x : BitVec bits) :
    Alu.signExtend bits x.toNat = (x.signExtend 32).toNat := by
  rw [Alu.signExtend_eq pos le, ofInt_toNat]

theorem signExtend_immediate :
    Alu.signExtend 16 immediate.toNat = (immediate.signExtend 32).toNat :=
  signExtend_toNat (by decide) (by decide) immediate

theorem zeroExtend_immediate :
    Alu.zeroExtend 16 immediate.toNat = (immediate.setWidth 32).toNat := by
  have narrow : immediate.toNat < 2 ^ 32 := by
    have := immediate.isLt
    omega
  rw [Alu.zeroExtend_eq, ofInt_toNat,
    BitVec.toNat_setWidth, Nat.mod_eq_of_lt narrow]

theorem Regular.address_eq (h : m.Regular) :
    Alu.add (m.get rs) (Alu.signExtend 16 immediate.toNat) = (m.view.address rs immediate).toNat := by
  rw [Alu.add_eq, h.get, signExtend_immediate, ofInt_toNat, ofInt_toNat]
  rfl

/-! ## Going on to the next instruction -/

theorem advance_of_sequential {instr : Instruction} (h : (instr.isJump || instr.isBranch) = false)
    (n : Machine) : n.advance instr = { n with pc := Alu.add n.pc 4 } := by
  rw [advance, h]
  rfl

theorem advance_of_transfer {instr : Instruction} (h : (instr.isJump || instr.isBranch) = true)
    (n : Machine) : n.advance instr = n := by
  rw [advance, h]
  rfl

/-- An instruction that leaves the program counter alone takes the view to its next state. -/
theorem executes_next {instr : Instruction} (seq : (instr.isJump || instr.isBranch) = false)
    {n : Machine} (he : m.execute instr = .ok n) (zero : n.registers.get 0 = 0)
    (same : m.SameProgram n) : m.Executes instr (some n.view.next) := by
  have next := advance_of_sequential seq n
  refine ⟨n, he, ?_, ?_, ?_⟩
  · rw [next, view_pc n (Alu.add n.pc 4), ofInt_add_four]
    rfl
  · rw [next]
    exact regular_of_pc zero (Alu.add_eq _ _)
  · rw [next]
    exact ⟨same.start, same.stop, same.extent⟩

theorem executes_result {instr : Instruction} (h : m.Regular)
    (seq : (instr.isJump || instr.isBranch) = false) {r : Register} {v : Int}
    (he : m.execute instr = .ok (m.set r v)) :
    m.Executes instr (m.view.result r (BitVec.ofInt 32 v)) := by
  rw [WordMachine.result, ← view_set]
  exact executes_next seq he (get_zero_set h.zero r v) ⟨rfl, rfl, rfl⟩

/-- An instruction that sets the program counter to a word. -/
theorem executes_transfer {instr : Instruction} (transfer : (instr.isJump || instr.isBranch) = true)
    {n : Machine} {w : Word} (he : m.execute instr = .ok { n with pc := w.toNat })
    (zero : n.registers.get 0 = 0) (same : m.SameProgram n) :
    m.Executes instr (some { n.view with pc := w }) := by
  refine ⟨_, he, ?_, ?_, ?_⟩
  · rw [advance_of_transfer transfer, view_pc n w.toNat, ofInt_toNat]
  · rw [advance_of_transfer transfer]
    exact regular_of_pc zero rfl
  · rw [advance_of_transfer transfer]
    exact ⟨same.start, same.stop, same.extent⟩

/-! ## The register class -/

theorem isJump_r (op : ROp) : (Instruction.r rs rt rd shamt op.funct).isJump = decide (op = .jr) := by
  simp only [Instruction.isJump, ROp.ofFunct?_funct, Option.some.injEq]

/-- The number that an operation other than `jr` computes is the word of its result. -/
theorem Regular.rValue_eq (h : m.Regular) (rs rt rd : Register) (shamt : BitVec 5) {op : ROp}
    (computes : op ≠ .jr) :
    ∃ v, rValue (m.get rs) (m.get rt) shamt.toNat op = some v ∧
      m.view.executeR rs rt rd shamt op.funct = m.view.result rd (BitVec.ofInt 32 v) := by
  cases op with
  | add => exact ⟨_, rfl, by rw [Alu.add_eq, h.get, h.get, ofInt_toNat, ofInt_toNat, ofInt_toNat]; rfl⟩
  | sub =>
    exact ⟨_, rfl, by rw [Alu.subtract_eq, h.get, h.get, ofInt_toNat, ofInt_toNat, ofInt_toNat]; rfl⟩
  | and => exact ⟨_, rfl, by rw [Alu.and_eq, h.get, h.get, ofInt_toNat, ofInt_toNat, ofInt_toNat]; rfl⟩
  | or => exact ⟨_, rfl, by rw [Alu.or_eq, h.get, h.get, ofInt_toNat, ofInt_toNat, ofInt_toNat]; rfl⟩
  | nor => exact ⟨_, rfl, by rw [Alu.nor_eq, h.get, h.get, ofInt_toNat, ofInt_toNat, ofInt_toNat]; rfl⟩
  | sll => exact ⟨_, rfl, by rw [Alu.shiftLeft_eq, h.get, toNat_shamt, ofInt_toNat, ofInt_toNat]; rfl⟩
  | srl => exact ⟨_, rfl, by rw [Alu.shiftRight_eq, h.get, toNat_shamt, ofInt_toNat, ofInt_toNat]; rfl⟩
  | slt => exact ⟨_, rfl, by rw [Alu.lessThan_eq, h.get, h.get, ofInt_toNat, ofInt_toNat, ofInt_flag]; rfl⟩
  | sltu =>
    exact ⟨_, rfl, by
      rw [Alu.lessThanUnsigned_eq, h.get, h.get, ofInt_toNat, ofInt_toNat, ofInt_flag]; rfl⟩
  | jr => exact absurd rfl computes

theorem Regular.executes_r (h : m.Regular) (op : ROp) :
    m.Executes (.r rs rt rd shamt op.funct) (m.view.executeR rs rt rd shamt op.funct) := by
  have jump : (Instruction.r rs rt rd shamt op.funct).isJump = decide (op = .jr) := isJump_r op
  by_cases computes : op = .jr
  · subst computes
    have he : m.execute (.r rs rt rd shamt ROp.jr.funct) =
        .ok { m with pc := ((m.view.read rs).toNat : Int) } := by
      rw [← h.get]
      simp only [execute, executeR, ROp.ofFunct?_funct, rValue]
    exact executes_transfer (by rw [jump]; rfl) he h.zero ⟨rfl, rfl, rfl⟩
  · obtain ⟨v, value, view⟩ := h.rValue_eq rs rt rd shamt computes
    have he : m.execute (.r rs rt rd shamt op.funct) = .ok (m.set rd v) := by
      simp only [execute, executeR, ROp.ofFunct?_funct, value]
    rw [view]
    exact executes_result h (by rw [jump, decide_eq_false computes]; rfl) he

/-! ## The immediate class -/

theorem isBranch_i (op : IOp) :
    ((Instruction.i op.opcode rs rt immediate).isJump ||
      (Instruction.i op.opcode rs rt immediate).isBranch) = op.isBranch := by
  simp only [Instruction.isJump, Instruction.isBranch, IOp.ofOpcode?_opcode, Option.map_some,
    Option.getD_some, Bool.false_or]

theorem execute_compute (op : IOp) (form : op.form = .compute) :
    m.execute (.i op.opcode rs rt immediate) = .ok (m.set rt (iValue (m.get rs) immediate op)) := by
  simp only [execute, executeI, IOp.ofOpcode?_opcode, form]

theorem Regular.execute_load (h : m.Regular) (op : IOp) {width : Nat} {signed : Bool}
    (form : op.form = .load width signed) {v : Nat}
    (value : m.memory.readNumber width (m.view.address rs immediate).toNat = .ok v) :
    m.execute (.i op.opcode rs rt immediate) = .ok (m.set rt (extended width signed v)) := by
  simp only [execute, executeI, IOp.ofOpcode?_opcode, form, h.address_eq, value]
  rfl

/-- The machine after a store. -/
def stored (m : Machine) (a v : Word) (width : Nat) : Machine :=
  { m with memory := { m.memory with
      cells := Memory.setCells m.memory.slot a.toNat (toBytes width v.toNat) m.memory.cells } }

theorem Regular.execute_store (h : m.Regular) (op : IOp) {width : Nat}
    (form : op.form = .store width)
    (holds : m.memory.Holds (m.view.address rs immediate).toNat width) :
    m.execute (.i op.opcode rs rt immediate) =
      .ok (m.stored (m.view.address rs immediate) (m.view.read rt) width) := by
  have written : m.memory.writeNumber width (Alu.add (m.get rs) (Alu.signExtend 16 immediate.toNat))
      (m.get rt) = .ok (m.stored (m.view.address rs immediate) (m.view.read rt) width).memory := by
    rw [h.address_eq, h.get, Memory.writeNumber, Memory.writeBytes_of_holds (by rwa [length_toBytes])]
    rfl
  simp only [execute, executeI, IOp.ofOpcode?_opcode, form, written]
  rfl

theorem Regular.execute_branch (h : m.Regular) (op : IOp) {onEqual : Bool}
    (form : op.form = .branch onEqual) :
    m.execute (.i op.opcode rs rt immediate) =
      .ok { m with
        pc := ((m.view.branch ((m.view.read rs == m.view.read rt) == onEqual) immediate).pc).toNat } := by
  have next : Alu.add m.pc 4 = ((m.view.pc + 4).toNat : Int) := by
    rw [Alu.add_eq]
    rfl
  have offset : Alu.shiftLeft ((immediate.signExtend 32).toNat : Int) 2 =
      ((4 * immediate.signExtend 32).toNat : Int) := by
    rw [Alu.shiftLeft_eq, ofInt_toNat, BitVec.shiftLeft_eq_mul_twoPow, BitVec.mul_comm]
    rfl
  have taken : Alu.equal (m.get rs) (m.get rt) = (m.view.read rs == m.view.read rt) := by
    rw [Alu.equal_eq, h.get, h.get, ofInt_toNat, ofInt_toNat]
    rfl
  simp only [execute, executeI, IOp.ofOpcode?_opcode, form, signExtend_immediate, next, offset, taken,
    Alu.add_eq, ofInt_toNat, WordMachine.branch]
  cases (m.view.read rs == m.view.read rt) == onEqual <;> rfl

/-- An opcode without a store, a load or a branch computes; its word is the one of the number. -/
theorem Regular.iValue_eq (h : m.Regular) {op : IOp} (form : op.form = .compute) :
    m.view.executeI rs rt immediate op.opcode =
      m.view.result rt (BitVec.ofInt 32 (iValue (m.get rs) immediate op)) := by
  cases op with
  | addi =>
    show _ = m.view.result rt (BitVec.ofInt 32 (Alu.add (m.get rs) (Alu.signExtend 16 immediate.toNat)))
    rw [Alu.add_eq, h.get, signExtend_immediate, ofInt_toNat, ofInt_toNat, ofInt_toNat]
    rfl
  | andi =>
    rw [iValue, Alu.and_eq, h.get, zeroExtend_immediate, ofInt_toNat, ofInt_toNat, ofInt_toNat]
    rfl
  | ori =>
    rw [iValue, Alu.or_eq, h.get, zeroExtend_immediate, ofInt_toNat, ofInt_toNat, ofInt_toNat]
    rfl
  | slti =>
    rw [iValue, Alu.lessThan_eq, h.get, signExtend_immediate, ofInt_toNat, ofInt_toNat, ofInt_flag]
    rfl
  | sltiu =>
    rw [iValue, Alu.lessThanUnsigned_eq, h.get, signExtend_immediate, ofInt_toNat, ofInt_toNat,
      ofInt_flag]
    rfl
  | lw | lh | lb | lhu | sw | sh | sb | beq | bne => cases form

/-- The word that a load puts into its register. -/
theorem readNumber_extended (rt : Register) {op : IOp} {width : Nat} {signed : Bool}
    (form : op.form = .load width signed)
    (holds : m.memory.Holds (m.view.address rs immediate).toNat width) :
    ∃ v : Nat, m.memory.readNumber width (m.view.address rs immediate).toNat = .ok v ∧
      m.view.executeI rs rt immediate op.opcode =
        m.view.result rt (BitVec.ofInt 32 (extended width signed v)) := by
  cases op with
  | lw =>
    cases form
    refine ⟨_, readWord_eq holds, ?_⟩
    simp only [extended, Bool.false_eq_true, ↓reduceIte, ofInt_toNat]
    rfl
  | lh =>
    cases form
    refine ⟨_, readHalf_eq holds, ?_⟩
    simp only [extended, ↓reduceIte]
    rw [signExtend_toNat (by decide) (by decide), ofInt_toNat]
    rfl
  | lb =>
    cases form
    refine ⟨_, readByte_eq holds, ?_⟩
    simp only [extended, ↓reduceIte]
    rw [signExtend_toNat (by decide) (by decide), ofInt_toNat]
    rfl
  | lhu =>
    cases form
    refine ⟨_, readHalf_eq holds, ?_⟩
    simp only [extended, Bool.false_eq_true, ↓reduceIte, BitVec.ofInt_natCast, BitVec.ofNat_toNat]
    rfl
  | addi | andi | ori | slti | sltiu | sw | sh | sb | beq | bne => cases form

theorem Regular.executes_i (h : m.Regular) (op : IOp)
    (holds : ∀ width, WordMachine.accessWidth? op.opcode = some width →
      m.memory.Holds (m.view.address rs immediate).toNat width) :
    m.Executes (.i op.opcode rs rt immediate) (m.view.executeI rs rt immediate op.opcode) := by
  have transfer : ((Instruction.i op.opcode rs rt immediate).isJump ||
      (Instruction.i op.opcode rs rt immediate).isBranch) = op.isBranch := isBranch_i op
  cases form : op.form with
  | compute =>
    have goesOn : op.isBranch = false := by rw [IOp.isBranch, form]
    rw [h.iValue_eq form]
    exact executes_result h (by rw [transfer, goesOn]) (execute_compute op form)
  | load width signed =>
    have goesOn : op.isBranch = false := by rw [IOp.isBranch, form]
    have access : WordMachine.accessWidth? op.opcode = some width := by
      cases op <;> cases form <;> rfl
    obtain ⟨v, value, view⟩ := readNumber_extended rt form (holds width access)
    rw [view]
    exact executes_result h (by rw [transfer, goesOn]) (h.execute_load op form value)
  | store width =>
    have goesOn : op.isBranch = false := by rw [IOp.isBranch, form]
    have access : WordMachine.accessWidth? op.opcode = some width := by
      cases op <;> cases form <;> rfl
    have view : m.view.executeI rs rt immediate op.opcode =
        some (m.stored (m.view.address rs immediate) (m.view.read rt) width).view.next := by
      rw [stored, view_store]
      cases op <;> cases form <;> rfl
    rw [view]
    exact executes_next (by rw [transfer, goesOn]) (h.execute_store op form (holds width access))
      h.zero ⟨rfl, rfl, rfl⟩
  | branch onEqual =>
    have goesElsewhere : op.isBranch = true := by rw [IOp.isBranch, form]
    have view : m.view.executeI rs rt immediate op.opcode =
        some (m.view.branch ((m.view.read rs == m.view.read rt) == onEqual) immediate) := by
      cases op <;> cases form
      · rw [beq_true]
        rfl
      · rw [beq_false]
        rfl
    rw [view]
    exact executes_transfer (by rw [transfer, goesElsewhere]) (h.execute_branch op form) h.zero
      ⟨rfl, rfl, rfl⟩

/-! ## The jump class -/

theorem jumpTarget_eq (target : BitVec 26) :
    Alu.or (Alu.and m.pc 0xF0000000) (target.toNat * 4) = (m.view.jumpTarget target).toNat := by
  rw [Alu.or_eq, Alu.and_eq, ofInt_toNat, BitVec.ofInt_mul, BitVec.ofInt_natCast, BitVec.ofNat_toNat]
  rfl

theorem Regular.executes_j (h : m.Regular) (target : BitVec 26) :
    m.Executes (.j JOp.j.opcode target) (some { m.view with pc := m.view.jumpTarget target }) := by
  have he : m.execute (.j JOp.j.opcode target) =
      .ok { m with pc := ((m.view.jumpTarget target).toNat : Int) } := by
    simp only [execute, executeJ, JOp.ofOpcode?_opcode, jumpTarget_eq]
  exact executes_transfer rfl he h.zero ⟨rfl, rfl, rfl⟩

theorem Regular.executes_jal (h : m.Regular) (target : BitVec 26) :
    m.Executes (.j JOp.jal.opcode target)
      (some { m.view.write 31 (m.view.pc + 4) with pc := m.view.jumpTarget target }) := by
  have he : m.execute (.j JOp.jal.opcode target) =
      .ok { m.set Register.ra (Alu.add m.pc 4) with
        pc := ((m.view.jumpTarget target).toNat : Int) } := by
    simp only [execute, executeJ, JOp.ofOpcode?_opcode, jumpTarget_eq]
  have view : m.view.write 31 (m.view.pc + 4) = (m.set Register.ra (Alu.add m.pc 4)).view := by
    rw [view_set, ofInt_add_four]
    rfl
  rw [view]
  exact executes_transfer rfl he (get_zero_set h.zero _ _) ⟨rfl, rfl, rfl⟩

/-! ## Cycles -/

/-- A supported word executes as the machine of words executes it. -/
theorem Regular.executes (h : m.Regular) {w : Word} (supported : Instruction.isSupported w = true)
    (holds : ∀ width, WordMachine.accessWidth? (w.extractLsb' 26 6) = some width →
      m.memory.Holds (m.view.address (w.extractLsb' 21 5) (w.extractLsb' 0 16)).toNat width) :
    m.Executes (Instruction.decode w) (m.view.execute w) := by
  rcases Instruction.codes_of_isSupported supported with ⟨opcode, op, funct⟩ | ⟨op, opcode⟩ | ⟨op, opcode⟩
  · have view : m.view.execute w = m.view.executeR (w.extractLsb' 21 5) (w.extractLsb' 16 5)
        (w.extractLsb' 11 5) (w.extractLsb' 6 5) op.funct := by
      rw [← funct, WordMachine.execute, show w.extractLsb' 26 6 = 0 from opcode]
      rfl
    rw [Instruction.decode_r opcode, funct, view]
    exact h.executes_r op
  · have field : w.extractLsb' 26 6 = op.opcode := opcode
    have view : m.view.execute w = m.view.executeI (w.extractLsb' 21 5) (w.extractLsb' 16 5)
        (w.extractLsb' 0 16) op.opcode := by
      rw [WordMachine.execute, field]
      cases op <;> rfl
    rw [field] at holds
    rw [Instruction.decode_i opcode, view]
    exact h.executes_i op holds
  · rw [Instruction.decode_j opcode, WordMachine.execute, show w.extractLsb' 26 6 = op.opcode from opcode]
    cases op with
    | j => exact h.executes_j _
    | jal => exact h.executes_jal _

/-- **Refinement.** A cycle of a regular machine that fetches a supported word, and whose accesses the
memory holds, is the step of its view: the machine afterwards is regular, shows the view after the step
and has the same program. -/
theorem cycle_refines_step (h : m.Regular) (fetched : m.memory.Holds m.pc 4)
    (supported : Instruction.isSupported m.view.fetch = true)
    (accessed : ∀ a width, m.view.access? = some (a, width) → m.memory.Holds a.toNat width) :
    ∃ n, m.cycle = .ok (Instruction.decode m.view.fetch, n) ∧ m.view.step = some n.view ∧ n.Regular ∧
      m.SameProgram n := by
  have holds : ∀ width, WordMachine.accessWidth? (m.view.fetch.extractLsb' 26 6) = some width →
      m.memory.Holds (m.view.address (m.view.fetch.extractLsb' 21 5)
        (m.view.fetch.extractLsb' 0 16)).toNat width := by
    intro width access
    exact accessed _ width (by rw [WordMachine.access?, access]; rfl)
  obtain ⟨n, execute, view, regular, same⟩ := h.executes supported holds
  refine ⟨n.advance (Instruction.decode m.view.fetch), ?_, view, regular, same⟩
  exact cycle_of_execute (h.fetch_eq fetched) supported execute

/-- About to execute `lb $t1, -1($t0)`, with the byte `0x80` at the address. -/
def signedLoad : Machine where
  registers := RegisterFile.cleared.set 8 8
  pc := 0
  memory := ⟨.fixed 8, Memory.setCells Int.toNat 0 [0xFF, 0xFF, 0x09, 0x81, 0, 0, 0, 0x80] ∅⟩
  start := 0
  stop := 4

theorem signedLoad_refines_step :
    signedLoad.Regular ∧ signedLoad.memory.Holds signedLoad.pc 4 ∧
      signedLoad.view.access? = some (7, 1) ∧
      ∃ n, signedLoad.cycle = .ok (Instruction.decode signedLoad.view.fetch, n) ∧
        signedLoad.view.step = some n.view ∧ n.Regular ∧ signedLoad.SameProgram n := by
  have regular : signedLoad.Regular := ⟨by decide +kernel, by decide, by decide⟩
  have fetched : signedLoad.memory.Holds signedLoad.pc 4 := by decide
  have access : signedLoad.view.access? = some (7, 1) := by decide +kernel
  have accessed : ∀ a width, signedLoad.view.access? = some (a, width) →
      signedLoad.memory.Holds a.toNat width := by
    intro a width h
    rw [access] at h
    cases h
    decide
  exact ⟨regular, fetched, access,
    cycle_refines_step regular fetched (by decide +kernel) accessed⟩

end PocketMips.Machine
