import PocketMips.Proofs.Extent

/-!
# Accesses, loads and cycles in place

The memory and the machine as states that are changed in place, a cell, a register or the program counter
at a time. A step may fail between two changes, and what was changed before stays changed. Accesses, loads
and cycles make all their checks before the first change, so they are all or nothing: in place they do what
they do if they succeed, and leave the state as it was if they fail.
-/
namespace PocketMips

section Attempt

variable {σ ε α : Type} {s t : σ} {e : ε}

/-- What an attempt makes of a state: one that fails leaves it as it is. -/
def attempt (s : σ) : Except ε (α × σ) → EStateM.Result ε σ α
  | .ok (a, t) => .ok a t
  | .error e => .error e s

/-- Asks the state for something and leaves it as it is. -/
def ask (f : σ → Except ε α) : EStateM ε σ α := do
  MonadExcept.ofExcept (f (← get))

theorem run_ask (f : σ → Except ε α) (s : σ) : (ask f).run s = attempt s ((f s).map (·, s)) := by
  simp only [ask, EStateM.run_bind, EStateM.run_get]
  cases f s <;> rfl

theorem run_map_ask {β : Type} (g : α → β) (f : σ → Except ε α) (s : σ) :
    (do return g (← ask f)).run s = attempt s ((f s).map fun a => (g a, s)) := by
  rw [EStateM.run_bind, run_ask]
  cases f s <;> rfl

theorem attempt_eq_error {r : Except ε (α × σ)} :
    attempt s r = .error e t ↔ r = .error e ∧ t = s := by
  rcases r with e' | ⟨a, u⟩
  · rw [attempt, EStateM.Result.error.injEq, Except.error.injEq, eq_comm (a := s)]
  · simp [attempt]

end Attempt

namespace Memory

variable {m : Memory} {a : Int} {bs : List Byte}

/-- Sets the cells of bytes one after the other. -/
def storeEach (a : Int) : List Byte → EStateM Fault Memory Unit
  | [] => pure ()
  | b :: bs => do
    modify fun m => { m with cells := m.cells.insert (m.slot a) b }
    storeEach (a + 1) bs

/-- Stores bytes from an address on. -/
def store (a : Int) (bs : List Byte) : EStateM Fault Memory Unit := do
  if (← get).extent = .unbacked then
    throw .unbacked
  else if bs ≠ [] then
    ask (·.checkRange a bs.length)
    storeEach a bs

/-- Makes every cell zero in place. -/
def clearInPlace : EStateM Fault Memory Unit := do
  set (← ask clear)

/-- Performs an access in place. -/
def performInPlace : Access → EStateM Fault Memory Answer
  | .readByte a => return .number (← ask (·.readByte a))
  | .readHalfWord a => return .number (← ask (·.readHalfWord a))
  | .readWord a => return .number (← ask (·.readWord a))
  | .writeByte a v => do
    store a (toBytes 1 v)
    return .done
  | .writeHalfWord a v => do
    store a (toBytes 2 v)
    return .done
  | .writeWord a v => do
    store a (toBytes 4 v)
    return .done
  | .readBytes a width => return .bytes (← ask (·.readBytes a width))
  | .writeBytes a bs => do
    store a bs
    return .done
  | .dump start length => return .bytes (← ask (·.dump start length))
  | .checkRange a width => do
    ask (·.checkRange a width)
    return .done
  | .clear => do
    clearInPlace
    return .done

theorem run_storeEach (m : Memory) (a : Int) (bs : List Byte) :
    (storeEach a bs).run m = .ok () { m with cells := setCells m.slot a bs m.cells } := by
  induction bs generalizing m a with
  | nil => rfl
  | cons b bs ih =>
    rw [storeEach, EStateM.run_bind, EStateM.run_modify]
    exact ih _ _

theorem run_store (m : Memory) (a : Int) (bs : List Byte) :
    (store a bs).run m = attempt m ((m.writeBytes a bs).map ((), ·)) := by
  rw [store, EStateM.run_bind, EStateM.run_get]
  obtain ⟨extent, cells⟩ := m
  cases extent with
  | unbacked => rfl
  | fixed capacity | sparse =>
    by_cases empty : bs = []
    · subst empty
      rfl
    · simp only [reduceCtorEq, if_false, ne_eq, empty, not_false_eq_true, if_true, writeBytes,
        EStateM.run_bind, run_ask, run_storeEach]
      cases checkRange _ a bs.length <;> rfl

theorem run_clearInPlace (m : Memory) : clearInPlace.run m = attempt m (m.clear.map ((), ·)) := by
  rw [clearInPlace, EStateM.run_bind, run_ask]
  cases m.clear <;> rfl

/-- An access in place is all or nothing. -/
theorem run_performInPlace (access : Access) (m : Memory) :
    (performInPlace access).run m = attempt m (m.perform access) := by
  have stored (a : Int) (bs : List Byte) :
      (do store a bs; return Answer.done).run m = attempt m ((m.writeBytes a bs).map (.done, ·)) := by
    rw [EStateM.run_bind, run_store]
    cases m.writeBytes a bs <;> rfl
  cases access with
  | readByte | readHalfWord | readWord | readBytes | dump => exact run_map_ask _ _ m
  | writeByte | writeHalfWord | writeWord | writeBytes => exact stored _ _
  | checkRange a width => exact run_map_ask (fun _ => Answer.done) _ m
  | clear =>
    simp only [performInPlace, perform, EStateM.run_bind, run_clearInPlace]
    cases m.clear <;> rfl

/-- An image that was checked before the memory was cleared is written afterwards. -/
theorem writeBytes_of_clear {cleared : Memory} (clear : m.clear = .ok cleared)
    (checked : bs = [] ∨ m.checkRange a bs.length = .ok ()) :
    ∃ written, cleared.writeBytes a bs = .ok written := by
  obtain ⟨extent, cells⟩ := m
  cases extent with
  | unbacked => cases clear
  | sparse =>
    cases clear
    exact ⟨_, writeBytes_of_holds trivial⟩
  | fixed capacity =>
    cases clear
    rcases checked with rfl | checked
    · exact ⟨_, rfl⟩
    · exact ⟨_, writeBytes_of_holds (holds_of_checkRange rfl checked)⟩

end Memory

namespace Machine

variable {m : Machine} {rs rt rd : Register}

/-- A step of the memory as a step of the machine. -/
def onMemory {α : Type} (x : EStateM Memory.Fault Memory α) : EStateM Fault Machine α := fun m =>
  match x.run m.memory with
  | .ok a memory => .ok a { m with memory }
  | .error f memory => .error (.memory f) { m with memory }

/-- Installs a program image in place. -/
def loadInPlace (image : List Byte) (start : Int) : EStateM Fault Machine Unit := do
  if image ≠ [] then
    onMemory (ask (·.checkRange start image.length))
  onMemory Memory.clearInPlace
  onMemory (Memory.store start image)
  modify fun m => ⟨.cleared, start, m.memory, start, start + image.length⟩

/-- Executes a register-class instruction in place. -/
def executeRInPlace (rs rt rd : Register) (shamt : BitVec 5) (funct : BitVec 6) :
    EStateM Fault Machine Unit := do
  let m ← MonadState.get
  match ROp.ofFunct? funct.toNat with
  | none => throw (.unsupported (Instruction.r rs rt rd shamt funct).toWord m.pc)
  | some op =>
    match rValue (m.get rs) (m.get rt) shamt.toNat op with
    | some v => modify (·.set rd v)
    | none => modify ({ · with pc := m.get rs })

/-- Executes an immediate-class instruction in place. -/
def executeIInPlace (opcode : BitVec 6) (rs rt : Register) (immediate : BitVec 16) :
    EStateM Fault Machine Unit := do
  let m ← MonadState.get
  let offset := Alu.signExtend 16 immediate.toNat
  match IOp.ofOpcode? opcode.toNat with
  | none => throw (.unsupported (Instruction.i opcode rs rt immediate).toWord m.pc)
  | some op =>
    match op.form with
    | .compute => modify (·.set rt (iValue (m.get rs) immediate op))
    | .load width signed =>
      let v ← onMemory (ask (·.readNumber width (Alu.add (m.get rs) offset)))
      modify (·.set rt (extended width signed v))
    | .store width => onMemory (Memory.store (Alu.add (m.get rs) offset) (toBytes width (m.get rt)))
    | .branch onEqual =>
      let next := Alu.add m.pc 4
      let taken := Alu.equal (m.get rs) (m.get rt) == onEqual
      modify ({ · with pc := if taken then Alu.add next (Alu.shiftLeft offset 2) else next })

/-- Executes a jump-class instruction in place: the return address is noted before the jump. -/
def executeJInPlace (opcode : BitVec 6) (target : BitVec 26) : EStateM Fault Machine Unit := do
  let m ← MonadState.get
  match JOp.ofOpcode? opcode.toNat with
  | none => throw (.unsupported (Instruction.j opcode target).toWord m.pc)
  | some op =>
    if op = .jal then
      modify (·.set Register.ra (Alu.add m.pc 4))
    modify ({ · with pc := Alu.or (Alu.and m.pc 0xF0000000) (target.toNat * 4) })

/-- Executes an instruction in place. -/
def executeInPlace : Instruction → EStateM Fault Machine Unit
  | .r rs rt rd shamt funct => executeRInPlace rs rt rd shamt funct
  | .i opcode rs rt immediate => executeIInPlace opcode rs rt immediate
  | .j opcode target => executeJInPlace opcode target

/-- One cycle in place. -/
def cycleInPlace : EStateM Fault Machine Instruction := do
  let pc := (← MonadState.get).pc
  let w ← ask fetch
  let instr := Instruction.decode w
  if Instruction.isSupported w then
    executeInPlace instr
    unless instr.isJump || instr.isBranch do
      modify fun m => { m with pc := Alu.add m.pc 4 }
    return instr
  else throw (.unsupported w pc)

theorem run_onMemory {α : Type} {x : EStateM Memory.Fault Memory α}
    {r : Except Memory.Fault (α × Memory)} (h : x.run m.memory = attempt m.memory r) :
    (onMemory x).run m = attempt m ((liftMemory r).map fun p => (p.1, { m with memory := p.2 })) := by
  rw [EStateM.run, onMemory, h]
  cases r <;> rfl

theorem run_executeRInPlace (m : Machine) (shamt : BitVec 5) (funct : BitVec 6) :
    (executeRInPlace rs rt rd shamt funct).run m =
      attempt m ((m.executeR rs rt rd shamt funct).map ((), ·)) := by
  simp only [executeRInPlace, executeR, EStateM.run_bind, EStateM.run_get]
  cases ROp.ofFunct? funct.toNat with
  | none => rfl
  | some op =>
    dsimp only
    cases rValue (m.get rs) (m.get rt) shamt.toNat op <;> rfl

theorem run_executeIInPlace (m : Machine) (opcode : BitVec 6) (immediate : BitVec 16) :
    (executeIInPlace opcode rs rt immediate).run m =
      attempt m ((m.executeI opcode rs rt immediate).map ((), ·)) := by
  simp only [executeIInPlace, executeI, EStateM.run_bind, EStateM.run_get]
  cases IOp.ofOpcode? opcode.toNat with
  | none => rfl
  | some op =>
    dsimp only
    cases op.form with
    | compute | branch => rfl
    | load width signed =>
      dsimp only
      rw [EStateM.run_bind, run_onMemory (run_ask _ _)]
      cases m.memory.readNumber _ _ <;> rfl
    | store width =>
      dsimp only
      rw [run_onMemory (Memory.run_store _ _ _), Memory.writeNumber]
      cases m.memory.writeBytes _ _ <;> rfl

theorem run_executeJInPlace (m : Machine) (opcode : BitVec 6) (target : BitVec 26) :
    (executeJInPlace opcode target).run m = attempt m ((m.executeJ opcode target).map ((), ·)) := by
  simp only [executeJInPlace, executeJ, EStateM.run_bind, EStateM.run_get]
  cases JOp.ofOpcode? opcode.toNat with
  | none => rfl
  | some op => cases op <;> rfl

theorem run_executeInPlace (instr : Instruction) (m : Machine) :
    (executeInPlace instr).run m = attempt m ((m.execute instr).map ((), ·)) := by
  cases instr with
  | r => exact run_executeRInPlace m _ _
  | i => exact run_executeIInPlace m _ _
  | j => exact run_executeJInPlace m _ _

/-- A load in place is all or nothing. -/
theorem run_loadInPlace (m : Machine) (image : List Byte) (start : Int) :
    (loadInPlace image start).run m = attempt m ((m.load image start).map ((), ·)) := by
  -- Behind the check nothing fails any more but the clearing of a memory without cells.
  have installed (checked : image = [] ∨ m.memory.checkRange start image.length = .ok ()) :
      (do
        onMemory Memory.clearInPlace
        onMemory (Memory.store start image)
        modify fun m => ⟨.cleared, start, m.memory, start, start + image.length⟩ :
          EStateM Fault Machine Unit).run m =
        attempt m (Except.map ((), ·) do
          let cleared ← liftMemory m.memory.clear
          let memory ← liftMemory (cleared.writeBytes start image)
          return ⟨.cleared, start, memory, start, start + image.length⟩) := by
    rw [EStateM.run_bind, run_onMemory (Memory.run_clearInPlace _)]
    cases clear : m.memory.clear with
    | error f => rfl
    | ok cleared =>
      obtain ⟨memory, written⟩ := Memory.writeBytes_of_clear clear checked
      have outcome : (do
          let cleared ← liftMemory (.ok cleared)
          let memory ← liftMemory (cleared.writeBytes start image)
          return ⟨.cleared, start, memory, start, start + image.length⟩) =
          Except.ok (⟨.cleared, start, memory, start, start + image.length⟩ : Machine) := by
        show (liftMemory (cleared.writeBytes start image) >>= _) = _
        rw [written]
        rfl
      rw [outcome]
      simp only [liftMemory, Except.map, Except.mapError, attempt, EStateM.run_bind]
      rw [run_onMemory (Memory.run_store _ _ _), written]
      rfl
  rw [loadInPlace, load]
  by_cases empty : image = []
  · simp only [empty, ne_eq, not_true_eq_false, if_false] at installed ⊢
    exact installed (.inl trivial)
  · simp only [ne_eq, empty, not_false_eq_true, if_true] at installed ⊢
    rw [EStateM.run_bind, run_onMemory (run_ask _ _)]
    cases checked : m.memory.checkRange start image.length with
    | error f => rfl
    | ok _ => exact installed (.inr checked)

/-- A cycle in place is all or nothing. -/
theorem run_cycleInPlace (m : Machine) : cycleInPlace.run m = attempt m m.cycle := by
  simp only [cycleInPlace, EStateM.run_bind, EStateM.run_get, run_ask]
  cases fetched : m.fetch with
  | error f =>
    rw [cycle_of_fetch_error fetched]
    rfl
  | ok w =>
    simp only [Except.map, attempt]
    cases supported : Instruction.isSupported w with
    | false =>
      rw [cycle_of_unsupported fetched supported]
      rfl
    | true =>
      simp only [if_true, EStateM.run_bind, run_executeInPlace]
      cases executed : m.execute (Instruction.decode w) with
      | error f =>
        rw [cycle_of_execute_error fetched supported executed]
        rfl
      | ok n =>
        rw [cycle_of_execute fetched supported executed]
        simp only [Except.map, attempt, advance]
        cases (Instruction.decode w).isJump || (Instruction.decode w).isBranch <;> rfl

end Machine

end PocketMips
