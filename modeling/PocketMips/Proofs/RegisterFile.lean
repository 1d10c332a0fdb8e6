import PocketMips.Register
import PocketMips.Proofs.Alu
import Mathlib.Tactic.Common

/-!
# What a register file keeps

A register file is read and written by index, from its front or from its end. A write changes the register
that its index names and no other one. Register zero is protected under its index zero only: by the index
that names it from the end it is written like every other register, and nothing else makes it other than
zero.
-/
namespace PocketMips

namespace Register

variable {i : Int} {r : Register}

theorem ofIndex?_isSome_iff : (ofIndex? i).isSome = true ↔ -32 ≤ i ∧ i < 32 := by
  unfold ofIndex?
  split <;> simp [*]

theorem toNat_of_ofIndex? (h : ofIndex? i = some r) : (r.toNat : Int) = i % 32 := by
  unfold ofIndex? at h
  split at h <;> cases h
  exact toNat_ofInt_eq 5 i

theorem ofIndex?_eq_zero_iff : ofIndex? i = some 0 ↔ i = 0 ∨ i = -32 := by
  constructor
  · intro h
    have inside := ofIndex?_isSome_iff.mp (Option.isSome_of_eq_some h)
    have residue : (0 : Int) = i % 32 := toNat_of_ofIndex? h
    omega
  · rintro (rfl | rfl) <;> rfl

end Register

namespace RegisterFile

/-- An operation on a register file, by its methods or by a subscript. -/
inductive Operation
  | read (index : Int)
  | write (index value : Int)
  | get (index : Int)
  | set (index value : Int)
  | reset
  deriving DecidableEq, Repr

/-- The word that an operation answers, if it reads, and the file after it; no answer if there is no register
of the index. -/
def perform (f : RegisterFile) : Operation → Option (Option Word × RegisterFile)
  | .read i | .get i => (f.read? i).map fun w => (some w, f)
  | .write i v | .set i v => (f.write? i v).map fun g => (none, g)
  | .reset => some (none, cleared)

/-- The file after an operation, which leaves it as it is if it fails. -/
def after (f : RegisterFile) (op : Operation) : RegisterFile := ((f.perform op).map (·.2)).getD f

/-- The file after operations one after the other. -/
def afterAll (f : RegisterFile) (ops : List Operation) : RegisterFile := ops.foldl after f

/-- Writes to register zero past its protection. -/
def Operation.Trespasses : Operation → Prop
  | .write i _ | .set i _ => i = -32
  | .read _ | .get _ | .reset => False

instance (op : Operation) : Decidable op.Trespasses :=
  match op with
  | .write i _ | .set i _ => inferInstanceAs (Decidable (i = -32))
  | .read _ | .get _ | .reset => inferInstanceAs (Decidable False)

/-- The word in register zero after an operation. -/
def Operation.zeroAfter (w : Word) : Operation → Word
  | .write i v | .set i v => if i = -32 then BitVec.ofInt 32 v else w
  | .read _ | .get _ => w
  | .reset => 0

variable {f g : RegisterFile} {i v : Int} {op : Operation} {ops : List Operation}

/-! ## One operation -/

theorem write?_isSome_iff : (f.write? i v).isSome = true ↔ -32 ≤ i ∧ i < 32 := by
  unfold write?
  split
  · subst i
    simp
  · rw [Option.isSome_map, Register.ofIndex?_isSome_iff]

/-- A write that succeeds leaves all registers alone but the one that its index names, and that one too if it
is written by the index zero. -/
theorem get_of_write? (h : f.write? i v = some g) :
    ∃ r, Register.ofIndex? i = some r ∧
      ∀ s, g.get s = if s = r ∧ i ≠ 0 then BitVec.ofInt 32 v else f.get s := by
  unfold write? at h
  split at h
  · rename_i zero
    cases h
    exact ⟨0, Register.ofIndex?_eq_zero_iff.mpr (.inl zero), fun s => by simp [zero]⟩
  · rename_i nonzero
    obtain ⟨r, named, rfl⟩ := Option.map_eq_some_iff.mp h
    refine ⟨r, named, fun s => ?_⟩
    simp only [get_put, eq_comm (a := r), nonzero, ne_eq, not_false_eq_true, and_true]

theorem get_zero_write? (h : f.write? i v = some g) :
    g.get 0 = if i = -32 then BitVec.ofInt 32 v else f.get 0 := by
  obtain ⟨r, named, get⟩ := get_of_write? h
  have zero : 0 = r ∧ i ≠ 0 ↔ i = -32 := by
    constructor
    · rintro ⟨rfl, nonzero⟩
      exact (Register.ofIndex?_eq_zero_iff.mp named).resolve_left nonzero
    · rintro rfl
      cases named
      exact ⟨rfl, by decide⟩
  rw [get]
  simp only [zero]

theorem get_zero_after : (f.after op).get 0 = op.zeroAfter (f.get 0) := by
  -- a write that fails has an index beyond all registers
  have write (i v : Int) : (((f.write? i v).map fun g => ((none : Option Word), g)).map (·.2) |>.getD f).get 0 =
      if i = -32 then BitVec.ofInt 32 v else f.get 0 := by
    cases written : f.write? i v with
    | none =>
      have outside : ¬(-32 ≤ i ∧ i < 32) := by
        rw [← write?_isSome_iff (f := f) (v := v), written]
        exact Bool.false_ne_true
      rw [if_neg (by omega)]
      rfl
    | some g => exact get_zero_write? written
  cases op with
  | read i | get i =>
    show ((((f.read? i).map fun w => (some w, f)).map (·.2)).getD f).get 0 = f.get 0
    cases f.read? i <;> rfl
  | write i v | set i v => exact write i v
  | reset => exact get_cleared 0

/-! ## Any number of operations -/

theorem get_zero_afterAll : (f.afterAll ops).get 0 = ops.foldl Operation.zeroAfter (f.get 0) := by
  induction ops generalizing f with
  | nil => rfl
  | cons op ops ih =>
    rw [List.foldl_cons, ← get_zero_after]
    exact ih

theorem zeroAfter_of_not_trespasses (spared : ¬op.Trespasses) : op.zeroAfter 0 = 0 := by
  cases op with
  | write i v | set i v => exact if_neg spared
  | read | get | reset => rfl

theorem get_zero_of_spared (zero : f.get 0 = 0) (spared : ∀ op ∈ ops, ¬op.Trespasses) :
    (f.afterAll ops).get 0 = 0 := by
  induction ops generalizing f with
  | nil => exact zero
  | cons op ops ih =>
    rw [List.forall_mem_cons] at spared
    refine ih ?_ spared.2
    rw [get_zero_after, zero, zeroAfter_of_not_trespasses spared.1]

/-- **The register file keeps its invariant** but for one index. After any operations on a cleared file, also
such as have failed, register zero holds what has been written to it by the index that names it from the end,
and zero as long as there has been no such write. All registers hold words. A write succeeds if there is a
register of the index, and then leaves all other registers alone; the register itself holds the residue of the
value, or what it held if the index is zero. -/
theorem register_file_keeps (ops : List Operation) :
    (cleared.afterAll ops).get 0 = ops.foldl Operation.zeroAfter 0 ∧
      ((∀ op ∈ ops, ¬op.Trespasses) → (cleared.afterAll ops).read? 0 = some 0) ∧
      (∀ r, ((cleared.afterAll ops).get r).toNat < 0x100000000) ∧
      ∀ i v, (((cleared.afterAll ops).write? i v).isSome = true ↔ -32 ≤ i ∧ i < 32) ∧
        ∀ g, (cleared.afterAll ops).write? i v = some g →
          ∃ r, Register.ofIndex? i = some r ∧ (r.toNat : Int) = i % 32 ∧
            ∀ s, g.get s =
              if s = r ∧ i ≠ 0 then BitVec.ofInt 32 v else (cleared.afterAll ops).get s := by
  refine ⟨?_, fun spared => ?_, fun r => BitVec.isLt _, fun i v => ⟨write?_isSome_iff, fun g written => ?_⟩⟩
  · rw [get_zero_afterAll, get_cleared]
  · exact congrArg some (get_zero_of_spared (get_cleared 0) spared)
  · obtain ⟨r, named, get⟩ := get_of_write? written
    exact ⟨r, named, Register.toNat_of_ofIndex? named, get⟩

/-- Writes by the index zero, from the end, beyond all registers and of values that are no words. -/
theorem spared_file_keeps :
    (∀ op ∈ [Operation.write 0 1234, .set (-1) 0x100000005, .get 31, .write 32 1, .set (-33) 1],
        ¬op.Trespasses) ∧
      (cleared.afterAll [.write 0 1234, .set (-1) 0x100000005, .get 31, .write 32 1, .set (-33) 1]).read? 0 =
        some 0 ∧
      (cleared.afterAll [.write 0 1234, .set (-1) 0x100000005, .get 31, .write 32 1, .set (-33) 1]).read? 31 =
        some 5 := by
  have spared : ∀ op ∈ [Operation.write 0 1234, .set (-1) 0x100000005, .get 31, .write 32 1, .set (-33) 1],
      ¬op.Trespasses := by
    decide
  exact ⟨spared, (register_file_keeps _).2.1 spared, by decide⟩

/-- A write by the index that names register zero from the end succeeds, and register zero reads what was
written. -/
theorem register_zero_is_written :
    (cleared.perform (.write (-32) 5)).isSome = true ∧
      (cleared.afterAll [.write (-32) 5]).read? 0 = some 5 ∧ (5 : Word) ≠ 0 := by
  decide

end RegisterFile

end PocketMips
