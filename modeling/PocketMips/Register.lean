import PocketMips.Word

/-!
The 32 registers: their names, and a register file that may also be indexed from its end.
-/
namespace PocketMips

/-- The number of a register. -/
abbrev Register := BitVec 5

namespace Register

/-- The names of the registers in the order of their numbers. -/
def names : Vector String 32 := #v[
  "zero", "at", "v0", "v1", "a0", "a1", "a2", "a3",
  "t0", "t1", "t2", "t3", "t4", "t5", "t6", "t7",
  "s0", "s1", "s2", "s3", "s4", "s5", "s6", "s7",
  "t8", "t9", "k0", "k1", "gp", "sp", "fp", "ra"]

/-- The name of a register without its mark. -/
def bareName (r : Register) : String := names.get r.toFin

/-- The name of a register as operands show it. -/
def name (r : Register) : String := "$" ++ r.bareName

/-- The register of a bare name. -/
def ofName? (cs : List Char) : Option Register :=
  ((List.range 32).map (BitVec.ofNat 5)).find? fun r => r.bareName.toList = cs

/-- The return address register. -/
def ra : Register := 31

/-- The register at an index; a negative index counts from the end. -/
def ofIndex? (i : Int) : Option Register :=
  if -32 ≤ i ∧ i < 32 then some (BitVec.ofInt 5 i) else none

end Register

/-- The contents of the registers. -/
structure RegisterFile where
  cells : Vector Word 32
  deriving DecidableEq, Repr

namespace RegisterFile

/-- All registers zero. -/
def cleared : RegisterFile := ⟨Vector.replicate 32 0⟩

instance : Inhabited RegisterFile := ⟨cleared⟩

/-- The word in a register. -/
def get (f : RegisterFile) (r : Register) : Word :=
  have : r.toNat < 32 := r.isLt
  f.cells[r.toNat]

/-- The file with a new word in a register. -/
def put (f : RegisterFile) (r : Register) (w : Word) : RegisterFile :=
  ⟨f.cells.set r.toNat w r.isLt⟩

/-- Writes the residue of an integer; register zero keeps its word. -/
def set (f : RegisterFile) (r : Register) (v : Int) : RegisterFile :=
  if r = 0 then f else f.put r (BitVec.ofInt 32 v)

/-- Reads by index. -/
def read? (f : RegisterFile) (i : Int) : Option Word :=
  (Register.ofIndex? i).map f.get

/-- Writes by index. The index zero is the one that is protected, by whatever index the word of register
zero is named. -/
def write? (f : RegisterFile) (i v : Int) : Option RegisterFile :=
  if i = 0 then some f else (Register.ofIndex? i).map (f.put · (BitVec.ofInt 32 v))

/-- The words in the order of the registers. -/
def toList (f : RegisterFile) : List Word := f.cells.toList

theorem get_put (f : RegisterFile) (r s : Register) (w : Word) :
    (f.put r w).get s = if r = s then w else f.get s := by
  simp [get, put, Vector.getElem_set, BitVec.toNat_inj]

theorem get_set (f : RegisterFile) (r s : Register) (v : Int) :
    (f.set r v).get s = if r = s ∧ r ≠ 0 then BitVec.ofInt 32 v else f.get s := by
  by_cases h : r = 0
  · simp [set, h]
  · rw [set, if_neg h, get_put]
    simp only [h, ne_eq, not_false_eq_true, and_true]

@[simp] theorem get_cleared (r : Register) : cleared.get r = 0 := by
  simp [get, cleared]

end RegisterFile

end PocketMips
