/-!
Words and bytes of the machine, and numbers as little-endian sequences of bytes.
-/
namespace PocketMips

/-- A machine word. -/
abbrev Word := BitVec 32

/-- A memory cell. -/
abbrev Byte := BitVec 8

/-- The number that bytes stand for, the least significant first. -/
def ofBytes : List Byte → Nat
  | [] => 0
  | b :: bs => b.toNat + 256 * ofBytes bs

/-- The low bytes of an integer, the least significant first. -/
def toBytes : Nat → Int → List Byte
  | 0, _ => []
  | width + 1, v => BitVec.ofInt 8 v :: toBytes width (v / 256)

@[simp] theorem length_toBytes (width : Nat) (v : Int) : (toBytes width v).length = width := by
  induction width generalizing v with
  | zero => rfl
  | succ n ih => simp [toBytes, ih]

theorem ofBytes_lt (bs : List Byte) : ofBytes bs < 1 <<< (8 * bs.length) := by
  induction bs with
  | nil => simp [ofBytes]
  | cons b bs ih =>
    have hb : b.toNat < 256 := b.isLt
    simp only [Nat.shiftLeft_eq, Nat.one_mul] at ih ⊢
    simp only [ofBytes, List.length_cons, Nat.mul_add, Nat.pow_add]
    omega

end PocketMips
