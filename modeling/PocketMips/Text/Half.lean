/-!
Halves of pairs of units. Their codes are those of no characters; where one stands alone in a text, a
character that has no meaning of its own is kept for it, a different one for each.
-/
namespace PocketMips.Text

/-- Whether a code is that of the first half of a pair. -/
def isHigh (n : Nat) : Bool := 0xD800 ≤ n && n < 0xDC00

/-- Whether a code is that of the second half of a pair. -/
def isLow (n : Nat) : Bool := 0xDC00 ≤ n && n < 0xE000

/-- The code of the character that is kept for the first of the halves. -/
def keptFrom : Nat := 0xEF000

/-- The character of a code, or the one that is kept for a half. -/
def charOf (n : Nat) : Char :=
  if isHigh n || isLow n then Char.ofNat (keptFrom + (n - 0xD800)) else Char.ofNat n

/-- The code of a character, or of the half that it is kept for. -/
def codeOf (c : Char) : Nat :=
  let n := c.toNat
  if keptFrom ≤ n && n < keptFrom + 0x800 then 0xD800 + (n - keptFrom) else n

/-- The character of two halves. -/
def pairOf (high low : Nat) : Char := Char.ofNat (0x10000 + (high - 0xD800) * 0x400 + (low - 0xDC00))

/-- A half is told from the character that is kept for it. -/
theorem codeOf_charOf_half {n : Nat} (h : isHigh n || isLow n) : codeOf (charOf n) = n := by
  have bounds : 0xD800 ≤ n ∧ n < 0xE000 := by
    simp only [isHigh, isLow, Bool.or_eq_true, Bool.and_eq_true, decide_eq_true_eq] at h
    omega
  have valid : (keptFrom + (n - 0xD800)).isValidChar := by
    simp only [Nat.isValidChar, keptFrom]
    omega
  have code : (charOf n).toNat = keptFrom + (n - 0xD800) := by
    rw [charOf, if_pos h, Char.ofNat, dif_pos valid]
    rfl
  have kept : (decide (keptFrom ≤ keptFrom + (n - 0xD800)) &&
      decide (keptFrom + (n - 0xD800) < keptFrom + 0x800)) = true := by
    rw [Bool.and_eq_true, decide_eq_true_eq, decide_eq_true_eq]
    omega
  rw [codeOf, code, if_pos kept, Nat.add_sub_cancel_left]
  omega

end PocketMips.Text
