/-!
Integers written in a radix, plain or filled with zeros to a width that counts the sign.
-/
namespace PocketMips.Number

/-- Zeros in front of a text, up to a width. -/
def zeroFill (width : Nat) (ds : List Char) : List Char :=
  List.replicate (width - ds.length) '0' ++ ds

/-- A power of ten. -/
def tens (k : Nat) : Nat := Nat.pow 10 k

/-- An integer in decimal. -/
def decimal (i : Int) : List Char :=
  if i < 0 then '-' :: Nat.toDigits 10 i.natAbs else Nat.toDigits 10 i.natAbs

/-- An integer in a radix with capital digits; sign, zeros and digits fill the width together. -/
def padded (radix width : Nat) (i : Int) : List Char :=
  let digits := (Nat.toDigits radix i.natAbs).map Char.toUpper
  if i < 0 then '-' :: zeroFill (width - 1) digits else zeroFill width digits

/-- An integer in hexadecimal behind its mark. -/
def hex (width : Nat) (i : Int) : List Char := '0' :: 'x' :: padded 16 width i

/-- An integer as eight or more hexadecimal digits, the form of addresses and words. -/
def hexWord (i : Int) : String := String.ofList (hex 8 i)

theorem length_zeroFill (width : Nat) (ds : List Char) :
    (zeroFill width ds).length = max width ds.length := by
  simp [zeroFill]; omega

end PocketMips.Number
