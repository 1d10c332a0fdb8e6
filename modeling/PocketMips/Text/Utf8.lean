import PocketMips.Word

/-!
Texts as bytes in UTF-8.
-/
namespace PocketMips.Text

/-- The bytes of a text. -/
def utf8 (cs : List Char) : List Byte :=
  cs.flatMap fun c => (String.utf8EncodeChar c).map UInt8.toBitVec

/-- The text of bytes, if they are the bytes of one. -/
def ofUtf8? (bs : List Byte) : Option (List Char) :=
  (String.fromUTF8? (bs.map UInt8.ofBitVec).toByteArray).map String.toList

/-- Whether a byte goes on a character. -/
def goesOn (b : Byte) : Bool := 0x80 ≤ b.toNat && b.toNat < 0xC0

/-- Whether a byte may be the second one of a character of three or four bytes. -/
def goesSecond (first b : Byte) : Bool :=
  goesOn b &&
    match first.toNat with
    | 0xE0 => 0xA0 ≤ b.toNat
    | 0xED => b.toNat < 0xA0
    | 0xF0 => 0x90 ≤ b.toNat
    | 0xF4 => b.toNat < 0x90
    | _ => true

/-- Whether bytes are the beginning of a character and not all of it. -/
def beginsCharacter : List Byte → Bool
  | [] => true
  | [a] => 0xC2 ≤ a.toNat && a.toNat ≤ 0xF4
  | [a, b] => 0xE0 ≤ a.toNat && a.toNat ≤ 0xF4 && goesSecond a b
  | [a, b, c] => 0xF0 ≤ a.toNat && a.toNat ≤ 0xF4 && goesSecond a b && goesOn c
  | _ => false

/-- The text of bytes, the last of which may have only begun a character. -/
def ofUtf8Start? (bs : List Byte) : Option (List Char) :=
  (List.range 4).findSome? fun k =>
    let (whole, rest) := bs.splitAt (bs.length - k)
    if beginsCharacter rest then ofUtf8? whole else none

/-- Every text reads back from its bytes. -/
theorem ofUtf8?_utf8 (cs : List Char) : ofUtf8? (utf8 cs) = some cs := by
  have bytes : ((utf8 cs).map UInt8.ofBitVec).toByteArray = cs.utf8Encode := by
    have same : UInt8.ofBitVec ∘ UInt8.toBitVec = id := rfl
    simp only [utf8, List.map_flatMap, List.map_map, List.utf8Encode, same, List.map_id]
  rw [ofUtf8?, bytes, String.fromUTF8?, dif_pos ⟨cs, rfl⟩]
  exact congrArg some String.toList_ofList

end PocketMips.Text
