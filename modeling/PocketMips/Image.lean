import PocketMips.Word

/-!
Program images: words as bytes, four to a word.
-/
namespace PocketMips.Image

/-- The bytes of words; an integer counts by its residue. -/
def ofWords (ws : List Int) : List Byte := ws.flatMap (toBytes 4)

/-- The words of an image of whole words. -/
def words : List Byte → List Word
  | a :: b :: c :: d :: bs => BitVec.ofNat 32 (ofBytes [a, b, c, d]) :: words bs
  | _ => []

/-- The words of an image, if its length is a multiple of four. -/
def words? (bs : List Byte) : Option (List Word) :=
  if bs.length % 4 = 0 then some (words bs) else none

/-- The message for an image of another length. -/
def lengthMessage (length : Nat) : String :=
  s!"binary image length {length} is not a multiple of 4"

end PocketMips.Image
