import PocketMips.Text.Half
import PocketMips.Text.Utf8

/-!
Encodings of texts as bytes. Zero bytes at the front of a text tell how wide its units are and in which
order their bytes stand.
-/
namespace PocketMips.Text

/-- How a text is encoded: in bytes, or in units of two or four bytes. -/
inductive Encoding
  | utf8
  | utf16 (bigEndian : Bool)
  | utf32 (bigEndian : Bool)
  deriving DecidableEq, Repr

/-- The number of the bytes of a unit. -/
def unitOf (bigEndian : Bool) (bs : List Byte) : Nat :=
  (if bigEndian then bs else bs.reverse).foldl (fun n b => 256 * n + b.toNat) 0

/-- The units of bytes, which have to be whole. -/
def units? (bigEndian : Bool) (width : Nat) : Nat → List Byte → Option (List Nat)
  | 0, _ => some []
  | fuel + 1, bs =>
    if bs = [] then some []
    else if bs.length < width then none
    else (units? bigEndian width fuel (bs.drop width)).map (unitOf bigEndian (bs.take width) :: ·)

/-- The characters of units of two bytes. -/
def joinPairs : List Nat → List Char
  | [] => []
  | [n] => [charOf n]
  | high :: low :: rest =>
    if isHigh high && isLow low then pairOf high low :: joinPairs rest
    else charOf high :: joinPairs (low :: rest)

namespace Encoding

/-- The encoding of bytes, told by the zeros among the first four. -/
def ofBytes (bs : List Byte) : Encoding :=
  match bs with
  | [a, b] => if a = 0 then .utf16 true else if b = 0 then .utf16 false else .utf8
  | a :: b :: c :: d :: _ =>
    if a = 0 then (if b = 0 then .utf32 true else .utf16 true)
    else if b = 0 then (if c = 0 ∧ d = 0 then .utf32 false else .utf16 false)
    else .utf8
  | _ => .utf8

/-- The text of bytes in an encoding. -/
def decode? : Encoding → List Byte → Option (List Char)
  | utf8, bs => ofUtf8? bs
  | utf16 bigEndian, bs => (units? bigEndian 2 bs.length bs).map joinPairs
  | utf32 bigEndian, bs => do
    let ns ← units? bigEndian 4 bs.length bs
    guard (ns.all (· < 0x110000))
    return ns.map charOf

end Encoding

end PocketMips.Text
