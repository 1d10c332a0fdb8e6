import PocketMips.Number.Literal
import PocketMips.Text.Blank
import PocketMips.Text.Utf8
import PocketMips.Web.Host

/-!
Addresses of web requests: the parts of a reference, and the path that is left of an address when it has
been read as a reference as often as requests pass on what they hold.
-/
namespace PocketMips.Web

open Number Text

/-- The parts of a reference that say where it leads. -/
structure Reference where
  scheme : List Char
  host : List Char
  path : List Char
  deriving DecidableEq, Repr

namespace Reference

/-- Characters that are dropped in front of a reference. -/
def isLead (c : Char) : Bool := c.toNat ≤ 0x20

/-- Characters that are dropped anywhere in a reference. -/
def isDropped (c : Char) : Bool := c = '\t' || c = '\r' || c = '\n'

/-- Characters of schemes. -/
def isSchemePart (c : Char) : Bool := c.isAlphanum || c = '+' || c = '-' || c = '.'

/-- The scheme at the front of a text, in small letters, and the text behind its colon. -/
def splitScheme (cs : List Char) : List Char × List Char :=
  match cut ':' cs with
  | (before, some rest) =>
    if (before.head?.map Char.isAlpha).getD false && before.all isSchemePart then
      (before.map Char.toLower, rest)
    else ([], cs)
  | (_, none) => ([], cs)

/-- The host behind two slashes at the front of a text, and the text after it. -/
def splitHost (cs : List Char) : List Char × List Char :=
  let within := fun c : Char => c ≠ '/' ∧ c ≠ '?' ∧ c ≠ '#'
  match cs with
  | '/' :: '/' :: rest => (rest.takeWhile within, rest.dropWhile within)
  | _ => ([], cs)

/-- The parts of a text; what lies behind a `?` or `#` leads nowhere. -/
def ofText (cs : List Char) : Except HostError Reference := do
  let (scheme, rest) := splitScheme ((cs.dropWhile isLead).filter (!isDropped ·))
  let (host, rest) := splitHost rest
  checkBrackets host
  return ⟨scheme, host, rest.takeWhile fun c => c ≠ '?' ∧ c ≠ '#'⟩

/-- The text of a reference. -/
def text (r : Reference) : List Char :=
  let place := if r.host = [] then r.path else '/' :: '/' :: r.host.map Char.toLower ++ r.path
  if r.scheme = [] then place else r.scheme ++ ':' :: place

end Reference

/-- The bytes of a text in which a byte may stand as `%` and two hexadecimal digits. -/
def unescapedBytes : List Char → List Byte
  | [] => []
  | '%' :: a :: b :: rest =>
    let digit := fun c : Char => if c.toNat < 0x80 then digitIn? 16 c else none
    match digit a, digit b with
    | some high, some low => BitVec.ofNat 8 (16 * high + low) :: unescapedBytes rest
    | _, _ => utf8 ['%'] ++ unescapedBytes (a :: b :: rest)
  | c :: rest => utf8 [c] ++ unescapedBytes rest

/-- The text of bytes; bytes that are no text stand for unknown characters. -/
def lenientText (bs : List Byte) : List Char :=
  (ofUtf8? bs).getD (bs.map fun b => if b.toNat < 0x80 then Char.ofNat b.toNat else '\ufffd')

/-- Where a request leads. -/
structure Address where
  /-- The scheme is that of sockets. -/
  isSocket : Bool
  path : List Char
  deriving DecidableEq, Repr

/-- The address of a request. A reference within the path of another one is read like that one. -/
def Address.ofText (cs : List Char) : Except HostError Address := do
  let outer ← Reference.ofText cs
  let inner ← Reference.ofText outer.path
  let innermost ← Reference.ofText inner.path
  checkHost innermost.host
  checkHost outer.host
  let path := lenientText (unescapedBytes innermost.text)
  return {
    isSocket := outer.scheme = ['w', 's'] || outer.scheme = ['w', 's', 's']
    path := if path = [] then [] else '/' :: path.dropWhile (· = '/') }

end PocketMips.Web
