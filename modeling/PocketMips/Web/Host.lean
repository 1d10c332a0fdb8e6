import PocketMips.Number.Literal
import PocketMips.Text.Quoted

/-!
Hosts of references: a name, or a numeric address in brackets, with a port behind it. Names are read in
ASCII; what else may stand in them is not looked at.
-/
namespace PocketMips.Web

open Number Text

/-- Why a host leads nowhere. -/
inductive HostError
  /-- One bracket is there and the other is not. -/
  | brackets
  /-- The version of a numeric address of a later form is malformed. -/
  | version
  /-- There is no numeric address in the brackets. -/
  | noAddress (written : List Char)
  /-- A numeric address of four parts stands in brackets. -/
  | bracketed
  /-- The port is no number. -/
  | port (written : List Char)
  | portRange
  /-- A label of the name is empty or too long. -/
  | label
  deriving DecidableEq, Repr

def HostError.message : HostError → String
  | brackets => "Invalid IPv6 URL"
  | version => "IPvFuture address is invalid"
  | noAddress written =>
    String.ofList (quoted written) ++ " does not appear to be an IPv4 or IPv6 address"
  | bracketed => "An IPv4 address cannot be in brackets"
  | port written => "Port could not be cast to integer value as " ++ String.ofList (quoted written)
  | portRange => "Port out of range 0-65535"
  | label => "label empty or too long"

/-! ## Numeric addresses -/

/-- A hexadecimal digit of ASCII. -/
def isHexDigit (c : Char) : Bool := c.toNat < 0x80 && (digitIn? 16 c).isSome

/-- The number of decimal digits of ASCII, if a text is made of them. -/
def plainNumber? (cs : List Char) : Option Nat :=
  if cs ≠ [] && cs.all Char.isDigit then some (ofDigits 10 (cs.filterMap digitValue?)) else none

/-- A part of an address of four parts. -/
def isOctet (cs : List Char) : Bool :=
  (cs = ['0'] || cs.head? ≠ some '0') && (plainNumber? cs).any (· ≤ 255)

/-- An address of four parts. -/
def isFourPart (cs : List Char) : Bool :=
  let parts := cs.splitOn '.'
  parts.length = 4 && parts.all isOctet

/-- A part of an address of eight parts. -/
def isHextet (cs : List Char) : Bool := cs ≠ [] && cs.length ≤ 4 && cs.all isHexDigit

/-- How many of eight parts are given. The last two of an address may be written as four. -/
def partCount? (isLast : Bool) : List (List Char) → Option Nat
  | [] => some 0
  | [p] => if isHextet p then some 1 else if isLast && isFourPart p then some 2 else none
  | p :: ps => if isHextet p then (partCount? isLast ps).map (· + 1) else none

/-- How many of eight parts stand in a text. -/
def countIn? (isLast : Bool) (cs : List Char) : Option Nat :=
  if cs = [] then some 0 else partCount? isLast (cs.splitOn ':')

/-- The text before the first two colons in a row, and the text after them if there are any. -/
def splitGap : List Char → List Char × Option (List Char)
  | [] => ([], none)
  | ':' :: ':' :: rest => ([], some rest)
  | c :: cs =>
    let (before, after) := splitGap cs
    (c :: before, after)

/-- Whether a text gives eight parts; two colons in a row stand for one or more that are zero. -/
def hasEightParts (cs : List Char) : Bool :=
  match splitGap cs with
  | (whole, none) => countIn? true whole = some 8
  | (front, some back) =>
    match countIn? false front, countIn? true back with
    | some m, some n => m + n < 8
    | _, _ => false

/-- An address of eight parts; a zone may follow it. -/
def isEightPart (cs : List Char) : Bool :=
  let (address, zone) := cut '%' cs
  zone.all (fun z => z ≠ [] && !z.contains '%') && hasEightParts address

/-- Whether an address starts with the version of a later form. -/
def hasVersion (cs : List Char) : Bool :=
  match cut '.' (cs.drop 1) with
  | (v, some (_ :: _)) => v ≠ [] && v.all isHexDigit
  | _ => false

/-- Checks what stands in brackets. -/
def checkBracketed (cs : List Char) : Except HostError Unit :=
  if cs.head? = some 'v' then (if hasVersion cs then .ok () else .error .version)
  else if isFourPart cs then .error .bracketed
  else if isEightPart cs then .ok ()
  else .error (.noAddress cs)

/-! ## Hosts -/

/-- Checks the brackets of a host. -/
def checkBrackets (host : List Char) : Except HostError Unit :=
  match host.contains '[', host.contains ']' with
  | false, false => .ok ()
  | true, true => checkBracketed (cut ']' ((cut '[' host).2.getD [])).1
  | _, _ => .error .brackets

/-- The name of a host and the text of its port, without what stands before the last `@`. -/
def nameAndPort (host : List Char) : List Char × List Char :=
  let place := (host.splitOn '@').getLastD []
  match cut '[' place with
  | (_, some inner) =>
    let (name, rest) := cut ']' inner
    (name, ((cut ':' (rest.getD [])).2).getD [])
  | (plain, none) =>
    let (name, port) := cut ':' plain
    (name, port.getD [])

/-- Checks the labels of a name; the last one may be empty. -/
def checkName (name : List Char) : Except HostError Unit :=
  let labels := name.splitOn '.'
  if name.any (0x80 ≤ ·.toNat) || name = [] then .ok ()
  else if labels.dropLast.all (fun l => l ≠ [] && l.length < 64) && (labels.getLastD []).length < 64 then
    .ok ()
  else .error .label

/-- Checks the text of a port. -/
def checkPort (port : List Char) : Except HostError Unit :=
  if port = [] then .ok ()
  else
    match plainNumber? port with
    | none => .error (.port port)
    | some n => if n ≤ 65535 then .ok () else .error .portRange

/-- Checks a host that a request is made to. -/
def checkHost (host : List Char) : Except HostError Unit := do
  let (name, port) := nameAndPort host
  checkName name
  checkPort port

end PocketMips.Web
