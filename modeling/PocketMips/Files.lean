import PocketMips.Text.Blank
import PocketMips.Text.Lines
import PocketMips.Text.Quoted
import PocketMips.Text.Utf8

/-!
A tree of files in memory, addressed by relative paths. A directory is there if it has been made or if a
file lies in it; writing a file makes no directory.
-/
namespace PocketMips

open Text

/-- Files by the names on their paths, and directories that need not hold any. -/
structure Files where
  contents : List (List String × List Byte) := []
  directories : List (List String) := []
  deriving Repr

namespace Files

/-- Why a path cannot be read or written. -/
inductive Error
  /-- A file to be loaded is not there. -/
  | notFound (path : String)
  /-- The path leads nowhere. -/
  | noEntry (path : String)
  | isDirectory
  /-- A name on the way is that of a file. -/
  | notDirectory
  /-- The bytes of a file are no text. -/
  | notText
  /-- The path or a name on it is too long. -/
  | tooLong
  /-- The path has a character that ends it early. -/
  | nullByte
  deriving DecidableEq, Repr

def Error.message : Error → String
  | notFound path => "file not found: " ++ path
  | noEntry path => "[Errno 2] No such file or directory: " ++ String.ofList (quoted path.toList)
  | nullByte => "embedded null byte"
  | isDirectory | notDirectory | notText | tooLong => ""

/-- What is at a place. -/
inductive Node
  | file (bytes : List Byte)
  | directory
  | absent

/-- What is at a place given by names. -/
def node (f : Files) (place : List String) : Node :=
  match f.contents.find? (·.1 = place) with
  | some e => .file e.2
  | none =>
    let holds := fun names : List String => place.isPrefixOf names
    if place = [] || f.contents.any (holds ·.1) || f.directories.any holds then .directory
    else .absent

/-- The longest name in bytes. -/
def maxName : Nat := 255

/-- The longest path in bytes. -/
def maxPath : Nat := 4095

/-- The length of a name or path in bytes. -/
def width (s : String) : Nat := (utf8 s.toList).length

/-- Fails for what is no path. -/
def checkPath (path : String) : Except Error Unit :=
  if path.toList.contains '\x00' then .error .nullByte
  else if maxPath < width path then .error .tooLong
  else if path = "" then .error (.noEntry path)
  else .ok ()

/-- The place that names lead to from a place; every step leaves from a directory. -/
def follow (f : Files) (path : String) (here : List String) : List String → Except Error (List String)
  | [] => .ok here
  | name :: names =>
    match f.node here with
    | .file _ => .error .notDirectory
    | .absent => .error (.noEntry path)
    | .directory =>
      if name = "" ∨ name = "." then follow f path here names
      else if name = ".." then follow f path here.dropLast names
      else if maxName < width name then .error .tooLong
      else follow f path (here ++ [name]) names

/-- The names on a path. -/
def names (path : String) : List String := (path.toList.splitOn '/').map String.ofList

/-- The place that a path leads to if all that is on it is there. -/
def place (path : String) : List String :=
  (names path).foldl (fun here name =>
    if name = "" ∨ name = "." then here
    else if name = ".." then here.dropLast
    else here ++ [name]) []

/-- The place that a path leads to. -/
def resolve (f : Files) (path : String) : Except Error (List String) := do
  checkPath path
  f.follow path [] (names path)

/-- The bytes of a file. -/
def read (f : Files) (path : String) : Except Error (List Byte) := do
  match f.node (← f.resolve path) with
  | .file bytes => return bytes
  | .directory => .error .isDirectory
  | .absent => .error (.noEntry path)

/-- Whether a path leads to something. -/
def has (f : Files) (path : String) : Bool :=
  match f.resolve path with
  | .ok place =>
    match f.node place with
    | .absent => false
    | _ => true
  | .error _ => false

/-- The bytes of a file that has to be there. -/
def load (f : Files) (path : String) : Except Error (List Byte) :=
  if f.has path then f.read path else .error (.notFound path)

/-- The text of bytes, with uniform line ends. -/
def decode (bytes : List Byte) : Except Error (List Char) :=
  match ofUtf8? bytes with
  | some cs => .ok (uniformBreaks cs)
  | none => .error .notText

/-- The count of bytes that are read at a time. -/
def blockSize : Nat := 8192

/-- The text of the blocks before the one that shows bytes to be no text; a line end that is not known to
be whole is left out. -/
def leadingText (bytes : List Byte) : List Char :=
  let blocks := bytes.length / blockSize + 1
  let text := ((List.range (blocks + 1)).reverse.findSome? fun k =>
    ofUtf8Start? (bytes.take (k * blockSize))).getD []
  uniformBreaks (if text.getLast? = some '\r' then text.dropLast else text)

/-- The whole lines before the block that shows bytes to be no text. -/
def leadingLines (bytes : List Byte) : List (List Char) :=
  pieces (· = '\n') (dropEnd (· ≠ '\n') (leadingText bytes))

/-- The text of a file that has to be there. -/
def loadText (f : Files) (path : String) : Except Error (List Char) := do
  decode (← f.load path)

/-- Puts bytes at a place, whatever was there before. -/
def put (f : Files) (place : List String) (bytes : List Byte) : Files :=
  { f with contents := (place, bytes) :: f.contents.filter (·.1 ≠ place) }

/-- The names before the last one on a path that ends with a slash, if the last one is that of an entry. -/
def slashed? (path : String) : Option (List String) :=
  match (names path).reverse with
  | "" :: more =>
    match more.dropWhile (· = "") with
    | last :: before => if last = "." ∨ last = ".." then none else some before.reverse
    | [] => none
  | _ => none

/-- The place where a path lets a file be written. A slash at its end asks for a directory, whatever the
last name leads to. -/
def target (f : Files) (path : String) : Except Error (List String) := do
  checkPath path
  match slashed? path with
  | none => f.resolve path
  | some before =>
    match f.node (← f.follow path [] before) with
    | .directory => .error .isDirectory
    | .file _ => .error .notDirectory
    | .absent => .error (.noEntry path)

/-- Writes a file; the path has led through directories up to its last name. -/
def write (f : Files) (path : String) (bytes : List Byte) : Except Error Files := do
  let place ← f.target path
  match f.node place with
  | .directory => .error .isDirectory
  | _ => return f.put place bytes

/-- Writes a text. -/
def writeText (f : Files) (path : String) (text : List Char) : Except Error Files :=
  f.write path (utf8 text)

/-- A file put at a place is what is there. -/
theorem node_put (f : Files) (place : List String) (bytes : List Byte) :
    (f.put place bytes).node place = .file bytes := by
  simp [node, put]

/-- The end of a path from the last point of its file name on; points at the start of the name do not
count. -/
def extension (path : String) : List Char :=
  let name := ((path.toList.splitOn '/').getLast?.getD []).dropWhile (· = '.')
  match (name.splitOn '.').tail.getLast? with
  | some ending => '.' :: ending
  | none => []

end Files

end PocketMips
