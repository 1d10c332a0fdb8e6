import PocketMips.CodeText
import PocketMips.Files
import PocketMips.Image
import PocketMips.Text.Letter

/-!
Programs in files: the extension of a path says whether the file is a program image, machine code as
text, or assembly text.
-/
namespace PocketMips

open Text

/-- A program to run. -/
inductive Program
  | source (text : List Char)
  | words (ws : List Int)
  | image (bytes : List Byte)
  deriving DecidableEq, Repr

namespace Program

/-- What a file holds. -/
inductive Format
  | image
  | codeText
  | assembly
  deriving DecidableEq, Repr

/-- What the file of a path holds. -/
def Format.ofPath (path : String) : Format :=
  let ending := fold (Files.extension path)
  if ending = ".bin".toList then .image
  else if ending = ".txt".toList ∨ ending = ".hex".toList then .codeText
  else .assembly

/-- Why a program file cannot be read or written. -/
inductive Error
  | file (e : Files.Error)
  | code (e : Assembly.Error)
  | imageLength (length : Nat)
  deriving DecidableEq, Repr

def Error.message : Error → String
  | file e => e.message
  | code e => e.message
  | imageLength length => Image.lengthMessage length

/-- The words of a program image. -/
def readImage (f : Files) (path : String) : Except Error (List Word) := do
  let bytes ← (f.load path).mapError .file
  match Image.words? bytes with
  | some ws => return ws
  | none => .error (.imageLength bytes.length)

/-- The words of a file of machine code as text. Its lines are read one after the other, so that one that
is malformed is met before bytes further on that are no text. -/
def readCodeText (f : Files) (path : String) : Except Error (List Word) := do
  let bytes ← (f.load path).mapError .file
  match Files.decode bytes with
  | .ok text => (CodeText.words text).mapError .code
  | .error e =>
    let _ ← (CodeText.wordsFrom 1 (Files.leadingLines bytes)).mapError .code
    .error (.file e)

/-- The words of a program as integers. -/
def ofWords (ws : List Word) : Program := .words (ws.map fun w => w.toNat)

/-- The program in a file. -/
def read (f : Files) (path : String) : Except Error Program :=
  match Format.ofPath path with
  | .image => (readImage f path).map ofWords
  | .codeText => (readCodeText f path).map ofWords
  | .assembly => ((f.loadText path).mapError .file).map .source

/-- Writes words as a program image if the path is that of one, and else as text in hexadecimal. -/
def write (f : Files) (path : String) (ws : List Int) : Except Files.Error Files :=
  match Format.ofPath path with
  | .image => f.write path (Image.ofWords ws)
  | _ => f.writeText path (CodeText.ofWords .hexadecimal ws)

end Program

end PocketMips
