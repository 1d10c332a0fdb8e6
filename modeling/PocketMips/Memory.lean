import PocketMips.Number.Radix
import PocketMips.Word
import Std.Data.TreeMap

/-!
Byte-addressed memory. A memory of fixed capacity refuses accesses that leave it; a sparse memory takes
every address modulo 2 ^ 32. A cell never written reads zero, and wider values lie in memory with their
least significant byte first.
-/
namespace PocketMips

open Number

/-- Where a memory keeps cells. -/
inductive Memory.Extent
  /-- At the addresses below a capacity. -/
  | fixed (capacity : Nat)
  /-- At every address modulo 2 ^ 32. -/
  | sparse
  /-- Nowhere: every access fails. -/
  | unbacked
  deriving DecidableEq, Repr

/-- Cells by address; a cell that is not there holds zero. -/
structure Memory where
  extent : Memory.Extent
  cells : Std.TreeMap Nat Byte

namespace Memory

/-- Why an access fails. -/
inductive Fault
  | outOfRange (address width : Int) (capacity : Nat)
  | unbacked
  deriving DecidableEq, Repr

def Fault.message : Fault → String
  | .outOfRange address width capacity =>
    s!"memory access of {width} byte(s) at {hexWord address} exceeds capacity of {capacity} bytes"
  | .unbacked => ""

/-- The capacity when none is asked for. -/
def defaultCapacity : Nat := 4096

/-- A memory without written cells. -/
def blank (extent : Extent) : Memory := ⟨extent, ∅⟩

/-- The byte in a cell. -/
def cell (m : Memory) (i : Nat) : Byte := m.cells.getD i 0

/-- The cell of an address of a sparse memory. -/
def wrap (a : Int) : Nat := (a % 0x100000000).toNat

/-- The cell of an address. -/
def slot (m : Memory) (a : Int) : Nat :=
  match m.extent with
  | .fixed _ | .unbacked => a.toNat
  | .sparse => wrap a

/-- The byte at an address. -/
def byteAt (m : Memory) (a : Int) : Byte := m.cell (m.slot a)

/-- Fails if a fixed memory does not hold the addresses from the first to the last of a width. -/
def checkRange (m : Memory) (a width : Int) : Except Fault Unit :=
  match m.extent with
  | .fixed capacity =>
    if a < 0 ∨ (capacity : Int) ≤ a + width - 1 then .error (.outOfRange a width capacity) else .ok ()
  | .sparse | .unbacked => .ok ()

/-- The place of an index among `size` cells: a negative index counts from the end. -/
def place (size : Nat) (i : Int) : Nat :=
  if i < 0 then (i + size).toNat else min i.toNat size

/-- The cells from one index up to another of the first `size` ones. -/
def slice (m : Memory) (size : Nat) (start stop : Int) : List Byte :=
  let first := place size start
  (List.range' first (place size stop - first)).map m.cell

/-- Reads bytes from an address on. -/
def readBytes (m : Memory) (a width : Int) : Except Fault (List Byte) :=
  match m.extent with
  | .fixed capacity => do
    m.checkRange a width
    return m.slice capacity a (a + width)
  | .sparse => .ok ((List.range width.toNat).map fun i : Nat => m.byteAt (a + i))
  | .unbacked => .error .unbacked

/-- Sets cells one after the other. -/
def setCells (at_ : Int → Nat) : Int → List Byte → Std.TreeMap Nat Byte → Std.TreeMap Nat Byte
  | _, [], cells => cells
  | a, b :: bs, cells => setCells at_ (a + 1) bs (cells.insert (at_ a) b)

/-- Writes bytes from an address on. -/
def writeBytes (m : Memory) (a : Int) (bs : List Byte) : Except Fault Memory :=
  match m.extent with
  | .unbacked => .error .unbacked
  | _ =>
    if bs = [] then .ok m
    else do
      m.checkRange a bs.length
      return { m with cells := setCells m.slot a bs m.cells }

/-- Makes every cell zero. -/
def clear (m : Memory) : Except Fault Memory :=
  match m.extent with
  | .unbacked => .error .unbacked
  | extent => .ok (blank extent)

/-- The bytes of a window of the memory; a window of a fixed memory is cut at its capacity. -/
def dump (m : Memory) (start length : Int) : Except Fault (List Byte) :=
  match m.extent with
  | .fixed capacity =>
    let stop := min (capacity : Int) (start + length)
    .ok (if stop ≤ start then [] else m.slice capacity start stop)
  | _ => m.readBytes start length

/-- Reads a number of the given width. -/
def readNumber (width : Nat) (m : Memory) (a : Int) : Except Fault Nat :=
  (m.readBytes a width).map ofBytes

/-- Writes the low bytes of a number. -/
def writeNumber (width : Nat) (m : Memory) (a v : Int) : Except Fault Memory :=
  m.writeBytes a (toBytes width v)

def readByte : Memory → Int → Except Fault Nat := readNumber 1

def readHalfWord : Memory → Int → Except Fault Nat := readNumber 2

def readWord : Memory → Int → Except Fault Nat := readNumber 4

def writeByte : Memory → Int → Int → Except Fault Memory := writeNumber 1

def writeHalfWord : Memory → Int → Int → Except Fault Memory := writeNumber 2

def writeWord : Memory → Int → Int → Except Fault Memory := writeNumber 4

@[simp] theorem cell_blank (extent : Extent) (i : Nat) : (blank extent).cell i = 0 := by
  simp [cell, blank]

theorem getD_setCells (at_ : Int → Nat) (a : Int) (bs : List Byte) (cells : Std.TreeMap Nat Byte)
    (i : Nat) (h : ∀ k : Nat, k < bs.length → at_ (a + k) ≠ i) :
    (setCells at_ a bs cells).getD i 0 = cells.getD i 0 := by
  induction bs generalizing a cells with
  | nil => rfl
  | cons b bs ih =>
    rw [setCells, ih]
    · have h0 := h 0 (by simp)
      simp only [Int.natCast_zero, Int.add_zero] at h0
      simp [Std.TreeMap.getD_insert, h0]
    · intro k hk
      have := h (k + 1) (by simpa using hk)
      rwa [Int.natCast_add, Int.natCast_one, Int.add_comm (k : Int) 1, ← Int.add_assoc] at this

end Memory

end PocketMips
