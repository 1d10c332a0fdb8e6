import PocketMips.Memory

/-!
Accesses to a memory as data, so that a script can hold them.
-/
namespace PocketMips.Memory

/-- One access. -/
inductive Access
  | readByte (address : Int)
  | readHalfWord (address : Int)
  | readWord (address : Int)
  | writeByte (address value : Int)
  | writeHalfWord (address value : Int)
  | writeWord (address value : Int)
  | readBytes (address width : Int)
  | writeBytes (address : Int) (bytes : List Byte)
  | dump (start length : Int)
  | checkRange (address width : Int)
  | clear
  deriving DecidableEq, Repr

/-- What an access answers. -/
inductive Answer
  | done
  | number (n : Nat)
  | bytes (bs : List Byte)
  deriving DecidableEq, Repr

/-- Performs an access; a failing one leaves the memory as it is. -/
def perform (m : Memory) : Access → Except Fault (Answer × Memory)
  | .readByte a => (m.readByte a).map (.number ·, m)
  | .readHalfWord a => (m.readHalfWord a).map (.number ·, m)
  | .readWord a => (m.readWord a).map (.number ·, m)
  | .writeByte a v => (m.writeByte a v).map (.done, ·)
  | .writeHalfWord a v => (m.writeHalfWord a v).map (.done, ·)
  | .writeWord a v => (m.writeWord a v).map (.done, ·)
  | .readBytes a width => (m.readBytes a width).map (.bytes ·, m)
  | .writeBytes a bs => (m.writeBytes a bs).map (.done, ·)
  | .dump start length => (m.dump start length).map (.bytes ·, m)
  | .checkRange a width => (m.checkRange a width).map fun _ => (.done, m)
  | .clear => m.clear.map (.done, ·)

end PocketMips.Memory
