import PocketMips.Proofs.InPlace
import Mathlib.Algebra.Ring.Int.Defs

/-!
# Reading what was written

Bytes that were written are read again at their addresses, wherever the read begins and ends, and at all
other addresses the read gives what it would have given before. A byte that nothing was written to since
the memory was cleared is zero.
-/
namespace PocketMips

/-- A number of some width has the value of the integer it was made of, as far as the width goes. -/
theorem ofBytes_toBytes_eq (width : Nat) (v : Int) : (ofBytes (toBytes width v) : Int) = v % 256 ^ width := by
  induction width generalizing v with
  | zero => exact (Int.emod_one v).symm
  | succ n ih =>
    have pos : (0 : Int) < 256 ^ n := Int.pow_pos (by decide)
    have nonneg := Int.emod_nonneg (v / 256) (Int.ne_of_gt pos)
    have lt := Int.emod_lt_of_pos (v / 256) pos
    have low : ((BitVec.ofInt 8 v).toNat : Int) = v % 256 := by
      rw [BitVec.toNat_ofInt]
      omega
    calc (ofBytes (toBytes (n + 1) v) : Int)
        = v % 256 + 256 * (v / 256 % 256 ^ n) := by
          rw [toBytes, ofBytes, Int.natCast_add, Int.natCast_mul, ih, low]
          rfl
      _ = (v % 256 + 256 * (v / 256 % 256 ^ n) + 256 * 256 ^ n * (v / 256 / 256 ^ n)) % (256 * 256 ^ n) := by
          rw [Int.add_mul_emod_self_left]
          exact (Int.emod_eq_of_lt (by omega) (by omega)).symm
      _ = v % 256 ^ (n + 1) := by
          rw [Int.mul_assoc, Int.add_assoc, ← Int.mul_add, Int.emod_add_mul_ediv, Int.emod_add_mul_ediv,
            pow_succ, Int.mul_comm (256 ^ n)]

namespace Memory

variable {m m' : Memory} {a b : Int} {d : List Byte} {i width : Nat}

/-! ## One byte -/

theorem holds_congr (same : m'.extent = m.extent) : m'.Holds a width ↔ m.Holds a width := by
  rw [Holds, Holds, same]

theorem eq_of_writeBytes_nil (written : m.writeBytes a [] = .ok m') : m' = m := by
  obtain ⟨extent, cells⟩ := m
  cases extent <;> cases written <;> rfl

theorem byteAt_written (written : m.writeBytes a d = .ok m') (small : d.length ≤ 0x100000000)
    (lt : i < d.length) (held : m.Holds b 1) (same : m.extent.SameByte b (a + i)) :
    m'.byteAt b = d[i] := by
  have holds := holds_of_writeBytes (List.ne_nil_of_length_pos (Nat.zero_lt_of_lt lt)) written
  rw [writeBytes_of_holds holds] at written
  cases written
  have slot : m.slot b = m.slot (a + i) :=
    (slot_eq_iff held (holds.sub (by omega) (by omega))).mpr same
  show (setCells m.slot a d m.cells).getD (m.slot b) 0 = d[i]
  rw [slot]
  exact getD_setCells_self (slot_inj holds small) lt

theorem byteAt_kept (written : m.writeBytes a d = .ok m') (held : m.Holds b 1)
    (apart : ∀ i : Nat, i < d.length → ¬m.extent.SameByte b (a + i)) : m'.byteAt b = m.byteAt b := by
  -- A write of no bytes succeeds also where the memory holds nothing.
  by_cases empty : d = []
  · subst empty
    rw [eq_of_writeBytes_nil written]
  · have holds := holds_of_writeBytes empty written
    rw [writeBytes_of_holds holds] at written
    cases written
    refine getD_setCells _ _ _ _ _ fun i lt same => apart i lt ?_
    exact (slot_eq_iff held (holds.sub (by omega) (by omega))).mp same.symm

/-! ## Reads after a write -/

/-- Bytes at an address become new ones when other bytes are laid over them from another address on. -/
structure Extent.Overlays (extent : Extent) (a : Int) (d : List Byte) (b : Int) (old new : List Byte) :
    Prop where
  length : new.length = old.length
  laid : ∀ j i : Nat, j < new.length → i < d.length → extent.SameByte (b + j) (a + i) → new[j]? = d[i]?
  beside : ∀ j : Nat, j < new.length → (∀ i : Nat, i < d.length → ¬extent.SameByte (b + j) (a + i)) →
    new[j]? = old[j]?

theorem length_of_readBytes {bs : List Byte} (read : m.readBytes b width = .ok bs) : bs.length = width := by
  rw [readBytes_of_holds (holds_of_readBytes read)] at read
  cases read
  rw [List.length_map, List.length_range]

theorem getElem?_of_readBytes {bs : List Byte} (read : m.readBytes b width = .ok bs) {j : Nat}
    (lt : j < width) : bs[j]? = some (m.byteAt (b + j)) := by
  rw [readBytes_of_holds (holds_of_readBytes read)] at read
  cases read
  rw [List.getElem?_map, List.getElem?_range lt, Option.map_some]

theorem overlays_of_writeBytes (written : m.writeBytes a d = .ok m') (small : d.length ≤ 0x100000000)
    {new : List Byte} (read : m'.readBytes b width = .ok new) :
    ∃ old, m.readBytes b width = .ok old ∧ m.extent.Overlays a d b old new := by
  have length := length_of_readBytes read
  have holds : m.Holds b width :=
    (holds_congr (extent_of_writeBytes written)).mp (holds_of_readBytes read)
  have before := readBytes_of_holds holds
  have held (j : Nat) (lt : j < new.length) : m.Holds (b + j) 1 := holds.sub (by omega) (by omega)
  have byte (j : Nat) (lt : j < new.length) : new[j]? = some (m'.byteAt (b + j)) :=
    getElem?_of_readBytes read (length ▸ lt)
  refine ⟨_, before, length.trans (length_of_readBytes before).symm, ?_, ?_⟩
  · intro j i inside lt same
    rw [byte j inside, byteAt_written written small lt (held j inside) same, List.getElem?_eq_getElem lt]
  · intro j inside apart
    rw [byte j inside, byteAt_kept written (held j inside) apart,
      getElem?_of_readBytes before (length ▸ inside)]

/-- A word is its lower half and its upper half. -/
theorem readWord_eq_ok_iff {v : Nat} :
    m.readWord a = .ok v ↔
      ∃ lo hi, m.readHalfWord a = .ok lo ∧ m.readHalfWord (a + 2) = .ok hi ∧ v = lo + 0x10000 * hi := by
  have halves (holds : m.Holds a 4) : m.readWord a = .ok (
      ofBytes ((List.range 2).map fun k : Nat => m.byteAt (a + k)) +
        0x10000 * ofBytes ((List.range 2).map fun k : Nat => m.byteAt (a + 2 + k))) := by
    have third : a + 2 + (0 : Nat) = a + (2 : Nat) := by omega
    have fourth : a + 2 + (1 : Nat) = a + (3 : Nat) := by omega
    rw [readWord, readNumber_of_holds holds]
    simp only [List.range, List.range.loop, List.map_cons, List.map_nil, ofBytes, third, fourth]
    congr 1
    omega
  constructor
  · intro read
    obtain ⟨bs, bytes, -⟩ := map_eq_ok.mp read
    have holds := holds_of_readBytes bytes
    rw [halves holds] at read
    cases read
    exact ⟨_, _, readNumber_of_holds (holds.sub (by omega) (by omega)),
      readNumber_of_holds (holds.sub (by omega) (by omega)), rfl⟩
  · rintro ⟨lo, hi, lower, upper, rfl⟩
    obtain ⟨_, bytes, rfl⟩ := map_eq_ok.mp lower
    obtain ⟨_, bytes', rfl⟩ := map_eq_ok.mp upper
    have first := holds_of_readBytes bytes
    have second := holds_of_readBytes bytes'
    have holds : m.Holds a 4 := by
      cases extent : m.extent <;> simp only [Holds, extent] at first second ⊢
      omega
    rw [readBytes_of_holds first] at bytes
    rw [readBytes_of_holds second] at bytes'
    cases bytes
    cases bytes'
    exact halves holds

/-! ## Bytes that were never written -/

/-- The addresses from one on. -/
def span (a : Int) (width : Nat) : List Int := (List.range width).map fun i : Nat => a + i

/-- The addresses written since the memory was cleared, with those before an access given. -/
def Access.written (before : List Int) : Access → List Int
  | .writeByte a _ => span a 1 ++ before
  | .writeHalfWord a _ => span a 2 ++ before
  | .writeWord a _ => span a 4 ++ before
  | .writeBytes a bs => span a bs.length ++ before
  | .clear => []
  | .readByte _ | .readHalfWord _ | .readWord _ | .readBytes .. | .dump .. | .checkRange .. => before

/-- The bytes at all other addresses than these are zero. -/
def BlankBeside (m : Memory) (written : List Int) : Prop :=
  ∀ b, m.Holds b 1 → (∀ a ∈ written, ¬m.extent.SameByte b a) → m.byteAt b = 0

namespace BlankBeside

variable {before : List Int}

theorem blank (extent : Extent) : (Memory.blank extent).BlankBeside [] :=
  fun _ _ _ => cell_blank extent _

theorem of_clear (cleared : m.clear = .ok m') : m'.BlankBeside [] := by
  unfold clear at cleared
  split at cleared
  · cases cleared
  · cases cleared
    exact blank _

theorem write (h : m.BlankBeside before) (written : m.writeBytes a d = .ok m') :
    m'.BlankBeside (span a d.length ++ before) := by
  have extent := extent_of_writeBytes written
  intro b held apart
  rw [extent] at apart
  rw [holds_congr extent] at held
  rw [byteAt_kept written held]
  · exact h b held fun a mem => apart a (List.mem_append_right _ mem)
  · intro i lt
    exact apart _ (List.mem_append_left _ (List.mem_map.mpr ⟨i, List.mem_range.mpr lt, rfl⟩))

theorem perform (h : m.BlankBeside before) {access : Access} {answer : Answer}
    (done : m.perform access = .ok (answer, m')) : m'.BlankBeside (access.written before) := by
  have number {n : Nat} {a v : Int} (written : (m.writeNumber n a v).map (Answer.done, ·) = .ok (answer, m')) :
      m'.BlankBeside (span a n ++ before) := by
    obtain ⟨_, written, same⟩ := map_eq_ok.mp written
    cases same
    have := h.write written
    rwa [length_toBytes] at this
  cases access with
  | writeByte | writeHalfWord | writeWord => exact number done
  | writeBytes =>
    obtain ⟨_, written, same⟩ := map_eq_ok.mp done
    cases same
    exact h.write written
  | clear =>
    obtain ⟨_, cleared, same⟩ := map_eq_ok.mp done
    cases same
    exact of_clear cleared
  | _ =>
    obtain ⟨_, -, same⟩ := map_eq_ok.mp done
    cases same
    exact h

end BlankBeside

end Memory

namespace Machine

open Memory (Access Extent)

variable {m n : Machine} {f : Fault}

/-- A change of the memory other than by a cycle. -/
inductive Change
  | perform (access : Access)
  | load (image : List Byte) (start : Int)

/-- Makes a change. -/
def Change.apply (m : Machine) : Change → Except Fault Machine
  | .perform access => (liftMemory (m.memory.perform access)).map fun p => { m with memory := p.2 }
  | .load image start => m.load image start

/-- Makes a change in place. -/
def Change.inPlace : Change → EStateM Fault Machine Unit
  | .perform access => do
    let _ ← onMemory (Memory.performInPlace access)
    return
  | .load image start => loadInPlace image start

/-- The addresses written since the memory was cleared, with those before a change given. -/
def Change.written (before : List Int) : Change → List Int
  | .perform access => access.written before
  | .load image start => Memory.span start image.length

/-- A change in place is all or nothing. -/
theorem run_inPlace (change : Change) (m : Machine) :
    change.inPlace.run m = attempt m ((change.apply m).map ((), ·)) := by
  cases change with
  | perform access =>
    rw [Change.inPlace, EStateM.run_bind, run_onMemory (Memory.run_performInPlace access _), Change.apply]
    cases m.memory.perform access <;> rfl
  | load image start => exact run_loadInPlace m image start

theorem eq_of_inPlace_error {change : Change} (failed : change.inPlace.run m = .error f n) : n = m := by
  rw [run_inPlace] at failed
  exact (attempt_eq_error.mp failed).2

theorem extent_of_apply {change : Change} (h : change.apply m = .ok n) : n.memory.extent = m.memory.extent := by
  cases change with
  | perform access =>
    obtain ⟨_, done, rfl⟩ := map_eq_ok.mp h
    exact Memory.extent_of_perform (mapError_eq_ok.mp done)
  | load image start => exact extent_of_load h

theorem blankBeside_of_apply {change : Change} {before : List Int} (h : m.memory.BlankBeside before)
    (done : change.apply m = .ok n) : n.memory.BlankBeside (change.written before) := by
  cases change with
  | perform access =>
    obtain ⟨_, performed, rfl⟩ := map_eq_ok.mp done
    exact h.perform (mapError_eq_ok.mp performed)
  | load image start =>
    obtain ⟨_, _, cleared, written, rfl⟩ := load_eq_ok done
    have := (Memory.BlankBeside.of_clear cleared).write written
    rwa [List.append_nil] at this

/-- A machine with the addresses written since its memory was new or cleared. -/
structure Traced where
  machine : Machine
  written : List Int

namespace Traced

/-- Makes a change in place; one that fails is not noted. -/
def next (t : Traced) (change : Change) : Traced :=
  match change.inPlace.run t.machine with
  | .ok _ m => ⟨m, change.written t.written⟩
  | .error _ m => ⟨m, t.written⟩

/-- Makes changes in a row. -/
def after (t : Traced) (changes : List Change) : Traced := changes.foldl next t

/-- A machine over a memory that nothing was written to. -/
def new (extent : Extent) : Traced := ⟨ofMemory (.blank extent), []⟩

/-- The memory has an extent, and its bytes beside the noted addresses are zero. -/
structure Blank (extent : Extent) (t : Traced) : Prop where
  extent : t.machine.memory.extent = extent
  zero : t.machine.memory.BlankBeside t.written

variable {extent : Extent} {t : Traced}

theorem Blank.new (extent : Extent) : (Traced.new extent).Blank extent :=
  ⟨rfl, .blank extent⟩

theorem Blank.next (h : t.Blank extent) (change : Change) : (t.next change).Blank extent := by
  rw [Traced.next, run_inPlace]
  cases done : change.apply t.machine with
  | error f => exact h
  | ok n => exact ⟨(extent_of_apply done).trans h.extent, blankBeside_of_apply h.zero done⟩

theorem Blank.after (h : t.Blank extent) (changes : List Change) : (t.after changes).Blank extent := by
  induction changes generalizing t with
  | nil => exact h
  | cons change changes ih => exact ih (h.next change)

theorem Blank.getElem?_of_readBytes (h : t.Blank extent) {b : Int} {width : Nat} {bs : List Byte}
    (read : t.machine.memory.readBytes b width = .ok bs) {j : Nat} (lt : j < width)
    (apart : ∀ a ∈ t.written, ¬extent.SameByte (b + j) a) : bs[j]? = some 0 := by
  have held := (Memory.holds_of_readBytes read).sub (b := b + j) (n := 1) (by omega) (by omega)
  rw [← h.extent] at apart
  rw [Memory.getElem?_of_readBytes read lt, h.zero _ held apart]

end Traced

/-- **Read over write.** After bytes have been written, a read gives them at their addresses, and at all
other addresses what it would have given before; a byte, a half word and a word are written as their low
bytes, the least significant first. A word is read as its two half words. A change that fails in place has
changed nothing, and a byte that was not written since the memory was new or cleared is zero. -/
theorem read_over_write :
    (∀ (m m' : Memory) (a : Int) (d : List Byte), m.writeBytes a d = .ok m' → d.length ≤ 0x100000000 →
      ∀ (b : Int) (width : Nat) new, m'.readBytes b width = .ok new →
        new.length = width ∧ ∃ old, m.readBytes b width = .ok old ∧ m.extent.Overlays a d b old new) ∧
      (∀ (m m' : Memory) (n : Nat) (a v : Int), m.writeNumber n a v = .ok m' → n ≤ 0x100000000 →
        ∀ (b : Int) (width : Nat) x, m'.readNumber width b = .ok x →
          ∃ old new, m.readBytes b width = .ok old ∧ x = ofBytes new ∧
            m.extent.Overlays a (toBytes n v) b old new) ∧
      (∀ (n : Nat) (v : Int), (ofBytes (toBytes n v) : Int) = v % 256 ^ n) ∧
      (∀ (m : Memory) (a : Int) (x : Nat), m.readWord a = .ok x ↔
        ∃ lo hi, m.readHalfWord a = .ok lo ∧ m.readHalfWord (a + 2) = .ok hi ∧ x = lo + 0x10000 * hi) ∧
      (∀ (change : Change) (m n : Machine) (f : Fault), change.inPlace.run m = .error f n → n = m) ∧
      ∀ (extent : Extent) (changes : List Change) (b : Int) (width : Nat) bs,
        ((Traced.new extent).after changes).machine.memory.readBytes b width = .ok bs →
          ∀ j < width, (∀ a ∈ ((Traced.new extent).after changes).written, ¬extent.SameByte (b + j) a) →
            bs[j]? = some 0 := by
  refine ⟨?_, ?_, ofBytes_toBytes_eq, fun m a x => Memory.readWord_eq_ok_iff, ?_, ?_⟩
  · intro m m' a d written small b width new read
    exact ⟨Memory.length_of_readBytes read, Memory.overlays_of_writeBytes written small read⟩
  · intro m m' n a v written small b width x read
    obtain ⟨new, bytes, rfl⟩ := map_eq_ok.mp read
    obtain ⟨old, before, overlays⟩ :=
      Memory.overlays_of_writeBytes written (by rwa [length_toBytes]) bytes
    exact ⟨old, new, before, rfl, overlays⟩
  · intro change m n f failed
    exact eq_of_inPlace_error failed
  · intro extent changes b width bs read j lt apart
    exact ((Traced.Blank.new extent).after changes).getElem?_of_readBytes read lt apart

/-- A word whose halves lie at the two ends of the addresses. -/
def wrapped : Memory := ⟨.sparse, Memory.setCells Memory.wrap (-2) [0x11, 0x22, 0x33, 0x44] ∅⟩

/-- The word after its two middle bytes were overwritten. -/
def overwritten : Memory := ⟨.sparse, Memory.setCells Memory.wrap 0xFFFFFFFF [0x66, 0x55] wrapped.cells⟩

/-- A program, a word over the end of its memory, and a half word behind it. -/
def spilled : List Change :=
  [.load [0x11, 0x22] 0, .perform (.writeWord 6 (-1)), .perform (.writeHalfWord 4 (-1))]

theorem wrapped_read_over_write :
    (wrapped.writeHalfWord 0xFFFFFFFF 0x15566 = .ok overwritten ∧
      overwritten.readWord (-2) = .ok 0x44556611 ∧
      ∃ old new, wrapped.readBytes (-2) 4 = .ok old ∧ 0x44556611 = ofBytes new ∧
        Extent.sparse.Overlays 0xFFFFFFFF (toBytes 2 0x15566) (-2) old new) ∧
      (∃ old, wrapped.readBytes (-1) 3 = .ok old ∧
        Extent.sparse.Overlays 0xFFFFFFFF (toBytes 2 0x15566) (-1) old [0x66, 0x55, 0x44]) ∧
      (∃ n, (Change.perform (.writeWord 6 (-1))).inPlace.run (ofMemory (.blank (.fixed 8))) =
        .error (.memory (.outOfRange 6 4 8)) n ∧ n = ofMemory (.blank (.fixed 8))) ∧
      ∃ bs, ((Traced.new (.fixed 8)).after spilled).machine.memory.readBytes 0 8 = .ok bs ∧
        bs[3]? = some 0 ∧ bs[7]? = some 0 := by
  obtain ⟨bytes, numbers, -, -, failing, blank⟩ := read_over_write
  have written : wrapped.writeHalfWord 0xFFFFFFFF 0x15566 = .ok overwritten := rfl
  refine ⟨?_, ?_, ?_, ?_⟩
  · have read : overwritten.readWord (-2) = .ok 0x44556611 := by decide +kernel
    exact ⟨written, read, numbers _ _ 2 _ _ written (by decide) _ 4 _ read⟩
  · have read : overwritten.readBytes (-1) 3 = .ok [0x66, 0x55, 0x44] := by decide +kernel
    exact (bytes wrapped overwritten _ (toBytes 2 0x15566) written (by decide) _ 3 _ read).2
  · have failed : (Change.perform (.writeWord 6 (-1))).inPlace.run (ofMemory (.blank (.fixed 8))) =
        .error (.memory (.outOfRange 6 4 8)) (ofMemory (.blank (.fixed 8))) := rfl
    exact ⟨_, failed, failing _ _ _ _ failed⟩
  · have read : ((Traced.new (.fixed 8)).after spilled).machine.memory.readBytes 0 8 =
        .ok [0x11, 0x22, 0, 0, 0xFF, 0xFF, 0, 0] := by decide +kernel
    have apart : ∀ j ∈ [3, 7], ∀ a ∈ ((Traced.new (.fixed 8)).after spilled).written,
        ¬(Extent.fixed 8).SameByte (0 + j) a := by decide +kernel
    exact ⟨_, read, blank _ _ _ 8 _ read 3 (by decide) (apart 3 (by decide)),
      blank _ _ _ 8 _ read 7 (by decide) (apart 7 (by decide))⟩

end Machine

end PocketMips
