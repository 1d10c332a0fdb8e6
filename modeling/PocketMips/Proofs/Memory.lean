import PocketMips.Memory

/-!
# Accesses that a memory holds

An access inside a fixed memory, or any access to a sparse one, reads the bytes in the cells of its
addresses and writes those cells and no others. An access that is not held fails.
-/
namespace PocketMips.Memory

/-- The memory has the addresses from the first to the last of a width. -/
def Holds (m : Memory) (a : Int) (width : Nat) : Prop :=
  match m.extent with
  | .fixed capacity => 0 ≤ a ∧ a + width ≤ capacity
  | .sparse => True
  | .unbacked => False

instance (m : Memory) (a : Int) (width : Nat) : Decidable (m.Holds a width) :=
  match m with
  | ⟨.fixed capacity, _⟩ => inferInstanceAs (Decidable (0 ≤ a ∧ a + width ≤ capacity))
  | ⟨.sparse, _⟩ => .isTrue trivial
  | ⟨.unbacked, _⟩ => .isFalse id

variable {m : Memory} {a : Int} {width : Nat} {bs : List Byte}

theorem checkRange_of_holds (h : m.Holds a width) : m.checkRange a width = .ok () := by
  unfold Holds at h
  unfold checkRange
  cases extent : m.extent with
  | fixed capacity =>
    simp only [extent] at h
    exact if_neg (by omega)
  | sparse => rfl
  | unbacked => rfl

theorem holds_of_checkRange {capacity : Nat} (extent : m.extent = .fixed capacity) {r : Unit}
    (h : m.checkRange a width = .ok r) : m.Holds a width := by
  simp only [checkRange, extent] at h
  split at h
  · cases h
  · simp only [Holds, extent]
    omega

/-- A memory holds every access inside one that it holds. -/
theorem Holds.sub (h : m.Holds a width) {b : Int} {n : Nat} (first : a ≤ b)
    (last : b + n ≤ a + width) : m.Holds b n := by
  unfold Holds at h ⊢
  cases extent : m.extent with
  | fixed capacity =>
    simp only [extent] at h ⊢
    omega
  | sparse => trivial
  | unbacked => simp only [extent] at h

/-! ## Addresses -/

/-- Two addresses name the same byte; those of a sparse memory count modulo `2 ^ 32`. -/
def Extent.SameByte (extent : Extent) (a b : Int) : Prop :=
  match extent with
  | .fixed _ | .unbacked => a = b
  | .sparse => a % 0x100000000 = b % 0x100000000

instance (extent : Extent) (a b : Int) : Decidable (extent.SameByte a b) :=
  match extent with
  | .fixed _ | .unbacked => inferInstanceAs (Decidable (a = b))
  | .sparse => inferInstanceAs (Decidable (a % 0x100000000 = b % 0x100000000))

theorem slot_eq_iff {b : Int} (first : m.Holds a 1) (second : m.Holds b 1) :
    m.slot a = m.slot b ↔ m.extent.SameByte a b := by
  obtain ⟨extent, cells⟩ := m
  cases extent with
  | fixed capacity =>
    simp only [Holds, slot, Extent.SameByte] at *
    omega
  | sparse =>
    simp only [slot, wrap, Extent.SameByte]
    omega
  | unbacked => exact first.elim

/-- The bytes of a write are in cells of their own. -/
theorem slot_inj (holds : m.Holds a bs.length) (small : bs.length ≤ 0x100000000) (i j : Nat)
    (hi : i < bs.length) (hj : j < bs.length) (same : m.slot (a + i) = m.slot (a + j)) : i = j := by
  rw [slot_eq_iff (holds.sub (by omega) (by omega)) (holds.sub (by omega) (by omega))] at same
  unfold Extent.SameByte at same
  split at same <;> omega

/-! ## Reading -/

/-- A slice inside the cells is the bytes of its addresses, one after the other. -/
theorem slice_eq {size : Nat} (nonneg : 0 ≤ a) (le : a + width ≤ size) :
    m.slice size a (a + width) = (List.range width).map fun k : Nat => m.cell (a + k).toNat := by
  have first : place size a = a.toNat := by
    rw [place, if_neg (by omega)]
    omega
  have last : place size (a + width) = a.toNat + width := by
    rw [place, if_neg (by omega)]
    omega
  rw [slice, first, last, Nat.add_sub_cancel_left, List.range'_eq_map_range, List.map_map]
  apply List.map_congr_left
  intro k _
  have cell : a.toNat + k = (a + k).toNat := by omega
  rw [Function.comp_apply, cell]

theorem readBytes_of_holds (h : m.Holds a width) :
    m.readBytes a width = .ok ((List.range width).map fun k : Nat => m.byteAt (a + k)) := by
  have checked := checkRange_of_holds h
  unfold Holds at h
  unfold readBytes byteAt slot
  cases extent : m.extent with
  | fixed capacity =>
    simp only [extent] at h
    simp only [checked, slice_eq h.1 h.2]
    rfl
  | sparse => rw [Int.toNat_natCast]
  | unbacked => simp only [extent] at h

theorem holds_of_readBytes (h : m.readBytes a width = .ok bs) : m.Holds a width := by
  unfold readBytes at h
  cases extent : m.extent with
  | fixed capacity =>
    simp only [extent] at h
    cases checked : m.checkRange a width with
    | error f => simp only [checked] at h; cases h
    | ok r => exact holds_of_checkRange extent checked
  | sparse => simp only [Holds, extent]
  | unbacked => simp only [extent] at h; cases h

theorem readNumber_of_holds (h : m.Holds a width) :
    m.readNumber width a = .ok (ofBytes ((List.range width).map fun k : Nat => m.byteAt (a + k))) := by
  rw [readNumber, readBytes_of_holds h]
  rfl

/-! ## Writing -/

theorem writeBytes_of_holds (h : m.Holds a bs.length) :
    m.writeBytes a bs = .ok { m with cells := setCells m.slot a bs m.cells } := by
  have checked := checkRange_of_holds h
  obtain ⟨extent, cells⟩ := m
  cases extent with
  | fixed capacity | sparse =>
    by_cases empty : bs = []
    · subst empty
      rfl
    · simp only [writeBytes, if_neg empty, checked]
      rfl
  | unbacked => exact h.elim

theorem holds_of_writeBytes {m' : Memory} (some : bs ≠ []) (h : m.writeBytes a bs = .ok m') :
    m.Holds a bs.length := by
  unfold writeBytes at h
  cases extent : m.extent with
  | fixed capacity =>
    simp only [extent, if_neg some] at h
    cases checked : m.checkRange a bs.length with
    | error f => simp only [checked] at h; cases h
    | ok r => exact holds_of_checkRange extent checked
  | sparse => simp only [Holds, extent]
  | unbacked => simp only [extent] at h; cases h

/-- A byte written to a cell of its own is there afterwards. -/
theorem getD_setCells_self {at_ : Int → Nat} {cells : Std.TreeMap Nat Byte}
    (apart : ∀ i j : Nat, i < bs.length → j < bs.length → at_ (a + i) = at_ (a + j) → i = j)
    {k : Nat} (lt : k < bs.length) : (setCells at_ a bs cells).getD (at_ (a + k)) 0 = bs[k] := by
  induction bs generalizing a cells k with
  | nil => cases lt
  | cons b bs ih =>
    -- The bytes behind the first one go to other cells than its own.
    have shift : ∀ j : Nat, a + 1 + j = a + (j + 1 : Nat) := fun j => by omega
    cases k with
    | zero =>
      rw [setCells, getD_setCells]
      · simp
      · intro j small same
        rw [shift] at same
        cases apart (j + 1) 0 (by simpa using small) (by simp) same
    | succ k =>
      rw [setCells, ← shift]
      refine ih ?_ (by simpa using lt)
      intro i j hi hj same
      rw [shift, shift] at same
      have := apart (i + 1) (j + 1) (by simpa using hi) (by simpa using hj) same
      omega

/-- The bytes that were written are read again, if there are no more than addresses. -/
theorem byteAt_of_writeBytes {m' : Memory} (written : m.writeBytes a bs = .ok m')
    (small : bs.length ≤ 0x100000000) {k : Nat} (lt : k < bs.length) : m'.byteAt (a + k) = bs[k] := by
  have holds := holds_of_writeBytes (List.ne_nil_of_length_pos (Nat.zero_lt_of_lt lt)) written
  rw [writeBytes_of_holds holds] at written
  cases written
  exact getD_setCells_self (slot_inj holds small) lt

/-- Writing one more byte behind others. -/
theorem setCells_append (at_ : Int → Nat) (a : Int) (bs : List Byte) (b : Byte)
    (cells : Std.TreeMap Nat Byte) :
    setCells at_ a (bs ++ [b]) cells = (setCells at_ a bs cells).insert (at_ (a + bs.length)) b := by
  induction bs generalizing a cells with
  | nil => simp [setCells]
  | cons c bs ih =>
    have next : a + 1 + bs.length = a + (c :: bs).length := by
      rw [List.length_cons]
      omega
    rw [List.cons_append, setCells, ih, next, setCells]

/-- The last byte of a wider number, behind the bytes of a narrower one. -/
theorem toBytes_succ (width : Nat) (v : Int) :
    toBytes (width + 1) v = toBytes width v ++ [BitVec.ofInt 8 (v >>> (8 * width))] := by
  induction width generalizing v with
  | zero => simp [toBytes]
  | succ n ih =>
    have quotient : v / (256 : Int) = v >>> (8 : Nat) := by
      rw [Int.shiftRight_eq_div_pow]
      rfl
    have shifted : (v / 256) >>> (8 * n) = v >>> (8 * (n + 1)) := by
      rw [quotient, ← Int.shiftRight_add, Nat.mul_succ, Nat.add_comm]
    rw [toBytes, ih, shifted]
    rfl

theorem getD_setCells_toBytes_succ (at_ : Int → Nat) (a v : Int) (width i : Nat)
    (cells : Std.TreeMap Nat Byte) :
    (setCells at_ a (toBytes (width + 1) v) cells).getD i 0 =
      if at_ (a + width) = i then BitVec.ofInt 8 (v >>> (8 * width))
      else (setCells at_ a (toBytes width v) cells).getD i 0 := by
  rw [toBytes_succ, setCells_append, length_toBytes, Std.TreeMap.getD_insert]
  simp only [Std.LawfulEqOrd.compare_eq_iff_eq]

end PocketMips.Memory
