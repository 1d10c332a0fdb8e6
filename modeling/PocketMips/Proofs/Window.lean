import PocketMips.Proofs.Faults
import Mathlib.Data.Int.Range
import Mathlib.Data.List.Sort

/-!
# Windows of a fixed memory

The guard of a fixed memory looks at the last address of an access, and the cells are then taken by position,
where a position before the memory counts from its end. A window whose ends are not before the memory is
exact: it shows the bytes of its addresses, and outside of the memory it is refused, or cut. Ends before the
memory can bound other cells.
-/
namespace PocketMips.Memory

/-- The bytes from one address up to another. -/
def window (m : Memory) (first last : Int) : List Byte := (Int.range first last).map m.byteAt

/-- A read of a negative width whose end, counted from the end of the memory, comes to lie behind its start. -/
def ReadAstray (capacity : Nat) (a width : Int) : Prop := a + width < 0 ∧ 0 < capacity + width

/-- A window that begins before the memory, and in which ends counted from the end of the memory bound other
cells than those of its addresses. -/
def DumpAstray (capacity : Nat) (start length : Int) : Prop :=
  start < 0 ∧ 0 < length ∧
    (-capacity < start ∧ 0 < start + length ∨ -capacity < start + length ∧ start + length < 0)

instance (capacity : Nat) (a width : Int) : Decidable (ReadAstray capacity a width) :=
  inferInstanceAs (Decidable (_ ∧ _))

instance (capacity : Nat) (start length : Int) : Decidable (DumpAstray capacity start length) :=
  inferInstanceAs (Decidable (_ ∧ _ ∧ (_ ∨ _)))

variable {m : Memory} {capacity : Nat} {a w first last : Int} {bs : List Byte}

/-! ## Ranges of addresses -/

theorem pairwise_range (first last : Int) : (Int.range first last).Pairwise (· < ·) := by
  rw [Int.range, List.pairwise_map]
  exact List.pairwise_lt_range.imp fun lt => by omega

/-- What a bound cuts from a range is a range. -/
theorem filter_range (first last low high : Int) :
    ((Int.range first last).filter fun x => low ≤ x ∧ x < high) =
      Int.range (max low first) (min high last) := by
  refine ((pairwise_range first last).filter _).eq_of_mem_iff (pairwise_range _ _) fun x => ?_
  simp only [List.mem_filter, Int.mem_range_iff, decide_eq_true_eq]
  omega

@[simp] theorem length_window (m : Memory) (first last : Int) :
    (m.window first last).length = (last - first).toNat := by
  simp [window, Int.range]

theorem window_eq_nil (m : Memory) (le : last ≤ first) : m.window first last = [] := by
  rw [← List.length_eq_zero_iff, length_window]
  omega

/-- A window is given by its ends, unless it is empty. -/
theorem window_congr {first' last' : Int}
    (same : first = first' ∧ last = last' ∨ last ≤ first ∧ last' ≤ first') :
    m.window first last = m.window first' last' := by
  rcases same with ⟨rfl, rfl⟩ | ⟨le, le'⟩
  · rfl
  · rw [window_eq_nil m le, window_eq_nil m le']

/-! ## Positions -/

theorem place_eq (size : Nat) (i : Int) :
    (place size i : Int) = if i < 0 then max 0 (size + i) else min i size := by
  rw [place]
  split <;> omega

theorem slice_eq_window (fixed : m.extent = .fixed capacity) (size : Nat) (start stop : Int) :
    m.slice size start stop = m.window (place size start) (place size stop) := by
  have count : ((place size stop : Int) - place size start).toNat = place size stop - place size start := by
    omega
  rw [slice, window, Int.range, count, List.range'_eq_map_range, List.map_map, List.map_map]
  apply List.map_congr_left
  intro k _
  simp only [Function.comp_apply, byteAt, slot, fixed]
  rfl

/-! ## Reads -/

theorem readBytes_of_outside (fixed : m.extent = .fixed capacity) (outside : a < 0 ∨ capacity < a + w) :
    m.readBytes a w = .error (.outOfRange a w capacity) := by
  have refused : a < 0 ∨ (capacity : Int) ≤ a + w - 1 := by omega
  simp only [readBytes, checkRange, fixed, if_pos refused]
  rfl

theorem readBytes_of_inside (fixed : m.extent = .fixed capacity) (nonneg : 0 ≤ a)
    (le : a + w ≤ capacity) :
    m.readBytes a w = .ok (m.window a (if a + w < 0 then capacity + (a + w) else a + w)) := by
  have accepted : ¬(a < 0 ∨ (capacity : Int) ≤ a + w - 1) := by omega
  have read : m.readBytes a w = .ok (m.slice capacity a (a + w)) := by
    simp only [readBytes, checkRange, fixed, if_neg accepted]
    rfl
  have start := place_eq capacity a
  have stop := place_eq capacity (a + w)
  rw [read, slice_eq_window fixed]
  exact congrArg _ (window_congr (by omega))

theorem inside_of_readBytes (fixed : m.extent = .fixed capacity) (read : m.readBytes a w = .ok bs) :
    0 ≤ a ∧ a + w ≤ capacity := by
  by_contra outside
  rw [readBytes_of_outside fixed (by omega)] at read
  cases read

theorem readBytes_eq_ok_iff (fixed : m.extent = .fixed capacity) :
    (∃ bs, m.readBytes a w = .ok bs) ↔ 0 ≤ a ∧ a + w ≤ capacity := by
  constructor
  · rintro ⟨bs, read⟩
    exact inside_of_readBytes fixed read
  · rintro ⟨nonneg, le⟩
    exact ⟨_, readBytes_of_inside fixed nonneg le⟩

theorem readBytes_eq_error_iff (fixed : m.extent = .fixed capacity) (pos : 1 ≤ w) :
    m.readBytes a w = .error (.outOfRange a w capacity) ↔ Outside capacity a w.toNat := by
  rw [outside_iff (by omega)]
  constructor
  · intro failed
    by_contra inside
    rw [readBytes_of_inside fixed (by omega) (by omega)] at failed
    cases failed
  · intro outside
    exact readBytes_of_outside fixed (by omega)

/-- What a read returns are the bytes from its start on, all of them inside the memory. -/
theorem window_of_readBytes (fixed : m.extent = .fixed capacity) (read : m.readBytes a w = .ok bs) :
    bs.length = (if a + w < 0 then capacity + w else w).toNat ∧ bs = m.window a (a + bs.length) ∧
      ¬Outside capacity a bs.length := by
  obtain ⟨nonneg, le⟩ := inside_of_readBytes fixed read
  have shown := readBytes_of_inside fixed nonneg le
  rw [read, Except.ok.injEq] at shown
  have length := congrArg List.length shown
  rw [length_window] at length
  refine ⟨by omega, shown.trans (window_congr (by omega)), ?_⟩
  rintro ⟨k, lt, outside⟩
  omega

/-! ## Dumps -/

theorem dump_eq (fixed : m.extent = .fixed capacity) :
    m.dump a w = .ok (if min (capacity : Int) (a + w) ≤ a then []
      else m.window (place capacity a) (place capacity (min capacity (a + w)))) := by
  simp only [dump, fixed, slice_eq_window fixed]

theorem dump_of_not_astray (fixed : m.extent = .fixed capacity) (straight : ¬DumpAstray capacity a w) :
    m.dump a w = .ok (m.window (max 0 a) (min capacity (a + w))) := by
  have start := place_eq capacity a
  have stop := place_eq capacity (min capacity (a + w))
  unfold DumpAstray at straight
  rw [dump_eq fixed]
  -- an empty window is answered before any end is looked up
  split
  · rw [window_eq_nil m (by omega)]
  · exact congrArg _ (window_congr (by omega))

theorem dump_of_astray (fixed : m.extent = .fixed capacity) (astray : DumpAstray capacity a w) :
    m.dump a w = .ok (m.window (max 0 (capacity + a))
      (if a + w < 0 then capacity + (a + w) else min capacity (a + w))) := by
  have start := place_eq capacity a
  have stop := place_eq capacity (min capacity (a + w))
  unfold DumpAstray at astray
  rw [dump_eq fixed, if_neg (by omega)]
  exact congrArg _ (window_congr (by omega))

/-- The bytes of a window that are in the memory, in order. -/
theorem window_clipped (m : Memory) (capacity : Nat) (first last : Int) :
    ((Int.range first last).filter fun x : Int => 0 ≤ x ∧ x < capacity).map m.byteAt =
      m.window (max 0 first) (min capacity last) := by
  rw [filter_range, window]

/-- **The guard of a fixed memory is exact** but for ends before the memory. A read succeeds if its start and
its end are inside; one of some bytes fails exactly if the address of one of them is outside. What it returns
are the bytes from its start on, all inside, and as many as the width says, unless the width is negative and the
end, counted from the end of the memory, lies behind the start. A dump always succeeds, and shows the bytes of
its addresses that are inside, unless it begins before the memory and its ends, counted in that way, bound other
cells. -/
theorem fixed_memory_guard (fixed : m.extent = .fixed capacity) (a w : Int) :
    ((∃ bs, m.readBytes a w = .ok bs) ↔ 0 ≤ a ∧ a + w ≤ capacity) ∧
    (1 ≤ w → (m.readBytes a w = .error (.outOfRange a w capacity) ↔ Outside capacity a w.toNat)) ∧
    (∀ bs, m.readBytes a w = .ok bs →
      bs = m.window a (a + bs.length) ∧ ¬Outside capacity a bs.length ∧
      (bs.length = w.toNat ↔ ¬ReadAstray capacity a w) ∧
      (ReadAstray capacity a w → (bs.length : Int) = capacity + w)) ∧
    ∃ bs, m.dump a w = .ok bs ∧
      (bs = ((Int.range a (a + w)).filter fun x : Int => 0 ≤ x ∧ x < capacity).map m.byteAt ↔
        ¬DumpAstray capacity a w) ∧
      (DumpAstray capacity a w →
        bs = m.window (max 0 (capacity + a))
          (if a + w < 0 then capacity + (a + w) else min capacity (a + w))) := by
  refine ⟨readBytes_eq_ok_iff fixed, readBytes_eq_error_iff fixed, fun bs read => ?_, ?_⟩
  · obtain ⟨length, shown, inside⟩ := window_of_readBytes fixed read
    have nonneg := (inside_of_readBytes fixed read).1
    unfold ReadAstray
    exact ⟨shown, inside, by omega, by omega⟩
  · rw [window_clipped]
    by_cases astray : DumpAstray capacity a w
    · refine ⟨_, dump_of_astray fixed astray, iff_of_false (fun same => ?_) (not_not_intro astray),
        fun _ => rfl⟩
      -- the two windows have different lengths, whatever the memory holds
      have length := congrArg List.length same
      rw [length_window, length_window] at length
      unfold DumpAstray at astray
      omega
    · exact ⟨_, dump_of_not_astray fixed astray, iff_of_true rfl astray, fun h => absurd h astray⟩

/-- At the end of a memory of eight bytes a read is refused and a dump cut. -/
theorem guarded_at_end :
    (blank (.fixed 8)).extent = .fixed 8 ∧
      (blank (.fixed 8)).readBytes 6 4 = .error (.outOfRange 6 4 8) ∧
      (blank (.fixed 8)).dump 6 4 = .ok [0, 0] := by
  have fixed : (blank (.fixed 8)).extent = .fixed 8 := rfl
  obtain ⟨-, refused, -, bs, shown, clipped, -⟩ := fixed_memory_guard fixed 6 4
  refine ⟨fixed, (refused (by decide)).mpr ⟨2, by decide, by decide⟩, ?_⟩
  rw [shown, clipped.mpr (by decide)]
  decide +kernel

/-- A read of a negative width returns four bytes; windows that begin before the memory show none of the two
bytes that are in it, or show bytes although they end before it. -/
theorem negative_ends_go_astray :
    ∃ m, (blank (.fixed 8)).writeBytes 0 [1, 2, 3, 4, 5, 6, 7, 8] = .ok m ∧
      m.readBytes 2 (-4) = .ok [3, 4, 5, 6] ∧ (-4 : Int).toNat = 0 ∧
      m.dump (-2) 4 = .ok [] ∧
      ((Int.range (-2) (-2 + 4)).filter fun x => 0 ≤ x ∧ x < 8).map m.byteAt = [1, 2] ∧
      m.dump (-4) 2 = .ok [5, 6] ∧
      ((Int.range (-4) (-4 + 2)).filter fun x => 0 ≤ x ∧ x < 8).map m.byteAt = [] :=
  ⟨_, rfl, by decide +kernel⟩

end PocketMips.Memory
