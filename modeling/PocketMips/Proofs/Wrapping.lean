import PocketMips.Proofs.Agreement
import PocketMips.Proofs.Extent

/-!
# Programs across the end of the addresses

A sparse memory takes addresses modulo `2 ^ 32`, and so does the program counter. The bounds of a program are
the numbers that it was loaded with. The two agree on the words whose addresses have not been reduced, and
only on those.
-/
namespace PocketMips

namespace Memory

variable {m : Memory} {a : Int}

theorem readWord_of_sparse (sparse : m.extent = .sparse) :
    m.readWord (a % 0x100000000) = m.readWord a := by
  have byte (j : Nat) : m.byteAt (a % 0x100000000 + j) = m.byteAt (a + j) := by
    have same : m.slot (a % 0x100000000 + j) = m.slot (a + j) := by
      simp only [slot, sparse, wrap]
      omega
    rw [byteAt, same, byteAt]
  rw [readWord, readNumber_of_holds (holds_of_sparse sparse), readNumber_of_holds (holds_of_sparse sparse)]
  simp only [byte]

end Memory

namespace Machine

variable {m n fresh : Machine} {ws : List Int} {start : Int} {k : Nat}

/-- The address, as a word, of a word of a program. -/
def codeAddress (start : Int) (k : Nat) : Int := (start + 4 * k) % 0x100000000

theorem load_succeeds_of_sparse (sparse : m.memory.extent = .sparse) (image : List Byte) (start : Int) :
    ∃ fresh, m.load image start = .ok fresh :=
  ⟨_, load_of_sparse sparse (Memory.writeBytes_of_holds (Memory.holds_of_sparse rfl))⟩

/-- The program counter is inside the program at a word of it whose address is no residue of another number. -/
theorem hasFinished_codeAddress (first : n.start = start) (last : n.stop = start + 4 * ws.length)
    (small : 4 * ws.length < 0x100000000) (le : k ≤ ws.length) :
    { n with pc := codeAddress start k }.hasFinished = false ↔
      k < ws.length ∧ 0 ≤ start + 4 * k ∧ start + 4 * k < 0x100000000 := by
  simp only [hasFinished, first, last, codeAddress, Bool.not_eq_false', Bool.and_eq_true, decide_eq_true_eq]
  -- The bounds are less than `2 ^ 32` apart: an address reduced by another multiple is outside of them.
  omega

/-- **Completion over sparse memory.** A program can be loaded at any start, and its words are at their
addresses modulo `2 ^ 32`. However many cycles have been executed since, the program has finished at the
address behind its last word. It has not at the address of a word, unless that address was reduced: then it has
finished there, although the word is next. So all of its words are inside it if the first and the last of their
addresses are words, and only then. -/
theorem completion_over_sparse (sparse : m.memory.extent = .sparse) (nonempty : ws ≠ [])
    (small : 4 * ws.length < 0x100000000) (start : Int) :
    ∃ fresh, m.load (Image.ofWords ws) start = .ok fresh ∧
      (∀ k v, ws[k]? = some v →
        fresh.memory.readWord (codeAddress start k) = .ok (BitVec.ofInt 32 v).toNat) ∧
      ∀ i instrs n, fresh.cycles i = .ok (instrs, n) →
        { n with pc := codeAddress start ws.length }.hasFinished = true ∧
        (∀ k < ws.length, { n with pc := codeAddress start k }.hasFinished = false ↔
          0 ≤ start + 4 * k ∧ start + 4 * k < 0x100000000) ∧
        ((∀ k < ws.length, { n with pc := codeAddress start k }.hasFinished = false) ↔
          0 ≤ start ∧ start + 4 * (ws.length - 1) < 0x100000000) := by
  obtain ⟨fresh, loaded⟩ := load_succeeds_of_sparse sparse (Image.ofWords ws) start
  refine ⟨fresh, loaded, fun k v found => ?_, fun i instrs n run => ?_⟩
  · rw [codeAddress, Memory.readWord_of_sparse ((extent_of_load loaded).trans sparse)]
    exact readWord_of_load loaded (Nat.le_of_lt small) found
  obtain ⟨first, last⟩ := bounds_of_load loaded
  obtain ⟨first', last'⟩ := bounds_of_cycles run
  have inside {k : Nat} (le : k ≤ ws.length) :=
    hasFinished_codeAddress (first'.trans first) (last'.trans last) small le
  have each : ∀ k < ws.length, { n with pc := codeAddress start k }.hasFinished = false ↔
      0 ≤ start + 4 * k ∧ start + 4 * k < 0x100000000 := fun k lt => by
    rw [inside (Nat.le_of_lt lt)]
    exact and_iff_right lt
  refine ⟨?_, each, ?_⟩
  · have behind := inside (Nat.le_refl ws.length)
    rw [← Bool.not_eq_false, behind]
    exact fun h => Nat.lt_irrefl _ h.1
  · have pos := List.length_pos_iff.mpr nonempty
    constructor
    · intro all
      have head := (each 0 pos).mp (all 0 pos)
      have tail := (each (ws.length - 1) (by omega)).mp (all _ (by omega))
      omega
    · intro window k lt
      exact (each k lt).mpr (by omega)

/-- Two words that end with the addresses. -/
theorem last_words_are_inside :
    ∃ fresh, (ofMemory (.blank .sparse)).load (Image.ofWords [0x20080001, 0x20090002]) 0xFFFFFFF8 = .ok fresh ∧
      fresh.memory.readWord 0xFFFFFFFC = .ok 0x20090002 ∧
      { fresh with pc := 0xFFFFFFFC }.hasFinished = false ∧
      { fresh with pc := 0 }.hasFinished = true := by
  have sparse : (ofMemory (.blank .sparse)).memory.extent = .sparse := rfl
  have nonempty : [(0x20080001 : Int), 0x20090002] ≠ [] := List.cons_ne_nil _ _
  obtain ⟨fresh, loaded, words, completion⟩ :=
    completion_over_sparse sparse nonempty (by decide) 0xFFFFFFF8
  obtain ⟨behind, -, inside⟩ := completion 0 [] fresh rfl
  exact ⟨fresh, loaded, words 1 0x20090002 rfl, inside.mpr (by decide) 1 (by decide), behind⟩

/-- Of two words across the end of the addresses, only the first is executed: the second one is at the program
counter after it, and the program has finished. -/
theorem wrapped_word_is_left_out :
    ((ofMemory (.blank .sparse)).load (Image.ofWords [0x20080001, 0x20090002]) 0xFFFFFFFC >>= fun fresh =>
      fresh.cycle.map fun p => (p.2.pc, p.2.memory.readWord p.2.pc, p.2.hasFinished)) =
        .ok (codeAddress 0xFFFFFFFC 1, .ok 0x20090002, true) := by
  decide +kernel

end Machine

end PocketMips
