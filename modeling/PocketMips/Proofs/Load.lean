import PocketMips.Machine
import PocketMips.Proofs.Memory
import PocketMips.Proofs.Outcome

/-!
# Loading a program

A load clears the memory and writes the image into it, where its words are read again.
-/
namespace PocketMips

/-! ## Images -/

namespace Image

variable {ws : List Int} {v : Int} {k : Nat}

theorem ofWords_cons (w : Int) (ws : List Int) : ofWords (w :: ws) = toBytes 4 w ++ ofWords ws :=
  List.flatMap_cons

theorem length_ofWords (ws : List Int) : (ofWords ws).length = 4 * ws.length := by
  induction ws with
  | nil => rfl
  | cons w ws ih =>
    rw [ofWords_cons, List.length_append, length_toBytes, ih, List.length_cons]
    omega

/-- The bytes of a word of an image. -/
theorem getElem?_ofWords (found : ws[k]? = some v) {j : Nat} (lt : j < 4) :
    (ofWords ws)[4 * k + j]? = (toBytes 4 v)[j]? := by
  induction ws generalizing k with
  | nil => cases found
  | cons w ws ih =>
    rw [ofWords_cons]
    cases k with
    | zero =>
      cases found
      rw [List.getElem?_append_left (by rw [length_toBytes]; omega), Nat.mul_zero, Nat.zero_add]
    | succ k =>
      rw [List.getElem?_append_right (by rw [length_toBytes]; omega), length_toBytes, ← ih found]
      congr 1
      omega

theorem ofBytes_toBytes (v : Int) : ofBytes (toBytes 4 v) = (BitVec.ofInt 32 v).toNat := by
  simp only [toBytes, ofBytes, BitVec.toNat_ofInt]
  omega

@[simp] theorem residues_toNat (ws : List Word) :
    (ws.map fun w => (w.toNat : Int)).map (BitVec.ofInt 32) = ws := by
  simp [Function.comp_def]

theorem words_toBytes_append (w : Int) (bs : List Byte) :
    words (toBytes 4 w ++ bs) = BitVec.ofInt 32 w :: words bs := by
  show BitVec.ofNat 32 (ofBytes (toBytes 4 w)) :: words bs = _
  rw [ofBytes_toBytes, BitVec.ofNat_toNat, BitVec.setWidth_eq]

theorem words_ofWords (ws : List Int) : words (ofWords ws) = ws.map (BitVec.ofInt 32) := by
  induction ws with
  | nil => rfl
  | cons w ws ih => rw [ofWords_cons, words_toBytes_append, ih, List.map_cons]

/-- The words of an image are the residues of the integers that it was made of. -/
theorem words?_ofWords (ws : List Int) : words? (ofWords ws) = some (ws.map (BitVec.ofInt 32)) := by
  rw [words?, length_ofWords, if_pos (Nat.mul_mod_right 4 _), words_ofWords]

theorem toBytes_ofBytes (a b c d : Byte) :
    toBytes 4 (BitVec.ofNat 32 (ofBytes [a, b, c, d])).toNat = [a, b, c, d] := by
  have small := ofBytes_lt [a, b, c, d]
  have byte (x : Byte) {v : Int} (residue : v % 256 = x.toNat) : BitVec.ofInt 8 v = x := by
    apply BitVec.eq_of_toNat_eq
    rw [BitVec.toNat_ofInt]
    omega
  have bounds := And.intro (And.intro a.isLt b.isLt) (And.intro c.isLt d.isLt)
  rw [BitVec.toNat_ofNat, Nat.mod_eq_of_lt (by simpa using small)]
  simp only [toBytes, ofBytes]
  rw [byte a (by omega), byte b (by omega), byte c (by omega), byte d (by omega)]

/-- An image of whole words is that of its words. -/
theorem ofWords_words (bs : List Byte) (whole : bs.length % 4 = 0) :
    ofWords ((words bs).map fun w => (w.toNat : Int)) = bs := by
  match bs, whole with
  | [], _ => rfl
  | a :: b :: c :: d :: bs, whole =>
    have rest := ofWords_words bs (by simp only [List.length_cons] at whole; omega)
    rw [words, List.map_cons, ofWords_cons, toBytes_ofBytes, rest]
    rfl

/-- An image depends on the residues of its words only. -/
theorem ofWords_residues (ws : List Int) :
    ofWords ((ws.map (BitVec.ofInt 32)).map fun w => (w.toNat : Int)) = ofWords ws := by
  rw [← words_ofWords, ofWords_words _ (by rw [length_ofWords]; omega)]

end Image

namespace Machine

variable {m n : Machine} {image : List Byte} {start : Int}

theorem load_of_writeBytes (checked : m.memory.checkRange start image.length = .ok ())
    {cleared memory : Memory} (clear : m.memory.clear = .ok cleared)
    (written : cleared.writeBytes start image = .ok memory) :
    m.load image start = .ok ⟨.cleared, start, memory, start, start + image.length⟩ := by
  simp only [load, checked, clear]
  split
  all_goals
    show (liftMemory (cleared.writeBytes start image) >>= _) = _
    rw [written]
    rfl

theorem load_eq_ok (h : m.load image start = .ok n) :
    ∃ cleared memory, m.memory.clear = .ok cleared ∧ cleared.writeBytes start image = .ok memory ∧
      n = ⟨.cleared, start, memory, start, start + image.length⟩ := by
  have rest : (do
      let cleared ← liftMemory m.memory.clear
      let memory ← liftMemory (cleared.writeBytes start image)
      return ⟨.cleared, start, memory, start, start + image.length⟩) = Except.ok n := by
    unfold load at h
    split at h
    · obtain ⟨_, -, h⟩ := bind_eq_ok.mp h
      exact h
    · exact h
  obtain ⟨cleared, clear, rest⟩ := bind_eq_ok.mp rest
  obtain ⟨memory, written, last⟩ := bind_eq_ok.mp rest
  exact ⟨cleared, memory, mapError_eq_ok.mp clear, mapError_eq_ok.mp written,
    (pure_eq_ok.mp last).symm⟩

theorem bounds_of_load {ws : List Int} (loaded : m.load (Image.ofWords ws) start = .ok n) :
    n.start = start ∧ n.stop = start + 4 * ws.length := by
  obtain ⟨_, _, -, -, rfl⟩ := load_eq_ok loaded
  refine ⟨rfl, ?_⟩
  dsimp only
  rw [Image.length_ofWords, Int.natCast_mul]
  rfl

/-- A load leaves the cells outside of the image zero. -/
theorem cell_of_load (loaded : m.load image start = .ok n) (nonneg : 0 ≤ start)
    (le : start + image.length ≤ 0x100000000) {i : Nat} (outside : i < start ∨ start + image.length ≤ i) :
    n.memory.cell i = 0 := by
  obtain ⟨cleared, memory, clear, written, rfl⟩ := load_eq_ok loaded
  have zero : cleared.cell i = 0 := by
    unfold Memory.clear at clear
    split at clear
    · cases clear
    · cases clear
      exact Memory.cell_blank _ i
  by_cases empty : image = []
  · subst empty
    unfold Memory.writeBytes at written
    split at written
    · cases written
    · cases written
      exact zero
  · have holds := Memory.holds_of_writeBytes empty written
    rw [Memory.writeBytes_of_holds holds] at written
    cases written
    refine (Memory.getD_setCells _ _ _ _ _ fun k lt same => ?_).trans zero
    unfold Memory.slot at same
    split at same
    all_goals
      unfold Memory.wrap at *
      omega

/-- The words of a loaded image are where they were placed. -/
theorem readWord_of_load {ws : List Int} {v : Int} {k : Nat}
    (loaded : m.load (Image.ofWords ws) start = .ok n) (small : 4 * ws.length ≤ 0x100000000)
    (found : ws[k]? = some v) : n.memory.readWord (start + 4 * k) = .ok (BitVec.ofInt 32 v).toNat := by
  obtain ⟨cleared, memory, clear, written, rfl⟩ := load_eq_ok loaded
  have length := Image.length_ofWords ws
  obtain ⟨inside, -⟩ := List.getElem?_eq_some_iff.mp found
  have some : Image.ofWords ws ≠ [] := by
    intro empty
    rw [empty, List.length_nil] at length
    omega
  have holds : memory.Holds start (Image.ofWords ws).length := by
    have held := Memory.holds_of_writeBytes some written
    rw [Memory.writeBytes_of_holds held] at written
    cases written
    exact held
  have byte : ∀ j : Nat, j < 4 → (toBytes 4 v)[j]? = Option.some (memory.byteAt (start + 4 * k + j)) := by
    intro j lt
    have inside' : 4 * k + j < (Image.ofWords ws).length := by omega
    have read := Memory.byteAt_of_writeBytes written (by omega) inside'
    have place : start + 4 * k + j = start + (4 * k + j : Nat) := by omega
    rw [place, read, ← Image.getElem?_ofWords found lt, List.getElem?_eq_getElem inside']
  have bytes : (List.range 4).map (fun j : Nat => memory.byteAt (start + 4 * k + j)) = toBytes 4 v := by
    apply List.ext_getElem?
    intro j
    by_cases lt : j < 4
    · rw [byte j lt, List.getElem?_map, List.getElem?_range lt, Option.map_some]
    · rw [List.getElem?_eq_none (by simpa using lt), List.getElem?_eq_none (by simpa using lt)]
  rw [Memory.readWord, Memory.readNumber_of_holds (holds.sub (by omega) (by omega)), bytes,
    Image.ofBytes_toBytes]

end Machine

end PocketMips
