import PocketMips.Program
import PocketMips.Proofs.Disassembly
import PocketMips.Proofs.Load

/-!
# Program files

What is written to a file is read from it. Machine code that is written as an image, in hexadecimal or in
binary is read as the words it was written from.
-/
namespace PocketMips

/-! ## Files -/

namespace Files

variable {f f' : Files} {path : String} {place here : List String} {names : List String} {bytes : List Byte}

theorem node_put_directory (is : f.node here = .directory) (ne : here ≠ place) :
    (f.put place bytes).node here = .directory := by
  unfold node at is ⊢
  split at is
  · cases is
  · rename_i absent
    have absent' : (f.put place bytes).contents.find? (·.1 = here) = none := by
      simp only [List.find?_eq_none, decide_eq_true_eq] at absent
      simp only [put, List.find?_cons, Ne.symm ne, decide_false, List.find?_eq_none, List.mem_filter]
      intro e mem
      simpa using absent e mem.1
    rw [absent']
    dsimp only at is ⊢
    split at is
    · rename_i holds
      rw [if_pos]
      simp only [Bool.or_eq_true, decide_eq_true_eq, List.any_eq_true] at holds ⊢
      rcases holds with (root | ⟨e, mem, below⟩) | below
      · exact .inl (.inl root)
      · refine .inl (.inr ?_)
        -- the entry below it may be the one that is replaced
        by_cases same : e.1 = place
        · exact ⟨(place, bytes), List.mem_cons_self, same ▸ below⟩
        · exact ⟨e, List.mem_cons_of_mem _ (by simp [mem, same]), below⟩
      · exact .inr below
    · cases is

theorem follow_put (file : f.node place ≠ .directory) (h : f.follow path here names = .ok place) :
    (f.put place bytes).follow path here names = .ok place := by
  fun_induction follow f path here names with
  | case1 => exact h
  | case2 | case3 => cases h
  | case4 here name names is skip ih =>
    have ne : here ≠ place := fun same => file (same ▸ is)
    simp only [follow, node_put_directory is ne, skip, if_true]
    exact ih h
  | case5 here names is skip ih =>
    have ne : here ≠ place := fun same => file (same ▸ is)
    simp only [follow, node_put_directory is ne]
    exact ih h
  | case6 => cases h
  | case7 here name names is skip up short ih =>
    have ne : here ≠ place := fun same => file (same ▸ is)
    simp only [follow, node_put_directory is ne, skip, up, short, if_false]
    exact ih h

/-- **A file that has been written is read.** -/
theorem load_of_write (h : f.write path bytes = .ok f') : f'.load path = .ok bytes := by
  obtain ⟨place, aimed, h⟩ := bind_eq_ok.mp h
  have file : f.node place ≠ .directory := by
    intro is
    rw [is] at h
    cases h
  have same : f' = f.put place bytes := by
    split at h
    · cases h
    · exact (pure_eq_ok.mp h).symm
  have resolved : f.resolve path = .ok place := by
    obtain ⟨_, -, aimed⟩ := bind_eq_ok.mp aimed
    split at aimed
    · exact aimed
    · obtain ⟨_, -, aimed⟩ := bind_eq_ok.mp aimed
      split at aimed <;> cases aimed
  obtain ⟨⟨⟩, checked, followed⟩ := bind_eq_ok.mp resolved
  have resolved : f'.resolve path = .ok place := by
    rw [same, resolve, checked]
    exact follow_put file followed
  have node : f'.node place = .file bytes := by rw [same, node_put]
  have found : f'.has path = true := by simp [has, resolved, node]
  rw [load, if_pos found, read, resolved]
  simp only [bind, Except.bind, node]
  rfl

theorem write_error {e : Error} (h : f.write path bytes = .error e) (others : List Byte) :
    f.write path others = .error e := by
  unfold write at h ⊢
  cases aimed : f.target path with
  | error _ => simpa [aimed, bind, Except.bind] using h
  | ok place =>
    simp only [aimed, bind, Except.bind] at h ⊢
    cases is : f.node place <;> simp_all [pure, Except.pure]

end Files

/-! ## Numbers in hexadecimal and in binary -/

namespace Number

open Text

variable {ds : List Nat}

theorem digitIn?_capital {d : Nat} (lt : d < 16) :
    digitIn? 16 d.digitChar.toUpper = some d ∧ d.digitChar.toUpper ≠ '_' := by
  have values : ∀ d : Fin 16, digitIn? 16 (d : Nat).digitChar.toUpper = some (d : Nat) ∧
      (d : Nat).digitChar.toUpper ≠ '_' := by
    decide
  exact values ⟨d, lt⟩

theorem digitRun?_capitals (small : ∀ d ∈ ds, d < 16) :
    digitRun? 16 (ds.map (·.digitChar.toUpper)) = some ds := by
  induction ds with
  | nil => rfl
  | cons d ds ih =>
    rw [List.forall_mem_cons] at small
    obtain ⟨value, plain⟩ := digitIn?_capital small.1
    rw [List.map_cons, digitRun?]
    · rw [value, ih small.2]
      rfl
    · exact plain

/-- The hexadecimal text of a natural number is the literal of the number. -/
theorem literal_hex (width n : Nat) : literal .sixteen (hex width n) = .ok (n : Int) := by
  obtain ⟨ds, text, small, filled, value⟩ := exists_capitals width n
  have digit : ∀ c ∈ ds.map (·.digitChar.toUpper),
      (decide (c = '_') || (digitIn? 16 c).isSome) = true := by
    intro c mem
    obtain ⟨d, inside, rfl⟩ := List.mem_map.mp mem
    simp [digitIn?_capital (small d inside)]
  have run := digitRun?_capitals small
  obtain ⟨d, rest, rfl⟩ := List.exists_cons_of_ne_nil filled
  have plain := (digitIn?_capital (small d List.mem_cons_self)).2
  have body : unmark .sixteen ('0' :: 'x' :: (d :: rest).map (·.digitChar.toUpper)) =
      (16, (d :: rest).map (·.digitChar.toUpper)) := by
    have marked (cs : List Char) : markedRadix? ('0' :: 'x' :: cs) = some 16 := rfl
    simp only [unmark, marked, Radix.shown, if_true, List.map_cons, List.drop_succ_cons, List.drop_zero]
    split
    · rename_i underscore
      exact absurd (List.cons.inj underscore).1 plain
    · rfl
  rw [literal, hex, text]
  have margin : ('0' :: 'x' :: (d :: rest).map (·.digitChar.toUpper)).dropWhile isMargin =
      '0' :: 'x' :: (d :: rest).map (·.digitChar.toUpper) := rfl
  rw [margin, unsign_cons (by decide) (by decide)]
  simp only [body, List.takeWhile_eq_self_iff.mpr digit, List.dropWhile_eq_nil_iff.mpr digit, run]
  simp [plain, value]

end Number

/-! ## Machine code as text -/

namespace Text

theorem pieces_flatMap {ends : Char → Bool} {mark : Char} (marks : ends mark = true)
    {ls : List (List Char)} (plain : ∀ l ∈ ls, ∀ c ∈ l, ends c = false) :
    pieces ends (ls.flatMap (· ++ [mark])) = ls := by
  have ended (l cs : List Char) (plain : ∀ c ∈ l, ends c = false) :
      pieces ends (l ++ mark :: cs) = l :: pieces ends cs := by
    induction l with
    | nil => simp [pieces, marks]
    | cons c l ih =>
      rw [List.forall_mem_cons] at plain
      simp [pieces, plain.1, ih plain.2]
  induction ls with
  | nil => rfl
  | cons l ls ih =>
    rw [List.forall_mem_cons] at plain
    simp [ended l _ plain.1, ih plain.2]

end Text

namespace CodeText

open Assembly Number Text

/-- The 32 binary digits of a word. -/
theorem exists_binary (w : Word) :
    ∃ ds : List Nat, line .binary (w.toNat : Int) = ds.map Nat.digitChar ∧ (∀ d ∈ ds, d < 2) ∧
      ds.length = 32 ∧ ofDigits 2 ds = w.toNat := by
  obtain ⟨ds, text, small, -, value⟩ := exists_padded (by decide : 1 < 2) 32 w.toNat
  have low : ∀ d ∈ ds, d.digitChar.toUpper = d.digitChar := by
    have low : ∀ d : Fin 2, (d : Nat).digitChar.toUpper = (d : Nat).digitChar := by decide
    exact fun d mem => low ⟨d, small d mem⟩
  have short : (Nat.toDigits 2 w.toNat).length ≤ 32 :=
    (Nat.length_toDigits_le_iff (by decide) (by decide)).mpr w.isLt
  refine ⟨ds, by rw [line, text, List.map_congr_left low], small, ?_, value⟩
  have length := congrArg List.length text
  rw [padded, if_neg (by omega), length_zeroFill, List.length_map, Int.natAbs_natCast,
    List.length_map] at length
  omega

theorem line_plain {style : Style} {w : Word} {c : Char} (mem : c ∈ line style (w.toNat : Int)) :
    isBlank c = false ∧ c ≠ '#' := by
  cases style with
  | hexadecimal =>
    obtain ⟨blank, plain⟩ := hex_plain mem
    exact ⟨blank, by rintro rfl; simp at plain⟩
  | binary =>
    obtain ⟨ds, text, small, -⟩ := exists_binary w
    rw [text] at mem
    obtain ⟨d, inside, rfl⟩ := List.mem_map.mp mem
    obtain ⟨blank, -, plain⟩ := digitChar_plain (Nat.lt_trans (small d inside) (by decide : 2 < 16))
    exact ⟨blank, fun same => by simp [same] at plain⟩

theorem clean_line {style : Style} {w : Word} :
    clean (line style (w.toNat : Int)) = line style (w.toNat : Int) := by
  rw [clean, cut_of_not_mem fun mem => (line_plain mem).2 rfl]
  exact trim_eq_self_of_forall fun c mem => (line_plain mem).1

theorem number?_line (style : Style) (w : Word) : number? (line style (w.toNat : Int)) = some (w.toNat : Int) := by
  cases style with
  | hexadecimal =>
    have marked : fold ((line .hexadecimal (w.toNat : Int)).take 2) = ['0', 'x'] := rfl
    rw [number?, if_pos marked, line, literal_hex]
    rfl
  | binary =>
    obtain ⟨ds, text, small, length, value⟩ := exists_binary w
    have bits : ∀ d : Fin 2, ((d : Nat).digitChar = '0' ∨ (d : Nat).digitChar = '1') ∧
        (if (d : Nat).digitChar = '1' then 1 else 0) = (d : Nat) := by
      decide
    have bit (d : Nat) (mem : d ∈ ds) := bits ⟨d, small d mem⟩
    have binary : isBinary (ds.map Nat.digitChar) = true := by
      simpa [isBinary, length] using fun d mem => (bit d mem).1
    have unmarked : fold ((ds.map Nat.digitChar).take 2) ≠ ['0', 'x'] := by
      rw [← List.map_take, fold_digits fun d mem => Nat.lt_trans (small d (List.mem_of_mem_take mem))
        (by decide)]
      intro marked
      have mem : 'x' ∈ (ds.take 2).map Nat.digitChar := by simp [marked]
      obtain ⟨d, inside, letter⟩ := List.mem_map.mp mem
      have digit := (bit d (List.mem_of_mem_take inside)).1
      simp [letter] at digit
    have digits : (ds.map Nat.digitChar).map (fun c => if c = '1' then 1 else 0) = ds := by
      rw [List.map_map]
      exact (List.map_congr_left fun d mem => (bit d mem).2).trans (List.map_id ds)
    rw [text, number?, if_neg unmarked, if_pos binary, digits, value]

theorem word_line (style : Style) (w : Word) : word (line style (w.toNat : Int)) = .ok w := by
  have lt := w.isLt
  rw [word, number?_line]
  simp only [BitVec.ofInt_natCast, BitVec.ofNat_toNat, BitVec.setWidth_eq]
  rw [if_pos (by omega)]

theorem wordsFrom_lines (style : Style) (number : Nat) (ws : List Word) :
    wordsFrom number (ws.map fun w => line style (w.toNat : Int)) = .ok ws := by
  induction ws generalizing number with
  | nil => rfl
  | cons w ws ih =>
    have filled : line style (w.toNat : Int) ≠ [] := by
      intro empty
      have value := number?_line style w
      rw [empty] at value
      cases value
    simp only [List.map_cons, wordsFrom, clean_line, filled, if_false, word_line, ih]
    rfl

/-- **Machine code as text is read back**, in hexadecimal and in binary. -/
theorem words_ofWords (style : Style) (ws : List Word) :
    words (ofWords style (ws.map fun w => (w.toNat : Int))) = .ok ws := by
  have lines : ofWords style (ws.map fun w => (w.toNat : Int)) =
      (ws.map fun w => line style (w.toNat : Int)).flatMap (· ++ ['\n']) := by
    simp [ofWords, List.flatMap_map]
  rw [words, lines, pieces_flatMap (by decide), wordsFrom_lines]
  intro l mem c inside
  obtain ⟨w, -, rfl⟩ := List.mem_map.mp mem
  have blank := (line_plain inside).1
  exact decide_eq_false fun same => by simp [same, isBlank] at blank

end CodeText

/-! ## Programs in files -/

namespace Program

open Text

variable {f f' : Files} {path : String}

theorem ofPath_ne_assembly
    (code : fold (Files.extension path) ∈ [".bin".toList, ".txt".toList, ".hex".toList]) :
    Format.ofPath path ≠ .assembly := by
  simp only [List.mem_cons, List.not_mem_nil, or_false] at code
  rcases code with is | is | is <;> simp [Format.ofPath, is]

theorem exists_words {ws : List Int} (range : ∀ w ∈ ws, 0 ≤ w ∧ w < 0x100000000) :
    ∃ words : List Word, ws = words.map fun w => (w.toNat : Int) := by
  refine ⟨ws.map (BitVec.ofInt 32), ?_⟩
  rw [List.map_map]
  refine ((List.map_congr_left fun w mem => ?_).trans (List.map_id ws)).symm
  have bounds := range w mem
  simp only [Function.comp_apply, BitVec.toNat_ofInt, id]
  omega

theorem write_error {e : Files.Error} {ws : List Int} (h : write f path ws = .error e) (bytes : List Byte) :
    f.write path bytes = .error e := by
  unfold write at h
  split at h <;> exact Files.write_error h bytes

variable {ws : List Word}

theorem readCodeText_of_write {style : CodeText.Style}
    (h : f.writeText path (CodeText.ofWords style (ws.map fun w => (w.toNat : Int))) = .ok f') :
    readCodeText f' path = .ok ws := by
  have plain : '\r' ∉ CodeText.ofWords style (ws.map fun w => (w.toNat : Int)) := by
    intro mem
    simp only [CodeText.ofWords, List.flatMap_map, List.mem_flatMap, List.mem_append] at mem
    obtain ⟨w, -, mem | mem⟩ := mem
    · cases (CodeText.line_plain mem).1
    · simp at mem
  have decoded : Files.decode (utf8 (CodeText.ofWords style (ws.map fun w => (w.toNat : Int)))) =
      .ok (CodeText.ofWords style (ws.map fun w => (w.toNat : Int))) := by
    rw [Files.decode, ofUtf8?_utf8]
    exact congrArg Except.ok (uniformBreaks_eq_self plain)
  rw [readCodeText, Files.load_of_write h]
  simp only [bind, Except.bind, Except.mapError, decoded, CodeText.words_ofWords]

/-- **Machine code that is written to a file is read from it**, by the extension of its path. -/
theorem read_of_write (code : Format.ofPath path ≠ .assembly)
    (h : write f path (ws.map fun w => (w.toNat : Int)) = .ok f') :
    read f' path = .ok (ofWords ws) := by
  unfold write at h
  unfold read
  cases format : Format.ofPath path with
  | image =>
    rw [format] at h
    simp only [readImage, Files.load_of_write h, bind, Except.bind, Except.mapError, Image.words?_ofWords,
      Image.residues_toNat]
    rfl
  | codeText =>
    rw [format] at h
    rw [readCodeText_of_write h]
    rfl
  | assembly => exact absurd format code

end Program

end PocketMips
