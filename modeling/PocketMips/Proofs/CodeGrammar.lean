import PocketMips.Proofs.CodeFile
import PocketMips.Proofs.Case
import PocketMips.Proofs.Positions

/-!
# The grammar of machine code as text

A line without its comment is empty or stands for a word: it is 32 binary digits, or hexadecimal ones behind their
mark. A file of such lines is read as their words, and for any other the first line that is wrong is told. Behind
the mark the lines are read as literals, so digits of other scripts and underscores pass as well.
-/
namespace PocketMips

namespace CodeText

open Assembly Number Text

variable {n : Nat} {i : Int} {x c : Char} {cs rest line : List Char} {lines : List (List Char)} {ws : List Word}
  {w : Word} {cause : Cause} {e : Assembly.Error}

/-! ## Lines and words -/

/-- What a line stands for: 32 binary digits, or hexadecimal ones behind their mark. -/
inductive Denotes : List Char → Nat → Prop
  | binary {cs : List Char} : cs.length = 32 → (∀ c ∈ cs, c = '0' ∨ c = '1') → Denotes cs (amount 2 cs)
  | hexadecimal {x : Char} {digits : List Char} : x ∈ ['x', 'X'] → IsRun 16 digits →
    Denotes ('0' :: x :: digits) (amount 16 digits)

/-- A line that is read as a number but stands for none: behind the mark are underscores between the digits or in
front of them, or digits of other scripts. -/
inductive Lenient : List Char → Nat → Prop
  | intro {x : Char} {lead body : List Char} {ds : List Nat} : x ∈ ['x', 'X'] → lead ∈ [[], ['_']] →
    Grouped 16 body ds → ¬IsRun 16 (lead ++ body) → Lenient ('0' :: x :: (lead ++ body)) (ofDigits 16 ds)

/-- What a line is read as. -/
def Reads (cs : List Char) (n : Nat) : Prop := Denotes cs n ∨ Lenient cs n

/-- The line holds a text that is no word, or one that is too wide. -/
inductive Breaks (line : List Char) : Assembly.Error → Prop
  | malformed : clean line ≠ [] → (∀ n, ¬Reads (clean line) n) →
    Breaks line (.rejected .malformedWord none)
  | wide {n : Nat} : Reads (clean line) n → 0xFFFFFFFF < n → Breaks line (.rejected .wideWord none)

/-- The texts of the lines that hold one. -/
def texts (lines : List (List Char)) : List (List Char) := (lines.map clean).filter (· ≠ [])

/-! ## Hexadecimal digits -/

theorem digitIn?_of_digitNumber (small : digitNumber c < 16) : digitIn? 16 c = some (digitNumber c) := by
  have known : c.toLower ∈ digitOrder := List.idxOf_lt_length_iff.mp small
  have ascii : c.toNat < 128 := by
    by_contra high
    rw [toLower_of_not_ascii high] at known
    have low : ∀ c ∈ digitOrder, c.toNat < 128 := by decide
    exact high (low c known)
  exact forall_ascii (p := fun c => digitNumber c < 16 → digitIn? 16 c = some (digitNumber c)) c ascii
    (by decide +kernel) small

theorem grouped_of_isRun (run : IsRun 16 cs) : Grouped 16 cs (cs.map digitNumber) := by
  obtain ⟨some, small⟩ := run
  induction cs with
  | nil => exact absurd rfl some
  | cons c cs ih =>
    rw [List.forall_mem_cons] at small
    have digit := digitIn?_of_digitNumber small.1
    cases cs with
    | nil => exact .last digit
    | cons d cs => exact .cons digit (ih nofun small.2)

/-- Behind a mark the digits of a run are read as what they stand for. -/
theorem reads_run_iff (run : IsRun 16 rest) :
    (∃ lead body ds, rest = lead ++ body ∧ lead ∈ [[], ['_']] ∧ Grouped 16 body ds ∧ n = ofDigits 16 ds) ↔
      n = amount 16 rest := by
  rw [← ofDigits_eq_amount]
  constructor
  · rintro ⟨lead, body, ds, rfl, lead_mem, grouped, rfl⟩
    simp only [List.mem_cons, List.not_mem_nil, or_false] at lead_mem
    rcases lead_mem with rfl | rfl
    · have same := (grouped_of_isRun run).digitRun?
      rw [List.nil_append, grouped.digitRun?, Option.some.injEq] at same
      rw [List.nil_append, same]
    · exact absurd (run.small '_' List.mem_cons_self) (by decide)
  · rintro rfl
    exact ⟨[], rest, _, rfl, List.mem_cons_self, grouped_of_isRun run, rfl⟩

/-! ## Hexadecimal lines -/

theorem foldLetter_eq_zero (c : Char) : foldLetter c = '0' ↔ c = '0' := by
  simpa using class_foldLetter (fun c => decide (c = '0')) (by decide) (by decide +kernel) c

theorem foldLetter_eq_x (c : Char) : foldLetter c = 'x' ↔ c ∈ ['x', 'X'] := by
  have letters := class_foldLetter (fun c => decide (c ∈ ['x', 'X'])) (by decide) (by decide +kernel) c
  have small : foldLetter c ≠ 'X' := by
    by_cases ascii : c.toNat < 128
    · exact forall_ascii c ascii (by decide +kernel)
    · rintro large
      rw [large, decide_eq_decide] at letters
      have ascii' : ∀ c ∈ ['x', 'X'], c.toNat < 128 := by decide
      exact ascii (ascii' c (letters.mp (by decide)))
  rw [decide_eq_decide] at letters
  rw [← letters]
  simp [small]

theorem marked_iff : fold (cs.take 2) = ['0', 'x'] ↔ ∃ x rest, cs = '0' :: x :: rest ∧ x ∈ ['x', 'X'] := by
  constructor
  · intro marked
    rcases cs with _ | ⟨z, _ | ⟨x, rest⟩⟩
    · cases marked
    · exact absurd (congrArg List.length marked) (by simp [fold])
    · obtain ⟨zero, letter⟩ : foldLetter z = '0' ∧ foldLetter x = 'x' := by simpa [fold] using marked
      exact ⟨x, rest, by rw [(foldLetter_eq_zero z).mp zero], (foldLetter_eq_x x).mp letter⟩
  · rintro ⟨x, rest, rfl, letter⟩
    simp [fold, (foldLetter_eq_zero '0').mpr rfl, (foldLetter_eq_x x).mpr letter]

theorem isBlank_of_isMargin (margin : isMargin c = true) : isBlank c = true :=
  (Bool.and_eq_true_iff.mp margin).1

theorem nil_of_trimmed {after : List Char} (trimmed : trim (cs ++ after) = cs ++ after)
    (blank : ∀ c ∈ after, isBlank c = true) : after = [] := by
  have short := (trim_isInfix cs).length_le
  rw [← trim_append_blank cs blank, trimmed, List.length_append] at short
  exact List.length_eq_zero_iff.mp (by omega)

/-- Behind its mark a trimmed text is read as digits with underscores between them or in front of them. -/
theorem literal_marked_iff (trimmed : trim ('0' :: x :: rest) = '0' :: x :: rest) (letter : x ∈ ['x', 'X']) :
    literal .sixteen ('0' :: x :: rest) = .ok i ↔ ∃ lead body ds, rest = lead ++ body ∧
      lead ∈ [[], ['_']] ∧ Grouped 16 body ds ∧ i = ofDigits 16 ds := by
  have zero : decimalValue? '0' = some 0 := by decide
  rw [literal_eq_ok_iff (by decide)]
  constructor
  · generalize text : '0' :: x :: rest = cs
    intro h
    obtain @⟨before, sign, mark, body, after, negative, ds, margins, signed, marked, grouped, -, blank⟩ := h
    have front : before = [] := by
      cases before with
      | nil => rfl
      | cons c before =>
        obtain ⟨rfl, -⟩ := List.cons.inj text
        exact absurd (margins '0' List.mem_cons_self) (by decide)
    subst front
    cases signed with
    | plus | minus => cases text
    | none =>
      have last {lead : List Char} (split : rest = lead ++ (body ++ after)) : after = [] := by
        rw [split] at trimmed
        have shape : '0' :: x :: (lead ++ (body ++ after)) = ('0' :: x :: (lead ++ body)) ++ after := by simp
        rw [shape] at trimmed
        exact nil_of_trimmed trimmed fun c mem => isBlank_of_isMargin (blank c mem)
      cases marked with
      | none =>
        have plain := markedRadix?_grouped (r := .sixteen) (by decide) grouped blank
        rw [List.nil_append, List.nil_append, List.nil_append] at text
        rw [← text] at plain
        exact absurd ((markedRadix?_eq_some_iff (r := .sixteen) (by decide)).mpr ⟨zero, letter⟩) plain
      | plain =>
        obtain ⟨rfl, rfl, split⟩ : _ ∧ _ ∧ rest = [] ++ (body ++ after) := by simpa using text
        obtain rfl := last split
        exact ⟨[], body, ds, by simpa using split, by decide, grouped, rfl⟩
      | underscored =>
        obtain ⟨rfl, rfl, split⟩ : _ ∧ _ ∧ rest = ['_'] ++ (body ++ after) := by simpa using text
        obtain rfl := last split
        exact ⟨['_'], body, ds, by simpa using split, by decide, grouped, rfl⟩
  · rintro ⟨lead, body, ds, rfl, lead_mem, grouped, rfl⟩
    have short : Radix.sixteen.shown = 10 → ds.length ≤ maxDigits := nofun
    have read {mark : List Char} (marked : Mark .sixteen mark) :
        IsLiteral .sixteen (mark ++ body) (ofDigits 16 ds) := by
      have whole : IsLiteral .sixteen ([] ++ ([] ++ (mark ++ (body ++ [])))) _ :=
        .intro nofun .none marked grouped short nofun
      simpa [Radix.shown] using whole
    simp only [List.mem_cons, List.not_mem_nil, or_false] at lead_mem
    rcases lead_mem with rfl | rfl
    · exact read (.plain zero letter)
    · exact read (.underscored zero letter)

/-! ## Numbers and words of lines -/

theorem reads_marked_iff (letter : x ∈ ['x', 'X']) : Reads ('0' :: x :: rest) n ↔
    ∃ lead body ds, rest = lead ++ body ∧ lead ∈ [[], ['_']] ∧ Grouped 16 body ds ∧ n = ofDigits 16 ds := by
  have noBits : ¬∀ c ∈ '0' :: x :: rest, c = '0' ∨ c = '1' := fun bits => by
    have letters : ∀ x ∈ ['x', 'X'], ¬(x = '0' ∨ x = '1') := by decide
    exact letters x letter (bits x (by simp))
  by_cases run : IsRun 16 rest
  · rw [reads_run_iff run]
    constructor
    · rintro ((⟨-, bits⟩ | _) | ⟨-, -, -, mixed⟩)
      · exact absurd bits noBits
      · rfl
      · exact absurd run mixed
    · rintro rfl
      exact .inl (.hexadecimal letter run)
  · constructor
    · rintro ((⟨-, bits⟩ | ⟨-, run'⟩) | @⟨_, lead, body, ds, -, lead_mem, grouped, -⟩)
      · exact absurd bits noBits
      · exact absurd run' run
      · exact ⟨lead, body, ds, rfl, lead_mem, grouped, rfl⟩
    · rintro ⟨lead, body, ds, rfl, lead_mem, grouped, rfl⟩
      exact .inr (.intro letter lead_mem grouped run)

theorem reads_unmarked_iff (unmarked : ¬∃ x rest, cs = '0' :: x :: rest ∧ x ∈ ['x', 'X']) :
    Reads cs n ↔ isBinary cs = true ∧ n = ofDigits 2 (cs.map fun c => if c = '1' then 1 else 0) := by
  have binary : isBinary cs = true ↔ cs.length = 32 ∧ ∀ c ∈ cs, c = '0' ∨ c = '1' := by simp [isBinary]
  have value (bits : ∀ c ∈ cs, c = '0' ∨ c = '1') :
      cs.map (fun c => if c = '1' then 1 else 0) = cs.map digitNumber := by
    refine List.map_congr_left fun c mem => ?_
    rcases bits c mem with rfl | rfl <;> decide
  rw [binary]
  constructor
  · rintro ((⟨length, bits⟩ | ⟨letter, -⟩) | ⟨letter, -, -, -⟩)
    · exact ⟨⟨length, bits⟩, by rw [value bits, ofDigits_eq_amount]⟩
    · exact absurd ⟨_, _, rfl, letter⟩ unmarked
    · exact absurd ⟨_, _, rfl, letter⟩ unmarked
  · rintro ⟨⟨length, bits⟩, rfl⟩
    rw [value bits, ofDigits_eq_amount]
    exact .inl (.binary length bits)

/-- A trimmed text is read as a number by the grammar. -/
theorem number?_eq_some_iff (trimmed : trim cs = cs) :
    number? cs = some i ↔ ∃ n : Nat, Reads cs n ∧ i = n := by
  by_cases marked : ∃ x rest, cs = '0' :: x :: rest ∧ x ∈ ['x', 'X']
  · obtain ⟨x, rest, rfl, letter⟩ := marked
    rw [number?, if_pos (marked_iff.mpr ⟨x, rest, rfl, letter⟩), ← Option.mem_def, mem_toOption_iff,
      literal_marked_iff trimmed letter]
    simp only [reads_marked_iff letter]
    constructor
    · rintro ⟨lead, body, ds, split, lead_mem, grouped, rfl⟩
      exact ⟨_, ⟨lead, body, ds, split, lead_mem, grouped, rfl⟩, rfl⟩
    · rintro ⟨_, ⟨lead, body, ds, split, lead_mem, grouped, rfl⟩, rfl⟩
      exact ⟨lead, body, ds, split, lead_mem, grouped, rfl⟩
  · rw [number?, if_neg (mt marked_iff.mp marked)]
    simp only [reads_unmarked_iff marked]
    by_cases binary : isBinary cs = true <;> simp [binary, eq_comm]

theorem trim_clean (line : List Char) : trim (clean line) = clean line :=
  (trim_dropEnd _).trans (trim_dropWhile _)

/-- A text of a line is read as one number at most. -/
theorem Reads.iff_eq (h : Reads (clean line) n) (m : Nat) : Reads (clean line) m ↔ m = n := by
  refine ⟨fun h' => ?_, fun same => same ▸ h⟩
  have read := (number?_eq_some_iff (trim_clean line)).mpr ⟨n, h, rfl⟩
  have read' := (number?_eq_some_iff (trim_clean line)).mpr ⟨m, h', rfl⟩
  exact Int.ofNat_inj.mp (Option.some.inj (read'.symm.trans read))

theorem word_eq_ok_iff : word (clean line) = .ok w ↔ Reads (clean line) w.toNat := by
  unfold word
  cases read : number? (clean line) with
  | none =>
    refine iff_of_false nofun fun reads => ?_
    cases read.symm.trans ((number?_eq_some_iff (trim_clean line)).mpr ⟨_, reads, rfl⟩)
  | some i =>
    obtain ⟨n, reads, rfl⟩ := (number?_eq_some_iff (trim_clean line)).mp read
    have lt := w.isLt
    rw [reads.iff_eq]
    dsimp only
    split
    · rw [Except.ok.injEq, BitVec.ofInt_natCast]
      constructor
      · rintro rfl
        rw [BitVec.toNat_ofNat, Nat.mod_eq_of_lt (by omega)]
      · rintro rfl
        rw [BitVec.ofNat_toNat, BitVec.setWidth_eq]
    · exact iff_of_false nofun (by omega)

/-- A text that is no word breaks the grammar of its line. -/
theorem breaks_of_word (text : clean line ≠ []) (h : word (clean line) = .error cause) :
    Breaks line (.rejected cause none) := by
  unfold word at h
  split at h
  · rename_i unread
    cases h
    refine .malformed text fun n reads => ?_
    cases unread.symm.trans ((number?_eq_some_iff (trim_clean line)).mpr ⟨n, reads, rfl⟩)
  · rename_i read
    obtain ⟨n, reads, rfl⟩ := (number?_eq_some_iff (trim_clean line)).mp read
    split at h
    · cases h
    · cases h
      exact .wide reads (by omega)

theorem not_breaks_of_empty (empty : clean line = []) : ¬Breaks line e := by
  rintro (⟨text, -⟩ | ⟨reads, -⟩)
  · exact text empty
  · rw [empty] at reads
    rcases reads with h | h <;> cases h
    rename_i length _
    cases length

theorem not_breaks_of_word (h : word (clean line) = .ok w) : ¬Breaks line e := by
  have reads := word_eq_ok_iff.mp h
  have lt := w.isLt
  rintro (⟨-, unread⟩ | ⟨reads', wide⟩)
  · exact unread _ reads
  · rw [reads.iff_eq] at reads'
    omega

/-! ## Lines in their order -/

theorem texts_cons (line : List Char) (lines : List (List Char)) :
    texts (line :: lines) = if clean line = [] then texts lines else clean line :: texts lines := by
  rw [texts, List.map_cons, List.filter_cons]
  simp only [decide_eq_true_eq, ite_not]
  rfl

theorem wordsFrom_of_empty {number : Nat} (empty : clean line = []) :
    wordsFrom number (line :: lines) = wordsFrom (number + 1) lines := by
  rw [wordsFrom, if_pos empty]

theorem wordsFrom_of_text {number : Nat} (text : clean line ≠ []) : wordsFrom number (line :: lines) =
    (word (clean line)).mapError (fun cause => .rejected cause (some ⟨number, clean line⟩)) >>= fun w =>
      (wordsFrom (number + 1) lines).map (w :: ·) := by
  rw [wordsFrom, if_neg text]
  cases word (clean line) <;> rfl

/-- The lines are read if each that holds a text is read as a word. -/
theorem wordsFrom_eq_ok_iff {number : Nat} : wordsFrom number lines = .ok ws ↔
    List.Forall₂ (fun text w => Reads text w.toNat) (texts lines) ws := by
  induction lines generalizing number ws with
  | nil =>
    constructor
    · intro h
      cases h
      exact .nil
    · intro h
      cases h
      rfl
  | cons line lines ih =>
    rw [texts_cons]
    by_cases empty : clean line = []
    · rw [wordsFrom_of_empty empty, if_pos empty, ih]
    · rw [wordsFrom_of_text empty, if_neg empty]
      constructor
      · intro h
        obtain ⟨w, made, rest⟩ := bind_eq_ok.mp h
        obtain ⟨ws, made', rfl⟩ := map_eq_ok.mp rest
        exact .cons (word_eq_ok_iff.mp (mapError_eq_ok.mp made)) (ih.mp made')
      · rintro (_ | ⟨reads, others⟩)
        exact bind_eq_ok.mpr ⟨_, mapError_eq_ok.mpr (word_eq_ok_iff.mpr reads),
          map_eq_ok.mpr ⟨_, ih.mpr others, rfl⟩⟩

/-- If the lines are not read, the first one that breaks the grammar is told. -/
theorem firstWrong_of_wordsFrom {number : Nat} (h : wordsFrom number lines = .error e) :
    ∃ i line cause, FirstWrong (fun _ => Breaks) lines i line (.rejected cause none) ∧
      e = .rejected cause (some ⟨number + i, clean line⟩) := by
  induction lines generalizing number with
  | nil => cases h
  | cons line lines ih =>
    have at_ (i : Nat) : number + 1 + i = number + (i + 1) := by omega
    by_cases empty : clean line = []
    · rw [wordsFrom_of_empty empty] at h
      obtain ⟨i, other, cause, first, rfl⟩ := ih h
      exact ⟨i + 1, other, cause, .tail (fun _ => not_breaks_of_empty empty) first, by rw [at_]⟩
    · rw [wordsFrom_of_text empty] at h
      rcases bind_eq_error.mp h with failed | ⟨w, made, rest⟩
      · obtain ⟨cause, refused, rfl⟩ := mapError_eq_error.mp failed
        exact ⟨0, line, cause, .head (breaks_of_word empty refused), rfl⟩
      · obtain ⟨i, other, cause, first, rfl⟩ := ih (map_eq_error.mp rest)
        have made := mapError_eq_ok.mp made
        exact ⟨i + 1, other, cause, .tail (fun _ => not_breaks_of_word made) first, by rw [at_]⟩

end CodeText

namespace Program

open Assembly Number Text

variable {f : Files} {path : String} {content : List Char}

/-- The lines of a file with a text. -/
def fileLines (content : List Char) : List (List Char) := pieces (· = '\n') (uniformBreaks content)

theorem readCodeText_eq (there : f.load path = .ok (utf8 content)) :
    readCodeText f path = (CodeText.wordsFrom 1 (fileLines content)).mapError .code := by
  have decoded : Files.decode (utf8 content) = .ok (uniformBreaks content) := by
    rw [Files.decode, ofUtf8?_utf8]
  rw [readCodeText, there]
  simp only [bind, Except.bind, Except.mapError, decoded]
  rfl

/-- **The grammar of machine code as text.** A file with a text is read as words if each of its lines that holds a
text besides a comment is read as a word: it is 32 binary digits or a hexadecimal number behind its mark, below
2^32, or passes for one with underscores or digits of other scripts behind the mark. The words are those of these
lines in their order. Otherwise the first line that is read as none is told, by its number counted from one, and
its text. -/
theorem codeText_grammar (there : f.load path = .ok (utf8 content)) :
    (∀ ws, readCodeText f path = .ok ws ↔
      List.Forall₂ (fun text w => CodeText.Denotes text w.toNat ∨ CodeText.Lenient text w.toNat)
        (CodeText.texts (fileLines content)) ws) ∧
    ∀ e, readCodeText f path = .error e → ∃ i line cause,
      FirstWrong (fun _ => CodeText.Breaks) (fileLines content) i line (.rejected cause none) ∧
        e = .code (.rejected cause (some ⟨i + 1, CodeText.clean line⟩)) := by
  rw [readCodeText_eq there]
  refine ⟨fun ws => mapError_eq_ok.trans CodeText.wordsFrom_eq_ok_iff, fun e failed => ?_⟩
  obtain ⟨e, met, rfl⟩ := mapError_eq_error.mp failed
  obtain ⟨i, line, cause, first, rfl⟩ := CodeText.firstWrong_of_wordsFrom met
  exact ⟨i, line, cause, first, by rw [Nat.add_comm]⟩

/-- A file at a path. -/
def holding (path : String) (text : String) : Files := { contents := [([path], utf8 text.toList)] }

/-- A comment, a hexadecimal word, and one that is too wide. -/
def overflowing : String := "# words\n0xdeadBEEF # last\r\n\n 0x100000000\nhalt\n"

theorem overflowing_codeText :
    (holding "p.txt" overflowing).load "p.txt" = .ok (utf8 overflowing.toList) ∧
      readCodeText (holding "p.txt" overflowing) "p.txt" =
        .error (.code (.rejected .wideWord (some ⟨4, "0x100000000".toList⟩))) ∧
      ∃ line, FirstWrong (fun _ => CodeText.Breaks) (fileLines overflowing.toList) 3 line
        (.rejected .wideWord none) := by
  have there : (holding "p.txt" overflowing).load "p.txt" = .ok (utf8 overflowing.toList) := by
    decide +kernel
  have failed : readCodeText (holding "p.txt" overflowing) "p.txt" =
      .error (.code (.rejected .wideWord (some ⟨4, "0x100000000".toList⟩))) := by
    decide +kernel
  obtain ⟨i, line, cause, first, told⟩ := (codeText_grammar there).2 _ failed
  obtain ⟨rfl, place⟩ := Assembly.Error.rejected.inj (Program.Error.code.inj told)
  obtain ⟨number, -⟩ := Place.mk.inj (Option.some.inj place)
  obtain rfl : i = 3 := by omega
  exact ⟨there, failed, line, first⟩

/-- Digits that are grouped behind the mark are read, though the line stands for no word. -/
theorem grouped_word_is_read :
    (holding "p.txt" "0x1_0").load "p.txt" = .ok (utf8 "0x1_0".toList) ∧
      readCodeText (holding "p.txt" "0x1_0") "p.txt" = .ok [16] ∧
      CodeText.texts (fileLines "0x1_0".toList) = ["0x1_0".toList] ∧
      ∀ n, ¬CodeText.Denotes "0x1_0".toList n := by
  refine ⟨by decide +kernel, by decide +kernel, by decide +kernel, ?_⟩
  rintro n (⟨length, -⟩ | ⟨-, run⟩)
  · cases length
  · exact absurd (run.small '_' (by decide)) (by decide)

end Program

end PocketMips
