import PocketMips.Proofs.Colon
import PocketMips.Proofs.Passes
import Mathlib.Logic.Relation

/-!
# The layout of a source

Blank lines, comments, blanks around a line and between its tokens, the case of mnemonics and registers, and
whether a label has a line of its own do not matter: sources that differ in such things only have the same labels
and the same words.
-/
namespace PocketMips.Assembly

open Number Text

variable {labels : Labels} {base a address i : Int} {ws : List Word} {w : Word} {op : Operation}
  {line text text' name : List Char} {lines lines' block block' operands : List (List Char)}

/-! ## Lines -/

/-- Nothing, or a comment behind its mark. -/
def IsComment (cs : List Char) : Prop := ∀ c ∈ cs.head?, c = '#'

instance (cs : List Char) : Decidable (IsComment cs) :=
  inferInstanceAs (Decidable (∀ c ∈ cs.head?, c = '#'))

theorem hash_not_mem {blanks : List Char} (h : ∀ c ∈ blanks, isBlank c = true) : '#' ∉ blanks := fun mem =>
  absurd (h _ mem) (by decide)

theorem clean_append_comment {core comment : List Char} (plain : '#' ∉ core) (h : IsComment comment) :
    clean (core ++ comment) = trim core := by
  cases comment with
  | nil => rw [List.append_nil, clean, cut_of_not_mem plain]
  | cons c rest =>
    obtain rfl := h c rfl
    rw [clean, cut_append_cons plain]

/-- The label and the text of a trimmed line are those of the line, trimmed. -/
theorem splitLabel_trim {before : List Char} (plain : ':' ∉ before) (rest : List Char) :
    splitLabel (trim (before ++ ':' :: rest)) =
      if isLabel (trim before) then .ok (some (trim before), trim rest)
      else reject (.invalidLabel (trim before)) := by
  have front : ':' ∉ before.dropWhile isBlank := fun mem => plain ((List.dropWhile_suffix _).subset mem)
  rw [trim_append_cons (by decide), splitLabel, cut_append_cons front]
  simp only [trim_dropWhile, trim_dropEnd]

theorem splitLabel_trim_of_not_mem (plain : ':' ∉ text) : splitLabel (trim text) = .ok (none, trim text) := by
  rw [splitLabel, cut_of_not_mem fun mem => plain ((trim_isInfix text).subset mem)]

theorem parts_of_split {label : Option (List Char)} {rest : List Char}
    (h : splitLabel (clean line) = .ok (label, rest)) :
    WellFormed line ∧ label? line = label ∧ body line = rest := by
  rw [WellFormed, label?, body, h]
  exact ⟨⟨_, rfl⟩, rfl, rfl⟩

/-! ## Changes of the layout -/

/-- A mnemonic has no blanks. -/
def IsMnemonic (name : List Char) : Prop := name ≠ [] ∧ ∀ c ∈ name, isBlank c = false

/-- Separators, one at least. -/
def IsGap (gap : List Char) : Prop := gap ≠ [] ∧ ∀ c ∈ gap, isSeparator c = true

instance (name : List Char) : Decidable (IsMnemonic name) :=
  inferInstanceAs (Decidable (name ≠ [] ∧ ∀ c ∈ name, isBlank c = false))

instance (gap : List Char) : Decidable (IsGap gap) :=
  inferInstanceAs (Decidable (gap ≠ [] ∧ ∀ c ∈ gap, isSeparator c = true))

/-- Other layouts of an instruction text: the separators behind the mnemonic, or some behind it between operands,
are replaced by others, or letters are changed to the other case, but not those of a target. -/
inductive Respelled : List Char → List Char → Prop
  | behindMnemonic {name gap gap' rest : List Char} : IsMnemonic name → IsGap gap → IsGap gap' →
    (∀ c ∈ gap.head?, isBlank c = true) → (∀ c ∈ gap'.head?, isBlank c = true) →
    Respelled (name ++ (gap ++ rest)) (name ++ (gap' ++ rest))
  | betweenOperands {name gap gap' before after : List Char} {b : Char} : IsMnemonic name →
    isBlank b = true → IsGap gap → IsGap gap' →
    Respelled (name ++ b :: (before ++ (gap ++ after))) (name ++ b :: (before ++ (gap' ++ after)))
  | letters {name rest text' : List Char} : IsMnemonic name →
    (name ++ rest).map Char.toLower = text'.map Char.toLower →
    targetOf? (name ++ rest) = targetOf? text' → Respelled (name ++ rest) text'

/-- What stands in front of an instruction text: blanks, behind a label and its colon or not. -/
inductive Lead : List Char → Prop
  | unlabelled {front : List Char} : (∀ c ∈ front, isBlank c = true) → Lead front
  | labelled {label front : List Char} : '#' ∉ label → ':' ∉ label → (∀ c ∈ front, isBlank c = true) →
    Lead (label ++ ':' :: front)

/-- Lines with another layout in place of lines. -/
inductive Change : List (List Char) → List (List Char) → Prop
  | insert {front comment : List Char} : (∀ c ∈ front, isBlank c = true) → IsComment comment →
    Change [] [front ++ comment]
  | delete {front comment : List Char} : (∀ c ∈ front, isBlank c = true) → IsComment comment →
    Change [front ++ comment] []
  | surround {core front back comment front' back' comment' : List Char} : '#' ∉ core →
    (∀ c ∈ front ++ back, isBlank c = true) → (∀ c ∈ front' ++ back', isBlank c = true) →
    IsComment comment → IsComment comment' →
    Change [(front ++ (core ++ back)) ++ comment] [(front' ++ (core ++ back')) ++ comment']
  | lift {label rest : List Char} : '#' ∉ label → ':' ∉ label →
    Change [label ++ ':' :: rest] [label ++ [':'], rest]
  | respell {lead text text' comment : List Char} : Lead lead → '#' ∉ text → ':' ∉ text →
    IsComment comment → Respelled text text' →
    Change [(lead ++ text) ++ comment] [(lead ++ text') ++ comment]

/-- A source with one change of its layout. -/
inductive Relaid : List (List Char) → List (List Char) → Prop
  | intro {before block block' after : List (List Char)} : Change block block' →
    Relaid (before ++ (block ++ after)) (before ++ (block' ++ after))

/-! ## Lines in place of others -/

/-- Lines stand for others if they bind the same labels and have the same words wherever those have words. -/
def StandsFor (block block' : List (List Char)) : Prop :=
  ∀ (labels : Labels) (a : Int) (ws : List Word), (∀ p ∈ labels, isLabel p.1 = true) →
    (∀ line ∈ block, WellFormed line) → Encodes labels a (texts block) ws →
    (∀ line ∈ block', WellFormed line) ∧ bound a block' = bound a block ∧ Encodes labels a (texts block') ws

theorem isLabel_of_label? (h : label? line = some name) : isLabel name = true := by
  unfold label? splitLabel at h
  split at h
  · rename_i label rest split
    split at split
    · cases split
      cases h
    · dsimp only at split
      split at split
      · rename_i named
        cases split
        cases h
        exact named
      · cases split
  · cases h

theorem isLabel_of_mem_bound {p : List Char × Int} (mem : p ∈ bound a lines) : isLabel p.1 = true := by
  obtain ⟨i, line, -, label, -⟩ := mem_bound_iff.mp mem
  exact isLabel_of_label? label

/-- A program keeps its labels and words if lines in it are replaced by others that stand for them. -/
theorem assembleLines_of_standsFor {before after : List (List Char)} (h : StandsFor block block')
    (assembled : assembleLines base (before ++ (block ++ after)) = (labels, .ok ws)) :
    assembleLines base (before ++ (block' ++ after)) = (labels, .ok ws) := by
  obtain ⟨formed, nodup, rfl, encodes⟩ := assembleLines_eq_ok_iff.mp assembled
  have names : ∀ p ∈ bound base (before ++ (block ++ after)), isLabel p.1 = true := fun p => isLabel_of_mem_bound
  simp only [List.forall_mem_append] at formed
  rw [texts_append, texts_append] at encodes
  obtain ⟨ws₁, rest, rfl, first, encodes⟩ := encodes_append_iff.mp encodes
  obtain ⟨ws₂, ws₃, rfl, second, third⟩ := encodes_append_iff.mp encodes
  obtain ⟨formed', same, second'⟩ := h _ _ _ names formed.2.1 second
  have length : (texts block').length = (texts block).length := by
    rw [← second.length_eq, ← second'.length_eq]
  have bound_eq : bound base (before ++ (block' ++ after)) = bound base (before ++ (block ++ after)) := by
    rw [bound_append base before, bound_append base before, bound_append _ block', bound_append _ block, same,
      length]
  refine assembleLines_eq_ok_iff.mpr ⟨?_, ?_, bound_eq.symm, ?_⟩
  · simp only [List.forall_mem_append]
    exact ⟨formed.1, formed', formed.2.2⟩
  · rwa [bound_eq]
  · rw [texts_append, texts_append]
    rw [← length] at third
    exact encodes_append_iff.mpr
      ⟨ws₁, _, rfl, first, encodes_append_iff.mpr ⟨ws₂, ws₃, rfl, second', third⟩⟩

/-! ## Other layouts of instruction texts -/

theorem encode_of_tokens (same : tokens text = tokens text') :
    encode labels address text = encode labels address text' := by
  unfold encode
  rw [same]

/-- The first token of a text ends at a blank. -/
theorem tokens_append {rest : List Char} (plain : ∀ c ∈ name, isBlank c = false)
    (first : ∀ c ∈ rest.head?, isBlank c = true) :
    tokens (name ++ rest) = (name, fields isSeparator rest) := by
  have plain : ∀ c ∈ name, (!isBlank c) = true := fun c mem => by rw [plain c mem]; rfl
  rw [tokens_eq, List.takeWhile_append_of_pos plain, List.dropWhile_append_of_pos plain]
  cases rest with
  | nil => rw [List.takeWhile_nil, List.append_nil, List.dropWhile_nil]
  | cons b rest =>
    have blank := first b rfl
    rw [List.takeWhile_cons_of_neg (by simp [blank]), List.append_nil,
      List.dropWhile_cons_of_neg (by simp [blank])]

theorem tokens_append_blank (cs : List Char) {back : List Char} (blank : ∀ c ∈ back, isBlank c = true) :
    tokens (cs ++ back) = tokens cs := by
  obtain ⟨name, rest, rfl, plain, first⟩ : ∃ name rest, cs = name ++ rest ∧ (∀ c ∈ name, isBlank c = false) ∧
      ∀ c ∈ rest.head?, isBlank c = true := by
    refine ⟨_, _, (List.takeWhile_append_dropWhile (p := (!isBlank ·))).symm, fun c mem => ?_, fun c mem => ?_⟩
    · simpa using List.mem_takeWhile_imp mem
    · have ends := List.head?_dropWhile_not (!isBlank ·) cs
      rw [Option.mem_def.mp mem] at ends
      simpa using ends
  have first' : ∀ c ∈ (rest ++ back).head?, isBlank c = true := by
    cases rest with
    | nil => exact fun c mem => blank c (List.mem_of_mem_head? mem)
    | cons b rest => exact first
  have separators : ∀ c ∈ back, isSeparator c = true := fun c mem => by simp [isSeparator, blank c mem]
  rw [List.append_assoc, tokens_append plain first', tokens_append plain first,
    fields_append_of_forall separators]

theorem tokens_trim {c : Char} {cs : List Char} (h : isBlank c = false) :
    tokens (trim (c :: cs)) = tokens (c :: cs) := by
  have back : ∀ d ∈ (c :: cs).rtakeWhile isBlank, isBlank d = true := fun d => List.mem_rtakeWhile_imp
  rw [trim, List.dropWhile_cons_of_neg (by simp [h]), ← tokens_append_blank _ back, dropEnd_append_rtakeWhile]

theorem tokens_of_gap {gap rest : List Char} (mnemonic : IsMnemonic name) (isGap : IsGap gap)
    (first : ∀ c ∈ gap.head?, isBlank c = true) :
    tokens (name ++ (gap ++ rest)) = (name, fields isSeparator rest) := by
  obtain ⟨b, more, rfl⟩ := List.exists_cons_of_ne_nil isGap.1
  have starts : ∀ c ∈ (b :: more ++ rest).head?, isBlank c = true := first
  rw [tokens_append mnemonic.2 starts, fields_gap_append isGap.2]

theorem Respelled.encode (h : Respelled text text') (made : encode labels address text = .ok w) :
    encode labels address text' = .ok w := by
  cases h with
  | behindMnemonic mnemonic gap gap' first first' =>
    rwa [← encode_of_tokens (by rw [tokens_of_gap mnemonic gap first, tokens_of_gap mnemonic gap' first'])]
  | @betweenOperands name gap gap' before after b mnemonic blank isGap isGap' =>
    have starts (rest : List Char) : ∀ c ∈ (b :: rest).head?, isBlank c = true := fun c mem => by
      cases mem
      exact blank
    have same : tokens (name ++ b :: (before ++ (gap ++ after))) =
        tokens (name ++ b :: (before ++ (gap' ++ after))) := by
      rw [tokens_append mnemonic.2 (starts _), tokens_append mnemonic.2 (starts _), ← List.cons_append,
        ← List.cons_append, fields_append_gap isGap.1 isGap.2, fields_append_gap isGap'.1 isGap'.2]
    rwa [← encode_of_tokens same]
  | letters mnemonic same targets => exact encode_of_fold (fold_of_toLower same) targets made

/-- Instruction texts do not start with a blank. -/
theorem Respelled.starts (h : Respelled text text') :
    (∃ c cs, text = c :: cs ∧ isBlank c = false) ∧ ∃ c cs, text' = c :: cs ∧ isBlank c = false := by
  have front {name rest : List Char} (mnemonic : IsMnemonic name) :
      ∃ c cs, name ++ rest = c :: cs ∧ isBlank c = false := by
    obtain ⟨c, cs, rfl⟩ := List.exists_cons_of_ne_nil mnemonic.1
    exact ⟨c, cs ++ rest, rfl, mnemonic.2 c List.mem_cons_self⟩
  cases h with
  | behindMnemonic mnemonic | betweenOperands mnemonic => exact ⟨front mnemonic, front mnemonic⟩
  | letters mnemonic same =>
    refine ⟨front mnemonic, ?_⟩
    obtain ⟨c, cs, text, plain⟩ := front mnemonic
    have folded := fold_of_toLower same
    rw [text] at folded
    obtain ⟨c', cs', rfl, letter, -⟩ := List.map_eq_cons_iff.mp folded.symm
    exact ⟨c', cs', rfl, by rw [← isBlank_foldLetter, letter, isBlank_foldLetter, plain]⟩

theorem Respelled.not_mem {mark : Char} (mem : mark ∈ ['#', ':']) (h : Respelled text text')
    (plain : mark ∉ text) : mark ∉ text' := by
  have apart : ∀ mark ∈ ['#', ':'], isSeparator mark = false := by decide
  have absent {gap : List Char} (isGap : IsGap gap) : mark ∉ gap := fun inside => by
    have separator := isGap.2 mark inside
    rw [apart mark mem] at separator
    cases separator
  cases h with
  | behindMnemonic mnemonic gap gap' =>
    simp only [List.mem_append, not_or] at plain ⊢
    exact ⟨plain.1, absent gap', plain.2.2⟩
  | betweenOperands mnemonic blank gap gap' =>
    simp only [List.mem_append, List.mem_cons, not_or] at plain ⊢
    exact ⟨plain.1, plain.2.1, plain.2.2.1, absent gap', plain.2.2.2.2⟩
  | letters mnemonic same =>
    have listed : mark ∈ ['$', '(', ')', ':', '#'] := by
      simp only [List.mem_cons, List.not_mem_nil, or_false] at mem ⊢
      tauto
    rwa [← mem_fold_iff listed, ← fold_of_toLower same, mem_fold_iff listed]

theorem Lead.not_mem {lead : List Char} (h : Lead lead) : '#' ∉ lead := by
  cases h with
  | unlabelled blank => exact hash_not_mem blank
  | labelled hash colon blank => simp [hash, hash_not_mem blank]

/-- What stands in front of an instruction text decides on the label alone. -/
theorem Lead.split {lead : List Char} (h : Lead lead) :
    (∃ e, ∀ text, ':' ∉ text → splitLabel (trim (lead ++ text)) = .error e) ∨
      ∃ label, ∀ text, ':' ∉ text → splitLabel (trim (lead ++ text)) = .ok (label, trim text) := by
  cases h with
  | unlabelled blank =>
    refine .inr ⟨none, fun text plain => ?_⟩
    rw [trim_blank_append blank, splitLabel_trim_of_not_mem plain]
  | @labelled label front hash colon blank =>
    have split (text : List Char) : splitLabel (trim ((label ++ ':' :: front) ++ text)) =
        if isLabel (trim label) then .ok (some (trim label), trim text)
        else reject (.invalidLabel (trim label)) := by
      rw [List.append_assoc, List.cons_append, splitLabel_trim colon, trim_blank_append blank]
    by_cases named : isLabel (trim label) = true
    · exact .inr ⟨some (trim label), fun text _ => (split text).trans (if_pos named)⟩
    · exact .inl ⟨_, fun text _ => (split text).trans (if_neg named)⟩

/-! ## Other layouts of lines -/

theorem bound_singleton (a : Int) (line : List Char) : bound a [line] = ((label? line).map (·, a)).toList := by
  rw [bound]
  cases label? line <;> rfl

/-- A line stands for one with the same label if its text has the word of the other text. -/
theorem standsFor_singleton (h : WellFormed line → WellFormed text ∧ label? text = label? line ∧
      (body text = [] ↔ body line = []) ∧ ∀ {labels : Labels} {a : Int} {w : Word},
        encode labels a (body line) = .ok w → encode labels a (body text) = .ok w) :
    StandsFor [line] [text] := by
  intro labels a ws names formed encodes
  obtain ⟨formed', label, empty, word⟩ := h (formed line List.mem_cons_self)
  refine ⟨by simpa using formed', by rw [bound_singleton, bound_singleton, label], ?_⟩
  rw [texts_cons] at encodes ⊢
  by_cases none : body line = []
  · rw [if_pos none] at encodes
    rwa [if_pos (empty.mpr none)]
  · rw [if_neg none] at encodes
    rw [if_neg (mt empty.mp none)]
    cases encodes with
    | cons made nothing => exact .cons (word made) nothing

theorem standsFor_of_clean (same : clean text = clean line) : StandsFor [line] [text] := by
  have split : splitLabel (clean text) = splitLabel (clean line) := by rw [same]
  refine standsFor_singleton fun formed => ?_
  obtain ⟨formed', label, rest⟩ := parts_of_split (split.trans (splitLabel_of_wellFormed formed))
  rw [label, rest]
  exact ⟨formed', rfl, Iff.rfl, id⟩

theorem standsFor_lift {label rest : List Char} (hash : '#' ∉ label) (colon : ':' ∉ label) :
    StandsFor [label ++ ':' :: rest] [label ++ [':'], rest] := by
  intro labels a ws names formed encodes
  have formed := formed _ List.mem_cons_self
  have front : '#' ∉ label ++ [':'] := by simp [hash]
  have whole : clean (label ++ ':' :: rest) = trim (label ++ ':' :: (cut '#' rest).1) := by
    rw [clean, List.append_cons, cut_append_of_not_mem front, List.append_assoc, List.singleton_append]
  have alone : clean (label ++ [':']) = trim (label ++ ':' :: []) := by
    rw [clean, cut_of_not_mem front]
  have split := splitLabel_trim colon (cut '#' rest).1
  have split' := splitLabel_trim colon []
  rw [← whole] at split
  rw [← alone] at split'
  by_cases named : isLabel (trim label) = true
  · rw [if_pos named] at split split'
    obtain ⟨-, label₁, body₁⟩ := parts_of_split split
    obtain ⟨formed₂, label₂, body₂ : body (label ++ [':']) = []⟩ := parts_of_split split'
    have plain : ':' ∉ trim (cut '#' rest).1 := by
      rw [texts_cons, body₁] at encodes
      by_cases empty : trim (cut '#' rest).1 = []
      · rw [empty]
        exact List.not_mem_nil
      · rw [if_neg empty] at encodes
        cases encodes with
        | cons made nothing => exact colon_not_mem_of_encode names made
    obtain ⟨formed₃, label₃, body₃⟩ :=
      parts_of_split (splitLabel_trim_of_not_mem (mt (mem_trim (by decide)) plain))
    refine ⟨by simpa using ⟨formed₂, formed₃⟩, ?_, ?_⟩
    · rw [bound, label₂, bound_singleton, label₃, bound_singleton, label₁]
      rfl
    · rw [texts_cons, if_pos body₂, texts_cons, body₃, ← body₁, ← texts_cons]
      exact encodes
  · rw [if_neg named] at split
    exact absurd formed (malformed_of_error split).1

theorem standsFor_respell {lead comment : List Char} (front : Lead lead) (hash : '#' ∉ text) (colon : ':' ∉ text)
    (ends : IsComment comment) (respelled : Respelled text text') :
    StandsFor [(lead ++ text) ++ comment] [(lead ++ text') ++ comment] := by
  have plain {text : List Char} (hash : '#' ∉ text) : clean ((lead ++ text) ++ comment) = trim (lead ++ text) :=
    clean_append_comment (by simp [front.not_mem, hash]) ends
  have hash' := respelled.not_mem (by decide) hash
  have colon' := respelled.not_mem (by decide) colon
  refine standsFor_singleton fun formed => ?_
  rcases front.split with ⟨e, split⟩ | ⟨label, split⟩
  · exact absurd formed (malformed_of_error ((congrArg splitLabel (plain hash)).trans (split text colon))).1
  · obtain ⟨-, label₁, body₁⟩ := parts_of_split ((congrArg splitLabel (plain hash)).trans (split text colon))
    obtain ⟨formed₂, label₂, body₂⟩ :=
      parts_of_split ((congrArg splitLabel (plain hash')).trans (split text' colon'))
    obtain ⟨⟨c, cs, text_eq, first⟩, c', cs', text_eq', first'⟩ := respelled.starts
    have nonempty {c : Char} {cs : List Char} (h : isBlank c = false) : trim (c :: cs) ≠ [] :=
      List.ne_nil_of_mem (mem_trim h List.mem_cons_self)
    rw [label₁, label₂, body₁, body₂]
    refine ⟨formed₂, rfl, ?_, fun made => ?_⟩
    · rw [text_eq, text_eq']
      exact iff_of_false (nonempty first') (nonempty first)
    · have trimmed : tokens (trim text) = tokens text := by rw [text_eq, tokens_trim first]
      have trimmed' : tokens (trim text') = tokens text' := by rw [text_eq', tokens_trim first']
      rw [encode_of_tokens trimmed] at made
      rw [encode_of_tokens trimmed']
      exact respelled.encode made

/-- Lines with another layout stand for the lines. -/
theorem Change.standsFor (h : Change block block') : StandsFor block block' := by
  have void {front comment : List Char} (blank : ∀ c ∈ front, isBlank c = true) (ends : IsComment comment) :
      clean (front ++ comment) = [] := by
    rw [clean_append_comment (hash_not_mem blank) ends]
    simpa using trim_append_blank [] blank
  cases h with
  | insert blank ends =>
    intro labels a ws names formed encodes
    obtain ⟨formed', label, empty⟩ := wellFormed_of_clean (void blank ends)
    rw [bound_singleton, label, texts_cons, if_pos empty]
    exact ⟨by simpa using formed', rfl, encodes⟩
  | delete blank ends =>
    intro labels a ws names formed encodes
    obtain ⟨-, label, empty⟩ := wellFormed_of_clean (void blank ends)
    rw [texts_cons, if_pos empty] at encodes
    rw [bound_singleton, label]
    exact ⟨nofun, rfl, encodes⟩
  | surround plain blank blank' ends ends' =>
    have cleaned {front core back comment : List Char} (plain : '#' ∉ core)
        (blank : ∀ c ∈ front ++ back, isBlank c = true) (ends : IsComment comment) :
        clean ((front ++ (core ++ back)) ++ comment) = trim core := by
      rw [List.forall_mem_append] at blank
      rw [clean_append_comment (by simp [plain, hash_not_mem blank.1, hash_not_mem blank.2]) ends,
        trim_blank_append blank.1, trim_append_blank core blank.2]
    exact standsFor_of_clean ((cleaned plain blank' ends').trans (cleaned plain blank ends).symm)
  | lift hash colon => exact standsFor_lift hash colon
  | respell front hash colon ends respelled => exact standsFor_respell front hash colon ends respelled

/-- **The layout does not matter.** A source that is assembled is assembled to the same labels and words after
any number of changes of its layout. -/
theorem layout_irrelevant (assembled : assemble base (.lines lines) = (labels, .ok ws))
    (relaid : Relation.ReflTransGen Relaid lines lines') :
    assemble base (.lines lines') = (labels, .ok ws) := by
  induction relaid with
  | refl => exact assembled
  | tail _ last ih =>
    obtain ⟨change⟩ := last
    exact assembleLines_of_standsFor change.standsFor ih

/-- A loop on two lines. -/
def countdown : List (List Char) :=
  ["loop: addi $t0, $t0, -1 # down".toList, "bne $t0, $zero, loop".toList]

/-- The loop in another layout. -/
def sprawling : List (List Char) :=
  ["# counts".toList, "loop:".toList, "\tADDI\t$T0 ,$t0, -1".toList, "bne $t0, $zero, loop".toList]

theorem sprawling_relaid : Relation.ReflTransGen Relaid countdown sprawling := by
  have inserted : Change [] [[] ++ "# counts".toList] := .insert (by decide) (by decide)
  have lifted : Change ["loop".toList ++ ':' :: " addi $t0, $t0, -1 # down".toList]
      ["loop".toList ++ [':'], " addi $t0, $t0, -1 # down".toList] := .lift (by decide) (by decide)
  have surrounded : Change [(" ".toList ++ ("addi $t0, $t0, -1".toList ++ " ".toList)) ++ "# down".toList]
      [("\t".toList ++ ("addi $t0, $t0, -1".toList ++ [])) ++ []] :=
    .surround (by decide) (by decide) (by decide) (by decide) (by decide)
  have respelled {text text' : List Char} (hash : '#' ∉ text) (colon : ':' ∉ text) (h : Respelled text text') :
      Change [("\t".toList ++ text) ++ []] [("\t".toList ++ text') ++ []] :=
    .respell (.unlabelled (by decide)) hash colon (by decide) h
  have spaced : Respelled ("addi".toList ++ (" ".toList ++ "$t0, $t0, -1".toList))
      ("addi".toList ++ ("\t".toList ++ "$t0, $t0, -1".toList)) :=
    .behindMnemonic (by decide) (by decide) (by decide) (by decide) (by decide)
  have separated : Respelled ("addi".toList ++ '\t' :: ("$t0".toList ++ (", ".toList ++ "$t0, -1".toList)))
      ("addi".toList ++ '\t' :: ("$t0".toList ++ (" ,".toList ++ "$t0, -1".toList))) :=
    .betweenOperands (by decide) (by decide) (by decide) (by decide)
  have capital : Respelled ("addi".toList ++ "\t$t0 ,$t0, -1".toList) "ADDI\t$T0 ,$t0, -1".toList :=
    .letters (by decide) (by decide +kernel) (by decide +kernel)
  have below {block block' : List (List Char)} (h : Change block block') :
      Relaid (["# counts".toList, "loop:".toList] ++ (block ++ ["bne $t0, $zero, loop".toList]))
        (["# counts".toList, "loop:".toList] ++ (block' ++ ["bne $t0, $zero, loop".toList])) :=
    .intro h
  refine .head (@Relaid.intro [] _ _ countdown inserted) ?_
  refine .head (@Relaid.intro ["# counts".toList] _ _ ["bne $t0, $zero, loop".toList] lifted) ?_
  refine .head (below surrounded) ?_
  refine .head (below (respelled (by decide) (by decide) spaced)) ?_
  refine .head (below (respelled (by decide) (by decide) separated)) ?_
  exact .single (below (respelled (by decide) (by decide) capital))

theorem sprawling_assembled :
    assemble 8 (.lines countdown) = ([("loop".toList, 8)], .ok [0x2108FFFF, 0x1500FFFE]) ∧
      Relation.ReflTransGen Relaid countdown sprawling ∧
      assemble 8 (.lines sprawling) = ([("loop".toList, 8)], .ok [0x2108FFFF, 0x1500FFFE]) := by
  have assembled : assemble 8 (.lines countdown) = ([("loop".toList, 8)], .ok [0x2108FFFF, 0x1500FFFE]) := by
    decide +kernel
  exact ⟨assembled, sprawling_relaid, layout_irrelevant assembled sprawling_relaid⟩

end PocketMips.Assembly
