import PocketMips.Text.Blank
import Mathlib.Data.List.DropRight

/-!
# Trimming and cutting texts

A text that begins and ends with other characters than blanks is trimmed already, a text is cut at the
first occurrence of a mark, and the fields of a text are those before a separator and those after it.
-/
namespace PocketMips.Text

variable {cs : List Char}

/-! ## Deciding along a text

There is an instance that decides a statement about all characters by going through every one of them. It would
be found for the characters of a text, too, and never come to an end. -/

instance (priority := high) decidableForallMem (p : Char → Prop) [DecidablePred p] (cs : List Char) :
    Decidable (∀ c ∈ cs, p c) :=
  List.decidableBAll p cs

instance (priority := high) decidableForallMemHead (p : Char → Prop) [DecidablePred p] (first : Option Char) :
    Decidable (∀ c ∈ first, p c) :=
  Option.decidableForallMem first

/-- What holds of the first 128 characters holds of those of ASCII. -/
@[elab_as_elim]
theorem forall_ascii {p : Char → Prop} (c : Char) (ascii : c.toNat < 128) (each : ∀ n < 128, p (.ofNat n)) :
    p c := by
  simpa only [Char.ofNat_toNat] using each c.toNat ascii

/-! ## Blanks around a text -/

theorem dropEnd_eq_self {p : Char → Bool} (last : ∀ c ∈ cs.getLast?, p c = false) :
    dropEnd p cs = cs := by
  rw [dropEnd]
  cases rev : cs.reverse with
  | nil => rw [List.dropWhile_nil, List.reverse_nil, List.reverse_eq_nil_iff.mp rev]
  | cons c rest =>
    have ends : cs.getLast? = some c := by rw [List.getLast?_eq_head?_reverse, rev, List.head?_cons]
    rw [List.dropWhile_cons_of_neg (by simp [last c ends]), ← rev, List.reverse_reverse]

/-- A text is trimmed if neither its first character nor its last one is a blank. -/
theorem trim_eq_self (first : ∀ c ∈ cs.head?, isBlank c = false)
    (last : ∀ c ∈ cs.getLast?, isBlank c = false) : trim cs = cs := by
  cases cs with
  | nil => rfl
  | cons c rest =>
    rw [trim, List.dropWhile_cons_of_neg (by simp [first c rfl])]
    exact dropEnd_eq_self last

theorem trim_eq_self_of_forall (h : ∀ c ∈ cs, isBlank c = false) : trim cs = cs :=
  trim_eq_self (fun c mem => h c (List.mem_of_mem_head? mem))
    fun c mem => h c (List.mem_of_getLast? mem)

theorem trim_isInfix (cs : List Char) : trim cs <:+: cs :=
  (List.rdropWhile_prefix isBlank _).isInfix.trans (List.dropWhile_suffix isBlank).isInfix

theorem trim_blank_append {front : List Char} (blank : ∀ c ∈ front, isBlank c = true) (cs : List Char) :
    trim (front ++ cs) = trim cs := by
  rw [trim, List.dropWhile_append_of_pos blank, trim]

theorem trim_append_blank (cs : List Char) {back : List Char} (blank : ∀ c ∈ back, isBlank c = true) :
    trim (cs ++ back) = trim cs := by
  have back_nil : back.dropWhile isBlank = [] := List.dropWhile_eq_nil_iff.mpr blank
  rw [trim, trim, List.dropWhile_append, back_nil]
  split
  · rename_i nothing
    rw [List.isEmpty_iff.mp nothing]
  · rw [dropEnd, List.reverse_append, List.dropWhile_append_of_pos (by simpa using blank), dropEnd]

theorem trim_dropWhile (cs : List Char) : trim (cs.dropWhile isBlank) = trim cs := by
  have front : ∀ c ∈ cs.takeWhile isBlank, isBlank c = true := fun c => List.mem_takeWhile_imp
  rw [← trim_blank_append front (cs.dropWhile isBlank), List.takeWhile_append_dropWhile]

theorem dropEnd_append_rtakeWhile (p : Char → Bool) (cs : List Char) :
    dropEnd p cs ++ cs.rtakeWhile p = cs :=
  List.rdropWhile_append_rtakeWhile

theorem trim_dropEnd (cs : List Char) : trim (dropEnd isBlank cs) = trim cs := by
  have back : ∀ c ∈ cs.rtakeWhile isBlank, isBlank c = true := fun c => List.mem_rtakeWhile_imp
  rw [← trim_append_blank (dropEnd isBlank cs) back, dropEnd_append_rtakeWhile]

theorem dropWhile_append_cons {p : Char → Bool} {c : Char} (h : p c = false) (before after : List Char) :
    (before ++ c :: after).dropWhile p = before.dropWhile p ++ c :: after := by
  rw [List.dropWhile_append]
  split
  · rename_i nothing
    rw [List.isEmpty_iff.mp nothing, List.dropWhile_cons_of_neg (by simp [h])]
    rfl
  · rfl

/-- A text is trimmed on both sides of a character that is no blank. -/
theorem trim_append_cons {c : Char} (h : isBlank c = false) (before after : List Char) :
    trim (before ++ c :: after) = before.dropWhile isBlank ++ c :: dropEnd isBlank after := by
  rw [trim, dropWhile_append_cons h, dropEnd, List.reverse_append, List.reverse_cons, List.append_assoc,
    List.singleton_append, dropWhile_append_cons h, List.reverse_append, List.reverse_cons,
    List.reverse_reverse, List.append_assoc, List.singleton_append, dropEnd]

theorem mem_trim {c : Char} (h : isBlank c = false) (mem : c ∈ cs) : c ∈ trim cs := by
  obtain ⟨before, after, rfl⟩ := List.append_of_mem mem
  rw [trim_append_cons h]
  exact List.mem_append_right _ List.mem_cons_self

/-! ## Cutting at a mark -/

theorem cut_of_not_mem {mark : Char} (h : mark ∉ cs) : cut mark cs = (cs, none) := by
  induction cs with
  | nil => rfl
  | cons c cs ih =>
    rw [List.mem_cons, not_or] at h
    rw [cut, if_neg (Ne.symm h.1), ih h.2]

theorem cut_append_cons {mark : Char} (h : mark ∉ cs) (rest : List Char) :
    cut mark (cs ++ mark :: rest) = (cs, some rest) := by
  induction cs with
  | nil => exact if_pos rfl
  | cons c cs ih =>
    rw [List.mem_cons, not_or] at h
    rw [List.cons_append, cut, if_neg (Ne.symm h.1), ih h.2]

theorem cut_append_of_not_mem {mark : Char} (h : mark ∉ cs) (rest : List Char) :
    cut mark (cs ++ rest) = (cs ++ (cut mark rest).1, (cut mark rest).2) := by
  induction cs with
  | nil => rfl
  | cons c cs ih =>
    rw [List.mem_cons, not_or] at h
    rw [List.cons_append, cut, if_neg (Ne.symm h.1), ih h.2]
    rfl

/-! ## Texts with separators between them -/

theorem mem_intercalate {α : Type} {sep : List α} {pieces : List (List α)} {a : α}
    (mem : a ∈ sep.intercalate pieces) : a ∈ sep ∨ ∃ p ∈ pieces, a ∈ p := by
  induction pieces with
  | nil => cases mem
  | cons p rest ih =>
    cases rest with
    | nil =>
      rw [List.intercalate_singleton] at mem
      exact Or.inr ⟨p, List.mem_cons_self, mem⟩
    | cons q rest =>
      rw [List.intercalate_cons_cons, List.mem_append, List.mem_append] at mem
      rcases mem with (mem | mem) | mem
      · exact Or.inr ⟨p, List.mem_cons_self, mem⟩
      · exact Or.inl mem
      · rcases ih mem with mem | ⟨r, inside, mem⟩
        · exact Or.inl mem
        · exact Or.inr ⟨r, List.mem_cons_of_mem _ inside, mem⟩

/-- Texts put together end as one of them does. -/
theorem exists_getLast?_intercalate (sep : List Char) {pieces : List (List Char)} (ne : pieces ≠ [])
    (full : ∀ p ∈ pieces, p ≠ []) :
    ∃ p ∈ pieces, ∃ c ∈ p, (sep.intercalate pieces).getLast? = some c := by
  induction pieces with
  | nil => exact absurd rfl ne
  | cons p rest ih =>
    cases rest with
    | nil =>
      have last := List.getLast?_eq_some_getLast (full p List.mem_cons_self)
      rw [List.intercalate_singleton]
      exact ⟨p, List.mem_cons_self, _, List.mem_of_getLast? last, last⟩
    | cons q rest =>
      obtain ⟨r, inside, c, mem, last⟩ :=
        ih (List.cons_ne_nil _ _) fun r mem => full r (List.mem_cons_of_mem _ mem)
      refine ⟨r, List.mem_cons_of_mem _ inside, c, mem, ?_⟩
      rw [List.intercalate_cons_cons, List.getLast?_append, last, Option.some_or]

/-! ## Fields -/

variable {sep : Char → Bool}

theorem fields_append_cons {s : Char} (h : sep s = true) (before after : List Char) :
    fields sep (before ++ s :: after) = fields sep before ++ fields sep after := by
  rw [fields, List.splitOnP_append_cons _ _ h, List.filter_append]
  rfl

theorem fields_cons {s : Char} (h : sep s = true) (after : List Char) :
    fields sep (s :: after) = fields sep after :=
  fields_append_cons h [] after

/-- Separators in front of a text change none of its fields. -/
theorem fields_gap_append {gap : List Char} (h : ∀ c ∈ gap, sep c = true) (cs : List Char) :
    fields sep (gap ++ cs) = fields sep cs := by
  induction gap with
  | nil => rfl
  | cons s gap ih =>
    rw [List.forall_mem_cons] at h
    rw [List.cons_append, fields_cons h.1, ih h.2]

/-- A run of separators ends a field. -/
theorem fields_append_gap {gap : List Char} (some : gap ≠ []) (h : ∀ c ∈ gap, sep c = true)
    (before after : List Char) :
    fields sep (before ++ (gap ++ after)) = fields sep before ++ fields sep after := by
  obtain ⟨s, rest, rfl⟩ := List.exists_cons_of_ne_nil some
  rw [List.forall_mem_cons] at h
  rw [List.cons_append, fields_append_cons h.1, fields_gap_append h.2]

/-- Separators behind a text change none of its fields. -/
theorem fields_append_of_forall {gap : List Char} (h : ∀ c ∈ gap, sep c = true) (cs : List Char) :
    fields sep (cs ++ gap) = fields sep cs := by
  by_cases some : gap = []
  · rw [some, List.append_nil]
  · have ends := fields_append_gap some h cs []
    rwa [List.append_nil, show fields sep [] = [] from rfl, List.append_nil] at ends

/-- A text without separators is one field. -/
theorem fields_eq_singleton (some : cs ≠ []) (h : ∀ c ∈ cs, sep c = false) :
    fields sep cs = [cs] := by
  rw [fields, List.splitOnP_eq_singleton h, List.filter_cons_of_pos (by simpa using some),
    List.filter_nil]

/-- Fields that are put together with separators between them are taken apart again. -/
theorem fields_intercalate {a b : Char} (ha : sep a = true) (hb : sep b = true)
    {pieces : List (List Char)} (some : ∀ p ∈ pieces, p ≠ [])
    (h : ∀ p ∈ pieces, ∀ c ∈ p, sep c = false) :
    fields sep ([a, b].intercalate pieces) = pieces := by
  induction pieces with
  | nil => rfl
  | cons p rest ih =>
    have first := fields_eq_singleton (some p List.mem_cons_self) (h p List.mem_cons_self)
    have others := ih (fun q mem => some q (List.mem_cons_of_mem _ mem))
      fun q mem => h q (List.mem_cons_of_mem _ mem)
    cases rest with
    | nil => rw [List.intercalate_singleton, first]
    | cons q rest =>
      rw [List.intercalate_cons_cons, List.append_assoc, List.cons_append, fields_append_cons ha, first,
        List.singleton_append, List.singleton_append, fields_cons hb, others]

/-- The fields of a text are those behind its separators in front. -/
theorem fields_dropWhile (sep : Char → Bool) (cs : List Char) :
    fields sep (cs.dropWhile sep) = fields sep cs := by
  induction cs with
  | nil => rfl
  | cons c cs ih =>
    by_cases h : sep c = true
    · rw [List.dropWhile_cons_of_pos h, ih, fields_cons h]
    · rw [List.dropWhile_cons_of_neg h]

/-- The first field of a text ends at a separator. -/
theorem fields_of_plain {c : Char} (h : sep c = false) (cs : List Char) :
    fields sep (c :: cs) = (c :: cs.takeWhile (!sep ·)) :: fields sep (cs.dropWhile (!sep ·)) := by
  have plain : ∀ d ∈ c :: cs.takeWhile (!sep ·), sep d = false := by
    rw [List.forall_mem_cons]
    exact ⟨h, fun d mem => by simpa using List.mem_takeWhile_imp mem⟩
  have first := fields_eq_singleton (List.cons_ne_nil _ _) plain
  conv_lhs => rw [← List.takeWhile_append_dropWhile (p := (!sep ·)) (l := cs), ← List.cons_append]
  cases rest : cs.dropWhile (!sep ·) with
  | nil =>
    rw [List.append_nil, first]
    rfl
  | cons s after =>
    have ends : sep s = true := by
      simpa [rest] using List.head?_dropWhile_not (!sep ·) cs
    rw [fields_append_cons ends, first, fields_cons ends, List.singleton_append]

/-- Fields put together are the text without its separators. -/
theorem flatten_fields (sep : Char → Bool) (cs : List Char) :
    (fields sep cs).flatten = cs.filter (!sep ·) := by
  rw [fields, List.flatten_filter_ne_nil]
  induction cs with
  | nil => rfl
  | cons c cs ih =>
    obtain ⟨first, others, split⟩ := List.exists_cons_of_ne_nil (List.splitOnP_ne_nil sep cs)
    rw [split] at ih
    by_cases h : sep c = true
    · simp [List.splitOnP_cons_eq_if_modifyHead, h, split, ih]
    · simp [List.splitOnP_cons_eq_if_modifyHead, h, split, ← ih]

end PocketMips.Text
