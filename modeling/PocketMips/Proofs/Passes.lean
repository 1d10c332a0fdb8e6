import PocketMips.Proofs.Encode

/-!
# What the passes of an assembly do

An assembly succeeds if every line is well formed, no label is bound twice and every instruction text has
a word at its address, four behind that of the text before it. A label then stands for the address at
which the next instruction text is placed.
-/
namespace PocketMips.Assembly

open Text

variable {labels : Labels} {index : Nat} {base a l : Int} {line name : List Char}
  {lines : List (List Char)} {ws : List Word}

/-! ## Lines -/

/-- Nothing but a label stands before the first colon of the line. -/
def WellFormed (line : List Char) : Prop := ∃ parts, splitLabel (clean line) = .ok parts

/-- The label in front of a line. -/
def label? (line : List Char) : Option (List Char) :=
  match splitLabel (clean line) with
  | .ok (label, _) => label
  | .error _ => none

/-- The instruction text of a line, empty if there is none. -/
def body (line : List Char) : List Char :=
  match splitLabel (clean line) with
  | .ok (_, rest) => rest
  | .error _ => []

/-- The instruction texts of lines. -/
def texts (lines : List (List Char)) : List (List Char) := (lines.map body).filter (· ≠ [])

/-- The address of what follows a line that is placed at an address. -/
def next (a : Int) (line : List Char) : Int := if body line = [] then a else a + 4

/-- The address at which the line with an index is placed. -/
def lineAddress (base : Int) (lines : List (List Char)) (i : Nat) : Int :=
  base + 4 * (texts (lines.take i)).length

/-- The labels of lines with their addresses. -/
def bound (a : Int) : List (List Char) → Labels
  | [] => []
  | line :: lines =>
    match label? line with
    | some name => (name, a) :: bound (next a line) lines
    | none => bound (next a line) lines

/-- The words of instruction texts placed one behind the other. -/
inductive Encodes (labels : Labels) : Int → List (List Char) → List Word → Prop
  | nil {a : Int} : Encodes labels a [] []
  | cons {a : Int} {text : List Char} {texts : List (List Char)} {w : Word} {ws : List Word} :
    encode labels a text = .ok w → Encodes labels (a + 4) texts ws →
      Encodes labels a (text :: texts) (w :: ws)

theorem splitLabel_of_wellFormed (h : WellFormed line) :
    splitLabel (clean line) = .ok (label? line, body line) := by
  obtain ⟨⟨label, rest⟩, split⟩ := h
  rw [label?, body, split]

theorem malformed_of_error {e : Error} (split : splitLabel (clean line) = .error e) :
    ¬WellFormed line ∧ clean line ≠ [] := by
  constructor
  · rintro ⟨parts, formed⟩
    rw [split] at formed
    cases formed
  · intro empty
    rw [empty] at split
    cases split

theorem wellFormed_of_clean (h : clean line = []) : WellFormed line ∧ label? line = none ∧
    body line = [] := by
  rw [WellFormed, label?, body, h]
  exact ⟨⟨_, rfl⟩, rfl, rfl⟩

theorem texts_cons (line : List Char) (lines : List (List Char)) :
    texts (line :: lines) = if body line = [] then texts lines else body line :: texts lines := by
  rw [texts, List.map_cons]
  by_cases empty : body line = []
  · rw [if_pos empty, List.filter_cons_of_neg (by simp [empty])]
    rfl
  · rw [if_neg empty, List.filter_cons_of_pos (by simp [empty])]
    rfl

theorem texts_append (before after : List (List Char)) :
    texts (before ++ after) = texts before ++ texts after := by
  rw [texts, List.map_append, List.filter_append]
  rfl

/-! ## The second pass -/

theorem encodeFrom_of_error {e : Error} (split : splitLabel (clean line) = .error e) :
    encodeFrom labels index a (line :: lines) = .error (e.locate (placeOf index line)) := by
  simp only [encodeFrom, (malformed_of_error split).2, if_false, split]

theorem encodeFrom_of_empty (formed : WellFormed line) (empty : body line = []) :
    encodeFrom labels index a (line :: lines) = encodeFrom labels (index + 1) a lines := by
  have split := splitLabel_of_wellFormed formed
  rw [encodeFrom]
  by_cases blank : clean line = []
  · simp only [blank, if_true]
  · simp only [blank, if_false, split, empty]

theorem encodeFrom_of_text (formed : WellFormed line) (text : body line ≠ []) :
    encodeFrom labels index a (line :: lines) =
      (encode labels a (body line)).mapError (·.locate (placeOf index line)) >>= fun w =>
        (encodeFrom labels (index + 1) (a + 4) lines).map (w :: ·) := by
  have split := splitLabel_of_wellFormed formed
  have ne : clean line ≠ [] := fun blank => text (wellFormed_of_clean blank).2.2
  obtain ⟨c, cs, chars⟩ := List.exists_cons_of_ne_nil text
  simp only [encodeFrom, ne, if_false, split, chars]
  cases encode labels a (c :: cs) with
  | error e => rfl
  | ok w =>
    show _ = (encodeFrom labels (index + 1) (a + 4) lines).map (w :: ·)
    cases encodeFrom labels (index + 1) (a + 4) lines <;> rfl

/-- The second pass succeeds with the words that the instruction texts have. -/
theorem encodeFrom_eq_ok_iff :
    encodeFrom labels index a lines = .ok ws ↔
      (∀ line ∈ lines, WellFormed line) ∧ Encodes labels a (texts lines) ws := by
  -- A line with an instruction text moves the address on, so the induction is for all addresses.
  induction lines generalizing index a ws with
  | nil =>
    constructor
    · intro h
      cases h
      exact ⟨nofun, .nil⟩
    · rintro ⟨-, encodes⟩
      cases encodes
      rfl
  | cons line lines ih =>
    rw [List.forall_mem_cons, texts_cons]
    cases split : splitLabel (clean line) with
    | error e =>
      rw [encodeFrom_of_error split]
      constructor
      · intro h
        cases h
      · rintro ⟨⟨formed, -⟩, -⟩
        exact absurd formed (malformed_of_error split).1
    | ok parts =>
      have formed : WellFormed line := ⟨parts, split⟩
      by_cases empty : body line = []
      · rw [encodeFrom_of_empty formed empty, if_pos empty, ih]
        exact ⟨fun ⟨others, encodes⟩ => ⟨⟨formed, others⟩, encodes⟩,
          fun ⟨⟨_, others⟩, encodes⟩ => ⟨others, encodes⟩⟩
      · rw [encodeFrom_of_text formed empty, if_neg empty]
        constructor
        · intro h
          obtain ⟨w, made, rest⟩ := bind_eq_ok.mp h
          obtain ⟨ws, made', rfl⟩ := map_eq_ok.mp rest
          obtain ⟨others, encodes⟩ := ih.mp made'
          exact ⟨⟨formed, others⟩, .cons (mapError_eq_ok.mp made) encodes⟩
        · rintro ⟨⟨-, others⟩, encodes⟩
          cases encodes with
          | cons made encodes =>
            exact bind_eq_ok.mpr ⟨_, mapError_eq_ok.mpr made,
              map_eq_ok.mpr ⟨_, ih.mpr ⟨others, encodes⟩, rfl⟩⟩

/-! ## The first pass -/

theorem bindFrom_of_error {e : Error} (split : splitLabel (clean line) = .error e) :
    bindFrom labels index a (line :: lines) = (labels, .error (e.locate (placeOf index line))) := by
  simp only [bindFrom, (malformed_of_error split).2, if_false, split]

theorem bindFrom_of_unlabelled (formed : WellFormed line) (unlabelled : label? line = none) :
    bindFrom labels index a (line :: lines) = bindFrom labels (index + 1) (next a line) lines := by
  have split := splitLabel_of_wellFormed formed
  rw [bindFrom]
  by_cases blank : clean line = []
  · simp only [blank, if_true, next, (wellFormed_of_clean blank).2.2]
  · simp only [blank, if_false, split, unlabelled, next]

theorem bindFrom_of_labelled (formed : WellFormed line) (labelled : label? line = some name) :
    bindFrom labels index a (line :: lines) =
      if (labels.address? name).isSome then
        (labels, .error (.rejected (.duplicateLabel name) (some (placeOf index line))))
      else bindFrom (labels ++ [(name, a)]) (index + 1) (next a line) lines := by
  have split := splitLabel_of_wellFormed formed
  have ne : clean line ≠ [] := by
    intro blank
    rw [(wellFormed_of_clean blank).2.1] at labelled
    cases labelled
  simp only [bindFrom, ne, if_false, split, labelled, next]

theorem isSome_address?_iff : (labels.address? name).isSome = true ↔ name ∈ labels.map (·.1) := by
  rw [Labels.address?, Option.isSome_map, List.find?_isSome, List.mem_map]
  simp only [decide_eq_true_eq]

/-- The first pass succeeds if no label is bound twice, and adds the labels of the lines in their order. -/
theorem bindFrom_eq_ok_iff {labels' : Labels} (nodup : (labels.map (·.1)).Nodup) :
    bindFrom labels index a lines = (labels', .ok ()) ↔
      (∀ line ∈ lines, WellFormed line) ∧ ((labels ++ bound a lines).map (·.1)).Nodup ∧
        labels' = labels ++ bound a lines := by
  -- The labels bound so far are kept on the left; `moved` takes one more over to them.
  induction lines generalizing labels index a with
  | nil =>
    rw [bindFrom, bound, List.append_nil]
    constructor
    · intro h
      cases h
      exact ⟨nofun, nodup, rfl⟩
    · rintro ⟨-, -, rfl⟩
      rfl
  | cons line lines ih =>
    rw [List.forall_mem_cons]
    cases split : splitLabel (clean line) with
    | error e =>
      rw [bindFrom_of_error split]
      constructor
      · intro h
        cases h
      · rintro ⟨⟨formed, -⟩, -⟩
        exact absurd formed (malformed_of_error split).1
    | ok parts =>
      have formed : WellFormed line := ⟨parts, split⟩
      cases label : label? line with
      | none =>
        rw [bindFrom_of_unlabelled formed label, ih nodup, bound, label]
        exact ⟨fun ⟨others, rest⟩ => ⟨⟨formed, others⟩, rest⟩,
          fun ⟨⟨_, others⟩, rest⟩ => ⟨others, rest⟩⟩
      | some name =>
        have moved : labels ++ [(name, a)] ++ bound (next a line) lines =
            labels ++ bound a (line :: lines) := by
          rw [bound, label, List.append_assoc, List.singleton_append]
        rw [bindFrom_of_labelled formed label, ← moved]
        by_cases old : (labels.address? name).isSome = true
        · rw [if_pos old]
          constructor
          · intro h
            cases h
          · rintro ⟨-, fresh, -⟩
            rw [List.map_append] at fresh
            have fresh := (List.nodup_append.mp fresh).1
            rw [List.map_append] at fresh
            have apart := (List.nodup_append.mp fresh).2.2
            exact absurd rfl (apart name (isSome_address?_iff.mp old) name List.mem_cons_self)
        · have fresh : ((labels ++ [(name, a)]).map (·.1)).Nodup := by
            rw [List.map_append]
            refine List.nodup_append.mpr ⟨nodup, List.pairwise_singleton _ _, ?_⟩
            rintro other mem _ (_ | ⟨_, ⟨⟩⟩) rfl
            exact old (isSome_address?_iff.mpr mem)
          rw [if_neg old, ih fresh]
          exact ⟨fun ⟨others, rest⟩ => ⟨⟨formed, others⟩, rest⟩,
            fun ⟨⟨_, others⟩, rest⟩ => ⟨others, rest⟩⟩

/-! ## Both passes -/

/-- An assembly succeeds if the lines are well formed, no label is bound twice, and the instruction texts
have words under the labels of all lines. -/
theorem assembleLines_eq_ok_iff :
    assembleLines base lines = (labels, .ok ws) ↔
      (∀ line ∈ lines, WellFormed line) ∧ ((bound base lines).map (·.1)).Nodup ∧
        labels = bound base lines ∧ Encodes labels base (texts lines) ws := by
  have first : ∀ labels', bindLabels base lines = (labels', .ok ()) ↔ _ := fun _ =>
    bindFrom_eq_ok_iff List.nodup_nil
  rw [assembleLines]
  constructor
  · intro h
    split at h
    · cases h
    · rename_i labels' result
      obtain ⟨rfl, made⟩ := Prod.mk.inj h
      obtain ⟨formed, nodup, rfl⟩ := (first _).mp result
      exact ⟨formed, nodup, rfl, (encodeFrom_eq_ok_iff.mp made).2⟩
  · rintro ⟨formed, nodup, rfl, encodes⟩
    rw [(first _).mpr ⟨formed, nodup, rfl⟩]
    exact congrArg _ (encodeFrom_eq_ok_iff.mpr ⟨formed, encodes⟩)

/-! ## Lines put together -/

theorem texts_cons_place (a : Int) (line : List Char) (lines : List (List Char)) :
    a + 4 * ((texts (line :: lines)).length : Int) = next a line + 4 * (texts lines).length := by
  rw [texts_cons, next]
  split
  · rfl
  · rw [List.length_cons]
    omega

/-- The labels of lines behind others are bound behind the words of these. -/
theorem bound_append (a : Int) (before after : List (List Char)) :
    bound a (before ++ after) = bound a before ++ bound (a + 4 * (texts before).length) after := by
  induction before generalizing a with
  | nil =>
    rw [show (texts []).length = 0 from rfl, Int.natCast_zero, Int.mul_zero, Int.add_zero]
    rfl
  | cons line before ih =>
    rw [List.cons_append, bound, bound, texts_cons_place, ih]
    cases label? line <;> rfl

/-- Texts behind others have their words behind the words of these. -/
theorem encodes_append_iff {before after : List (List Char)} : Encodes labels a (before ++ after) ws ↔
    ∃ ws₁ ws₂, ws = ws₁ ++ ws₂ ∧ Encodes labels a before ws₁ ∧
      Encodes labels (a + 4 * before.length) after ws₂ := by
  induction before generalizing a ws with
  | nil =>
    rw [List.length_nil, Int.natCast_zero, Int.mul_zero, Int.add_zero, List.nil_append]
    constructor
    · exact fun encodes => ⟨[], ws, rfl, .nil, encodes⟩
    · rintro ⟨_, ws₂, rfl, ⟨⟩, encodes⟩
      exact encodes
  | cons text before ih =>
    have place : a + 4 * ((text :: before).length : Int) = a + 4 + 4 * before.length := by
      rw [List.length_cons]
      omega
    rw [place, List.cons_append]
    constructor
    · rintro (_ | ⟨made, encodes⟩)
      obtain ⟨ws₁, ws₂, rfl, first, second⟩ := ih.mp encodes
      exact ⟨_ :: ws₁, ws₂, rfl, .cons made first, second⟩
    · rintro ⟨_, ws₂, rfl, _ | ⟨made, first⟩, second⟩
      exact .cons made (ih.mpr ⟨_, ws₂, rfl, first, second⟩)

/-! ## Addresses -/

theorem lineAddress_zero : lineAddress base lines 0 = base := by
  rw [lineAddress, List.take_zero]
  exact Int.add_zero base

theorem lineAddress_succ (i : Nat) :
    lineAddress base (line :: lines) (i + 1) = lineAddress (next base line) lines i := by
  rw [lineAddress, lineAddress, List.take_succ_cons, texts_cons, next]
  split
  · rfl
  · rw [List.length_cons]
    omega

/-- The line after one is placed behind it. -/
theorem lineAddress_next {i : Nat} (found : lines[i]? = some line) :
    lineAddress base lines (i + 1) = next (lineAddress base lines i) line := by
  rw [lineAddress, lineAddress, List.take_add_one, found, Option.toList_some, texts_append, texts_cons,
    List.length_append, next]
  split
  · rfl
  · rw [List.length_cons, show (texts []).length = 0 from rfl]
    omega

theorem mem_bound_iff :
    (name, l) ∈ bound a lines ↔
      ∃ i line, lines[i]? = some line ∧ label? line = some name ∧ l = lineAddress a lines i := by
  induction lines generalizing a with
  | nil => simp [bound]
  | cons line lines ih =>
    have cons : (name, l) ∈ bound a (line :: lines) ↔
        (label? line = some name ∧ l = a) ∨ (name, l) ∈ bound (next a line) lines := by
      rw [bound]
      cases label? line with
      | none => simp
      | some other => simp [eq_comm]
    rw [cons, ih]
    constructor
    · rintro (⟨label, rfl⟩ | ⟨i, line', found, label, rfl⟩)
      · exact ⟨0, line, rfl, label, lineAddress_zero.symm⟩
      · exact ⟨i + 1, line', found, label, (lineAddress_succ i).symm⟩
    · rintro ⟨i, line', found, label, rfl⟩
      cases i with
      | zero =>
        cases found
        exact Or.inl ⟨label, lineAddress_zero⟩
      | succ i => exact Or.inr ⟨i, line', found, label, lineAddress_succ i⟩

/-- A label that is bound once has the address it is bound to. -/
theorem address?_eq_some_iff (nodup : (labels.map (·.1)).Nodup) :
    labels.address? name = some l ↔ (name, l) ∈ labels := by
  induction labels with
  | nil => simp [Labels.address?]
  | cons p rest ih =>
    obtain ⟨other, v⟩ := p
    obtain ⟨fresh, nodup⟩ := List.nodup_cons.mp nodup
    by_cases same : other = name
    · subst same
      have absent : (other, l) ∉ rest := fun mem => fresh (List.mem_map.mpr ⟨(other, l), mem, rfl⟩)
      simp [Labels.address?, absent, eq_comm]
    · have later : Labels.address? ((other, v) :: rest) name = Labels.address? rest name := by
        rw [Labels.address?, List.find?_cons_of_neg (by simpa using same), Labels.address?]
      rw [later, ih nodup, List.mem_cons, Prod.mk.injEq]
      simp [Ne.symm same]

/-- In an assembled program the labels stand for the addresses of their lines. -/
theorem address?_of_assembleLines (assembled : assembleLines base lines = (labels, .ok ws)) :
    labels.address? name = some l ↔
      ∃ i line, lines[i]? = some line ∧ label? line = some name ∧ l = lineAddress base lines i := by
  obtain ⟨-, nodup, rfl, -⟩ := assembleLines_eq_ok_iff.mp assembled
  rw [address?_eq_some_iff nodup, mem_bound_iff]

/-! ## Words -/

theorem Encodes.length_eq {texts : List (List Char)} (h : Encodes labels a texts ws) :
    ws.length = texts.length := by
  induction h with
  | nil => rfl
  | cons _ _ ih => rw [List.length_cons, List.length_cons, ih]

theorem Encodes.getElem? {texts : List (List Char)} {text : List Char} {k : Nat}
    (h : Encodes labels a texts ws) (found : texts[k]? = some text) :
    ∃ w, ws[k]? = some w ∧ encode labels (a + 4 * k) text = .ok w := by
  induction h generalizing k with
  | nil => cases found
  | cons made _ ih =>
    cases k with
    | zero =>
      cases found
      refine ⟨_, rfl, ?_⟩
      rwa [Int.natCast_zero, Int.mul_zero, Int.add_zero]
    | succ k =>
      obtain ⟨w, found', made'⟩ := ih found
      refine ⟨w, found', ?_⟩
      rwa [Int.natCast_add, Int.natCast_one, Int.mul_add, Int.mul_one, Int.add_comm (4 * _),
        ← Int.add_assoc]

/-- A line with an instruction text has the word at its address. -/
theorem word_of_line (assembled : assembleLines base lines = (labels, .ok ws)) {i : Nat}
    (found : lines[i]? = some line) (text : body line ≠ []) :
    ∃ (k : Nat) (w : Word), ws[k]? = some w ∧ lineAddress base lines i = base + 4 * k ∧
      encode labels (lineAddress base lines i) (body line) = .ok w := by
  obtain ⟨-, -, rfl, encodes⟩ := assembleLines_eq_ok_iff.mp assembled
  obtain ⟨lt, rfl⟩ := List.getElem?_eq_some_iff.mp found
  have split : texts lines = texts (lines.take i) ++ body lines[i] :: texts (lines.drop (i + 1)) := by
    have pieces : lines = lines.take i ++ lines[i] :: lines.drop (i + 1) := by
      rw [← List.drop_eq_getElem_cons lt, List.take_append_drop]
    calc texts lines = texts (lines.take i ++ lines[i] :: lines.drop (i + 1)) := congrArg texts pieces
      _ = _ := by rw [texts_append, texts_cons, if_neg text]
  have found' : (texts lines)[(texts (lines.take i)).length]? = some (body lines[i]) := by
    rw [split, List.getElem?_append_right (Nat.le_refl _), Nat.sub_self]
    rfl
  obtain ⟨w, word, made⟩ := encodes.getElem? found'
  exact ⟨_, w, word, rfl, made⟩

end PocketMips.Assembly
