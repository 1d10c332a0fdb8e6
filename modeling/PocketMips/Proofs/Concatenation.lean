import PocketMips.Proofs.Target

/-!
# Sources put together

Labels that are added to those of a program leave its words as they are, since no label is spelled like a number.
So two sources without a common label are assembled one behind the other as they are on their own.
-/
namespace PocketMips.Assembly

open Text

variable {labels labels' : Labels} {base address l n : Int} {w : Word} {text token name : List Char}
  {before after texts : List (List Char)} {ws ws' : List Word}

/-! ## More labels -/

/-- The labels are among the others, which capture no number. -/
structure Extends (labels labels' : Labels) : Prop where
  known : ∀ name l, labels.address? name = some l → labels'.address? name = some l
  named : ∀ p ∈ labels', isLabel p.1 = true

theorem Extends.target_eq_ok (h : Extends labels labels') {ofAddress : Int → Int}
    (made : target labels token ofAddress = .ok n) : target labels' token ofAddress = .ok n := by
  cases found : labels.address? token with
  | some l =>
    rw [target_of_label (h.known _ _ found)]
    rwa [target_of_label found] at made
  | none =>
    simp only [target, found] at made
    split at made
    · cases made
    · rename_i number
      have unknown : labels'.address? token = none :=
        Option.eq_none_iff_forall_not_mem.mpr fun l found' => number (isLabel_of_address? h.named found')
      simpa only [target, unknown, if_neg number] using made

/-- More labels leave the word of an instruction text as it is. -/
theorem Extends.encode (h : Extends labels labels') (made : encode labels address text = .ok w) :
    encode labels' address text = .ok w := by
  have mapped {token : List Char} {ofAddress : Int → Int} {word : Int → Word}
      (made : (target labels token ofAddress).map word = .ok w) :
      (target labels' token ofAddress).map word = .ok w := by
    obtain ⟨n, found, done⟩ := map_eq_ok.mp made
    exact map_eq_ok.mpr ⟨n, h.target_eq_ok found, done⟩
  cases depends text with
  | never _ same => rwa [same labels' labels address address]
  | onDistance _ word =>
    rw [word] at made ⊢
    exact bind_ok_mono id mapped made
  | onAddress _ word =>
    rw [word] at made ⊢
    exact mapped made

theorem Extends.encodes (h : Extends labels labels') (encodes : Encodes labels address texts ws) :
    Encodes labels' address texts ws := by
  induction encodes with
  | nil => exact .nil
  | cons made _ ih => exact .cons (h.encode made) ih

/-! ## Labels put together -/

theorem address?_append (labels labels' : Labels) (name : List Char) :
    Labels.address? (labels ++ labels') name = (labels.address? name).or (labels'.address? name) := by
  rw [Labels.address?, List.find?_append, Option.map_or, Labels.address?, Labels.address?]

/-- The labels of one of two sources are among those of both. -/
theorem extends_append (apart : ∀ name ∈ labels.map (·.1), name ∉ labels'.map (·.1))
    (named : ∀ p ∈ labels, isLabel p.1 = true) (named' : ∀ p ∈ labels', isLabel p.1 = true) :
    Extends labels (labels ++ labels') ∧ Extends labels' (labels ++ labels') := by
  have both : ∀ p ∈ labels ++ labels', isLabel p.1 = true := List.forall_mem_append.mpr ⟨named, named'⟩
  refine ⟨⟨fun name l found => ?_, both⟩, fun name l found => ?_, both⟩
  · rw [address?_append, found, Option.some_or]
  · have old : name ∈ labels'.map (·.1) := isSome_address?_iff.mp (Option.isSome_of_eq_some found)
    have new : labels.address? name = none := by
      rw [← Option.not_isSome_iff_eq_none, isSome_address?_iff]
      exact fun mem => apart name mem old
    rw [address?_append, new, Option.none_or, found]

/-- **Assembly is compositional.** If lines are assembled at a base to some words, and others right behind these
words, and no label is bound by both, the lines together are assembled at the base to the words of the first
followed by those of the others. The labels are those of the first and those of the others, each with the
address it has there. -/
theorem assemble_append (first : assemble base (.lines before) = (labels, .ok ws))
    (second : assemble (base + 4 * ws.length) (.lines after) = (labels', .ok ws'))
    (apart : ∀ name ∈ labels.map (·.1), name ∉ labels'.map (·.1)) :
    assemble base (.lines (before ++ after)) = (labels ++ labels', .ok (ws ++ ws')) ∧
      ∀ name l, Labels.address? (labels ++ labels') name = some l ↔
        labels.address? name = some l ∨ labels'.address? name = some l := by
  change assembleLines base before = _ at first
  change assembleLines (base + 4 * ws.length) after = _ at second
  obtain ⟨formed, nodup, rfl, encodes⟩ := assembleLines_eq_ok_iff.mp first
  obtain ⟨formed', nodup', rfl, encodes'⟩ := assembleLines_eq_ok_iff.mp second
  obtain ⟨grown, grown'⟩ := extends_append apart (fun _ => isLabel_of_mem_bound) fun _ => isLabel_of_mem_bound
  have joined : bound base (before ++ after) = bound base before ++ bound (base + 4 * ws.length) after := by
    rw [bound_append, encodes.length_eq]
  have distinct : ((bound base before ++ bound (base + 4 * ws.length) after).map (·.1)).Nodup := by
    rw [List.map_append]
    refine List.nodup_append.mpr ⟨nodup, nodup', fun name mem name' mem' same => ?_⟩
    exact apart name mem (same ▸ mem')
  constructor
  · show assembleLines base (before ++ after) = _
    refine assembleLines_eq_ok_iff.mpr ⟨List.forall_mem_append.mpr ⟨formed, formed'⟩, ?_, joined.symm, ?_⟩
    · rwa [joined]
    · rw [texts_append]
      refine encodes_append_iff.mpr ⟨ws, ws', rfl, grown.encodes encodes, ?_⟩
      rw [← encodes.length_eq]
      exact grown'.encodes encodes'
  · intro name l
    rw [address?_eq_some_iff distinct, address?_eq_some_iff nodup, address?_eq_some_iff nodup', List.mem_append]

/-- A loop that ends in a jump back to a label before it, and a number of words to skip. -/
def counting : List (List Char) :=
  ["start: addi $t0, $zero, 3".toList, "loop: addi $t0, $t0, -1".toList, "bne $t0, $zero, loop".toList,
    "j 16".toList]

/-- A call of a label behind it. -/
def calling : List (List Char) := ["jal done".toList, "beq $t0, $t0, done".toList, "done:".toList]

theorem counting_calling : ∃ labels labels' ws ws',
    assemble (-8) (.lines counting) = (labels, .ok ws) ∧ ws.length = 4 ∧
      assemble (-8 + 4 * ws.length) (.lines calling) = (labels', .ok ws') ∧
      (∀ name ∈ labels.map (·.1), name ∉ labels'.map (·.1)) ∧
      assemble (-8) (.lines (counting ++ calling)) = (labels ++ labels', .ok (ws ++ ws')) ∧
      Labels.address? (labels ++ labels') "done".toList = some 16 := by
  have first : assemble (-8) (.lines counting) = ([("start".toList, -8), ("loop".toList, -4)],
      .ok [0x20080003, 0x2108FFFF, 0x1500FFFE, 0x08000010]) := by
    decide +kernel
  have second : assemble (-8 + 4 * ([0x20080003, 0x2108FFFF, 0x1500FFFE, 0x08000010] : List Word).length)
      (.lines calling) = ([("done".toList, 16)], .ok [0x0C000004, 0x11080000]) := by
    decide +kernel
  have apart : ∀ name ∈ [("start".toList, (-8 : Int)), ("loop".toList, -4)].map (·.1),
      name ∉ [("done".toList, (16 : Int))].map (·.1) := by
    decide
  obtain ⟨joined, union⟩ := assemble_append first second apart
  exact ⟨_, _, _, _, first, rfl, second, apart, joined, (union _ _).mpr (.inr (by decide))⟩

end PocketMips.Assembly
