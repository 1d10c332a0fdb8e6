import PocketMips.Proofs.CodeFile
import PocketMips.Proofs.Labels
import PocketMips.Simulator.Batch

/-!
# Machine code runs like its source

A batch run of the words of a source does what a batch run of the source does, but for the labels that only the
source has.
-/
namespace PocketMips.Simulator

open Assembly Number Text

namespace Session

variable {s t : Session} {c d : Call}

/-- Calls that agree are answered alike. -/
theorem answer_of_agree (agree : Agree (perform 1 0 c s) (perform 1 0 d t)) :
    (∃ e, answer c s = .error e ∧ answer d t = .error e) ∨
      ∃ u v, answer c s = .ok u ∧ answer d t = .ok v ∧ u.Twins v := by
  unfold answer
  generalize perform 1 0 c s = x at agree
  generalize perform 1 0 d t = y at agree
  cases agree with
  | none => exact .inl ⟨_, rfl, rfl⟩
  | @some p q related =>
    obtain ⟨r, u⟩ := p
    obtain ⟨_, v⟩ := q
    obtain ⟨rfl, twins⟩ := related
    cases r with
    | error e => exact .inl ⟨e, rfl, rfl⟩
    | ok reply => exact .inr ⟨u, v, rfl, rfl, twins⟩

theorem perform_of_answer (h : answer c s = .ok t) : ∃ reply, perform 1 0 c s = some (.ok reply, t) := by
  unfold answer at h
  split at h
  · rename_i reply _ performed
    cases h
    exact ⟨reply, performed⟩
  · cases h
  · cases h

/-- Words have no labels, and a run leaves it at that. -/
theorem labels_of_answer {ws : List Int} {limit : Int} (only : s.Only Call.Drives)
    (loads : answer (.loadWords ws) s = .ok t) {u : Session}
    (runs : answer (.runToCompletion limit) t = .ok u) : u.controller.labels = [] := by
  obtain ⟨reply, loaded⟩ := perform_of_answer loads
  obtain ⟨reply', run⟩ := perform_of_answer runs
  replace loaded : loadWords (perform 0 0) ws s = some (.ok reply, t) := loaded
  unfold loadWords installNew install at loaded
  split at loaded
  · cases loaded
  · split at loaded
    · cases loaded
    · rename_i after placed
      obtain ⟨t, told, same⟩ := Option.map_eq_some_iff.mp loaded
      cases same
      have told : Does Call.Drives ((s.withController after).log .placed) t :=
        does_of_notify reacts_perform (only.congr rfl) told
      have drives : (Call.runToCompletion limit).Drives := ⟨nofun, id⟩
      have ran := does_of_perform (told.only (only.congr rfl)) (.inl (.of_nil drives rfl)) run
      rw [(Does.trans told ran).labels]
      exact Controller.labels_of_place placed

end Session

namespace Controller

variable {c : Controller} {text : List Char} {labels : Labels} {words : List Word}

/-- **The words of a source run like the source.** -/
theorem batch_words (assembled : c.setup.loadAddress.assemble (.text text) = .ok (labels, words))
    (limit : Int) :
    c.batch (Program.ofWords words) limit = (c.batch (.source text) limit).map unlabelled := by
  have loads := Session.agree_words (s := .create c false) assembled 1 0
  simp only [batch, loading, Program.ofWords]
  rcases Session.answer_of_agree loads with ⟨e, source, machine⟩ | ⟨u, v, source, machine, twins⟩
  · rw [source, machine]
    rfl
  · have runs := Session.indifferent_perform 1 0 (.runToCompletion limit) twins
    rw [source, machine]
    show (Session.answer _ v >>= _) = (Session.answer _ u >>= _).map _
    rcases Session.answer_of_agree runs with ⟨e, first, second⟩ | ⟨u, v, first, second, twins⟩
    · rw [first, second]
      rfl
    · have none := Session.labels_of_answer (Session.only_create c false) machine second
      have same : v.controller.unlabelled = v.controller := by rw [unlabelled, ← none]
      rw [first, second]
      exact congrArg Except.ok (same.symm.trans twins.controller_unlabelled)

/-- **Code files run like their source.** Words that are written to a file of machine code are read from it,
and so are those that are written as text in either style; what cannot be written is a path at which no file
can be. The words of a source then run like the source. -/
theorem batch_code_file {ws : List Int} (range : ∀ w ∈ ws, 0 ≤ w ∧ w < 0x100000000) (f : Files)
    (path : String) :
    (fold (Files.extension path) ∈ [".bin".toList, ".txt".toList, ".hex".toList] →
      match Program.write f path ws with
      | .ok f' => Program.read f' path = .ok (.words ws)
      | .error e => ∀ bytes, f.write path bytes = .error e) ∧
    (∀ style,
      match f.writeText path (CodeText.ofWords style ws) with
      | .ok f' => (Program.readCodeText f' path).map Program.ofWords = .ok (.words ws)
      | .error e => ∀ bytes, f.write path bytes = .error e) ∧
    ∀ (c : Controller) (text : List Char) (labels : Labels) (words : List Word),
      c.setup.loadAddress.assemble (.text text) = .ok (labels, words) →
      Program.ofWords words = .words ws →
      ∀ limit, c.batch (.words ws) limit = (c.batch (.source text) limit).map unlabelled := by
  obtain ⟨coded, rfl⟩ := Program.exists_words range
  refine ⟨fun code => ?_, fun style => ?_, fun c text labels words assembled same limit => ?_⟩
  · split
    · rename_i written
      exact Program.read_of_write (Program.ofPath_ne_assembly code) written
    · rename_i failed
      exact Program.write_error failed
  · split
    · rename_i written
      rw [Program.readCodeText_of_write written]
      rfl
    · rename_i failed
      exact Files.write_error failed
  · rw [← same]
    exact batch_words assembled limit

/-- A loop, its words in a file, and the runs of both. -/
theorem batch_loop_file :
    let ws : List Int := [0x20080000, 0x20090003, 0x21080001, 0x1509FFFE]
    let text := "addi $t0, $zero, 0\naddi $t1, $zero, 3\nloop: addi $t0, $t0, 1\nbne $t0, $t1, loop".toList
    let c := Controller.create (.blank .sparse) .standard {}
    (∃ f, Program.write {} "loop.HEX" ws = .ok f ∧ Program.read f "loop.HEX" = .ok (.words ws)) ∧
      ∃ ended, c.batch (.source text) 100 = .ok ended ∧ ended.labels = [("loop".toList, 8)] ∧
        ended.machine.registers.get 8 = 3 ∧ c.batch (.words ws) 100 = .ok ended.unlabelled := by
  intro ws text c
  have range : ∀ w ∈ ws, 0 ≤ w ∧ w < 0x100000000 := by decide
  obtain ⟨read, -, same⟩ := batch_code_file range {} "loop.HEX"
  constructor
  · have read := read (by decide +kernel)
    have possible : (Program.write {} "loop.HEX" ws).toOption.isSome = true := by decide +kernel
    cases written : Program.write {} "loop.HEX" ws with
    | error e => simp [written, Except.toOption] at possible
    | ok f => exact ⟨f, rfl, by simpa [written] using read⟩
  · have assembled : (c.setup.loadAddress.assemble (.text text)).toOption =
        some ([("loop".toList, 8)], [0x20080000, 0x20090003, 0x21080001, 0x1509FFFE]) := by
      decide +kernel
    have ends : (c.batch (.source text) 100).toOption.map
        (fun ended => (ended.labels, ended.machine.registers.get 8)) = some ([("loop".toList, 8)], 3) := by
      decide +kernel
    cases source : c.setup.loadAddress.assemble (.text text) with
    | error e => simp [source, Except.toOption] at assembled
    | ok assembly =>
      have same := same c text assembly.1 assembly.2 source
      cases run : c.batch (.source text) 100 with
      | error e => simp [run, Except.toOption] at ends
      | ok ended =>
        simp only [source, run, Except.toOption, Option.some.injEq] at assembled ends
        simp only [Option.map, Option.some.injEq, Prod.mk.injEq] at ends
        refine ⟨ended, rfl, ends.1, ends.2, ?_⟩
        rw [same (by rw [assembled]; decide), run]
        rfl

end Controller

end PocketMips.Simulator
