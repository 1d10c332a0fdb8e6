import PocketMips.Proofs.History
import PocketMips.Proofs.Labels
import PocketMips.Proofs.Watching

/-!
# Installed programs

A program is given as a source, as integers or as an image. Each of these puts the same words into the
machine, and nothing else is in the machine then.
-/
namespace PocketMips.Simulator

open Assembly

variable {ws : List Int} {start : Int} {labels : Labels}

/-- Integers have been loaded at an address as a program, and nothing has been executed. -/
structure Controller.Fresh (c : Controller) (start : Int) (ws : List Int) : Prop where
  program : c.program = ws.map (BitVec.ofInt 32)
  word : ∀ (i : Nat) v, ws[i]? = some v →
    c.machine.memory.readWord (start + 4 * i) = .ok (v % 0x100000000).toNat
  blank : ∀ i : Nat, i < start ∨ start + 4 * ws.length ≤ i → c.machine.memory.cell i = 0
  zero : ∀ r, c.machine.registers.get r = 0
  pc : c.machine.pc = start
  shown : c.pc = c.label start
  first : c.machine.start = start
  stop : c.machine.stop = start + 4 * ws.length

namespace Controller

variable {c c' : Controller} {program : List Word}

theorem reinstall_start (installed : c.reinstall start program labels = .ok c') :
    c'.machine.pc = start ∧ c'.machine.start = start ∧ c'.shownPc = none ∧ c'.setup = c.setup := by
  obtain ⟨machine, loaded, rfl⟩ := reinstall_eq_ok_iff.mp installed
  obtain ⟨_, _, -, -, rfl⟩ := Machine.load_eq_ok loaded
  exact ⟨rfl, rfl, rfl, rfl⟩

/-- The program counter is shown as the load address is. -/
theorem pc_of_place (placed : c.place program labels = (.ok (), c')) :
    c'.pc = c'.label c'.machine.start := by
  unfold place at placed
  split at placed
  · rename_i given
    split at placed <;> cases placed
    obtain ⟨pc, first, shown, setup⟩ := reinstall_start ‹_›
    simp [Controller.pc, label, setup, given, shown, pc, first]
  · rename_i given
    split at placed <;> cases placed
    obtain ⟨-, first, -, setup⟩ := reinstall_start ‹_›
    simp [Controller.pc, showingPc, refresh, label, LoadAddress.label, setup, given, first]
  · rename_i given
    split at placed
    · split at placed <;> cases placed
      obtain ⟨-, -, -, setup⟩ := reinstall_start ‹_›
      simp [Controller.pc, showingPc, refresh, label, LoadAddress.label, setup, given]
    · split at placed <;> cases placed
  · split at placed
    · cases placed
    · split at placed <;> cases placed

/-- A program that has been put in place is fresh, where all its addresses are addresses of words. -/
theorem Fresh.of_place (placed : c.place (ws.map (BitVec.ofInt 32)) labels = (.ok (), c')) :
    ∃ start, c.setup.loadAddress.Serves start (ws.map (BitVec.ofInt 32)) ∧
      (0 ≤ start → start + 4 * ws.length ≤ 0x100000000 → c'.Fresh start ws) := by
  have shown := pc_of_place placed
  obtain ⟨start, after, serves, installed, same⟩ := place_eq_ok placed
  obtain ⟨machine, loaded, rfl⟩ := reinstall_eq_ok_iff.mp installed
  rw [Image.ofWords_residues] at loaded
  have length := Image.length_ofWords ws
  refine ⟨start, serves, fun nonneg le => ?_⟩
  have word (i : Nat) (v : Int) (found : ws[i]? = some v) :
      machine.memory.readWord (start + 4 * i) = .ok (v % 0x100000000).toNat := by
    rw [Machine.readWord_of_load loaded (by omega) found, BitVec.toNat_ofInt]
    rfl
  have blank (i : Nat) (outside : i < start ∨ start + 4 * ws.length ≤ i) : machine.memory.cell i = 0 :=
    Machine.cell_of_load loaded nonneg (by omega) (by omega)
  obtain ⟨_, memory, -, -, rfl⟩ := Machine.load_eq_ok loaded
  have stop : start + ((Image.ofWords ws).length : Int) = start + 4 * ws.length := by omega
  rcases same with rfl | ⟨v, rfl⟩
  · exact ⟨rfl, word, blank, RegisterFile.get_cleared, rfl, shown, rfl, stop⟩
  · exact ⟨rfl, word, blank, RegisterFile.get_cleared, rfl, shown, rfl, stop⟩

end Controller

namespace Session

variable {s t : Session} {depth turns : Nat}

theorem loadBytes_ofWords (react : Reaction) (ws : List Int) (s : Session) :
    loadBytes react (Image.ofWords ws) s = loadWords react ws s := by
  rw [loadBytes, loadWords, Image.words?_ofWords]

theorem loadBytes_of_length (react : Reaction) {image : List Byte} (length : image.length % 4 ≠ 0)
    (idle : s.controller.status = .idle) :
    loadBytes react image s = some (.error (.imageLength image.length), s) := by
  have free : s.requireIdle "load a program" = .ok () := by
    simp [requireIdle, Controller.isRunning, idle]
  rw [loadBytes, free, Image.words?, if_neg length]

theorem load_of_error (react : Reaction) {source : Source} {e : Failure}
    (failed : s.assemble source = .error e) : ∃ e, load react source s = some (.error e, s) := by
  unfold load
  split
  · exact ⟨_, rfl⟩
  · rw [failed]
    exact ⟨_, rfl⟩

/-- Integers that have been loaded are in place, and the observers have been told so. -/
theorem fresh_of_loadWords {reply : Reply}
    (h : perform (depth + 1) turns (.loadWords ws) s = some (.ok reply, t)) :
    ∃ start c, s.controller.setup.loadAddress.Serves start (ws.map (BitVec.ofInt 32)) ∧
      (0 ≤ start → start + 4 * ws.length ≤ 0x100000000 → c.Fresh start ws) ∧
      notify (perform depth turns) .loaded c.stored ((s.withController c).log .placed) = some t ∧
      (s.Only Call.Watches → t.controller = c) := by
  replace h : loadWords (perform depth turns) ws s = some (.ok reply, t) := h
  unfold loadWords at h
  split at h
  · cases h
  · unfold installNew install at h
    split at h
    · cases h
    · rename_i c placed
      obtain ⟨u, told, same⟩ := Option.map_eq_some_iff.mp h
      cases same
      obtain ⟨start, serves, fresh⟩ := Controller.Fresh.of_place placed
      refine ⟨start, c, serves, fresh, told, fun only => ?_⟩
      have only : ((s.withController c).log .placed).Only Call.Watches := only.congr rfl
      exact (unmoved_of_notify only told).1.controller

/-- **All ways of loading install the same image.** Integers and their image are loaded with the same result
in every session, and so is a source with the words it is assembled to, but for the labels; a source that
cannot be assembled leaves the session as it is. What a load puts into the machine, before the observers are
told of it, is the residues of the integers at the load address and nothing else. Images of whole words and
words go into one another, and an image of another length is refused. -/
theorem load_installs_image (depth turns : Nat) (s : Session) (ws : List Int) :
    perform (depth + 1) turns (.loadBytes (Image.ofWords ws)) s =
        perform (depth + 1) turns (.loadWords ws) s ∧
      (∀ source labels program, s.assemble source = .ok (labels, program) →
        (perform (depth + 1) turns (.load source) s).map (fun (r, t) => (r, t.unlabelled)) =
          (perform (depth + 1) turns (.loadWords (program.map fun w => (w.toNat : Int))) s).map
            fun (r, t) => (r, t.unlabelled)) ∧
      (∀ source e, s.assemble source = .error e →
        ∃ e, perform (depth + 1) turns (.load source) s = some (.error e, s)) ∧
      (∀ reply t, perform (depth + 1) turns (.loadWords ws) s = some (.ok reply, t) →
        ∃ start c, s.controller.setup.loadAddress.Serves start (ws.map (BitVec.ofInt 32)) ∧
          (0 ≤ start → start + 4 * ws.length ≤ 0x100000000 → c.Fresh start ws) ∧
          notify (perform depth turns) .loaded c.stored ((s.withController c).log .placed) = some t ∧
          (s.Only Call.Watches → t.controller = c)) ∧
      Image.words? (Image.ofWords ws) = some (ws.map (BitVec.ofInt 32)) ∧
      ∀ image : List Byte,
        (image.length % 4 = 0 → ∃ program, Image.words? image = some program ∧
          Image.ofWords (program.map fun w => (w.toNat : Int)) = image) ∧
        (image.length % 4 ≠ 0 → Image.words? image = none ∧ (s.controller.status = .idle →
          perform (depth + 1) turns (.loadBytes image) s =
            some (.error (.imageLength image.length), s))) := by
  refine ⟨loadBytes_ofWords _ ws s, ?_, fun source e failed => load_of_error _ failed,
    fun reply t => fresh_of_loadWords, Image.words?_ofWords ws, fun image => ⟨?_, ?_⟩⟩
  · intro source labels program assembled
    exact (agree_words assembled (depth + 1) turns).unlabelled_eq.symm
  · intro whole
    exact ⟨_, if_pos whole, Image.ofWords_words image whole⟩
  · intro length
    exact ⟨if_neg length, loadBytes_of_length _ length⟩

/-- A session that loads at an address behind the start of a small memory. -/
def behind : Session :=
  create (.create (.blank (.fixed 64)) .standard { loadAddress := .whole 8 }) false

/-- A negative word and one that is too large, and a source with a label. -/
theorem residues_installed_behind :
    (∃ reply t, perform 2 0 (.loadWords [-1, 0x100000007]) behind = some (.ok reply, t) ∧
      perform 2 0 (.loadBytes [255, 255, 255, 255, 7, 0, 0, 0]) behind = some (.ok reply, t) ∧
      t.controller.Fresh 8 [-1, 0x100000007]) ∧
    (∃ reply t u, perform 2 0 (.load (.text "here: j here".toList)) behind = some (.ok reply, t) ∧
      perform 2 0 (.loadWords [0x08000002]) behind = some (.ok reply, u) ∧
      t.controller.labels = [("here".toList, 8)] ∧ u.controller.labels = [] ∧
      u.unlabelled = t.unlabelled) ∧
    perform 2 0 (.loadBytes [1, 2, 3]) behind = some (.error (.imageLength 3), behind) := by
  have only : behind.Only Call.Watches := only_create _ _
  have loaded : (succeeds 2 0 (.loadWords [-1, 0x100000007]) behind).isSome = true := by decide +kernel
  have assembled : behind.assemble (.text "here: j here".toList) =
      .ok ([("here".toList, 8)], [0x08000002]) := by rfl
  have installed : (do
      let (_, t) ← succeeds 2 0 (.load (.text "here: j here".toList)) behind
      let (_, u) ← succeeds 2 0 (.loadWords [0x08000002]) behind
      return (t.controller.labels, u.controller.labels)) = some ([("here".toList, 8)], []) := by
    decide +kernel
  obtain ⟨same, -, -, fresh, -, images⟩ := load_installs_image 1 0 behind [-1, 0x100000007]
  refine ⟨?_, ?_, ?_⟩
  · obtain ⟨⟨reply, t⟩, loaded⟩ := Option.isSome_iff_exists.mp loaded
    replace loaded := perform_of_succeeds loaded
    obtain ⟨start, c, serves, fresh, -, placed⟩ := fresh reply t loaded
    cases serves
    have bytes : Image.ofWords [-1, 0x100000007] = [255, 255, 255, 255, 7, 0, 0, 0] := by decide
    rw [bytes] at same
    refine ⟨reply, t, loaded, same.trans loaded, ?_⟩
    rw [placed only]
    exact fresh (by decide) (by decide)
  · obtain ⟨⟨reply, t⟩, source, installed⟩ := Option.bind_eq_some_iff.mp installed
    obtain ⟨⟨reply', u⟩, words, installed⟩ := Option.bind_eq_some_iff.mp installed
    replace source := perform_of_succeeds source
    replace words := perform_of_succeeds words
    have agree := (load_installs_image 1 0 behind []).2.1 _ _ _ assembled
    rw [source] at agree
    change _ = (perform 2 0 (.loadWords [0x08000002]) behind).map _ at agree
    rw [words] at agree
    obtain ⟨replies, states⟩ := Prod.mk.inj (Option.some.inj agree)
    cases replies
    obtain ⟨labelled, bare⟩ := Prod.mk.inj (Option.some.inj installed)
    exact ⟨reply, t, u, source, words, labelled, bare, states.symm⟩
  · exact ((images [1, 2, 3]).2 (by decide)).2 rfl

end Session

end PocketMips.Simulator
