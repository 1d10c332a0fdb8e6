import PocketMips.Proofs.Cycle
import PocketMips.Proofs.Load
import PocketMips.Simulator.Placement

/-!
# What a controller does

Executing an instruction and putting a program in place, and what the two leave alone.
-/
namespace PocketMips

namespace Statistics

/-- One more instruction is counted, whether or not its time is too large. -/
theorem total_record (s : Statistics) (kind : Kind) (clock : Clock) :
    (s.record kind clock).1.total = s.total + 1 := by
  have counted : (s.count kind clock).total = s.total + 1 := by
    cases kind <;> simp only [total, count] <;> omega
  unfold record retime
  split <;> exact counted

end Statistics

namespace Simulator

/-- The number at which a load address puts a program, if it has room for the program. -/
def LoadAddress.Serves : LoadAddress → Int → List Word → Prop
  | whole a, start, _ => start = a
  | flag b, start, _ => start = ofFlag b
  | float _, start, program => start = 0 ∧ program = []
  | unusable, _, _ => False

namespace Controller

variable {c c' : Controller} {start : Int} {program : List Word} {labels : Assembly.Labels}

/-! ## Executing an instruction -/

/-- Only the machine, the counts and what is shown of them change. -/
theorem executeNext_fields (c : Controller) :
    ∃ machine statistics lastInstruction lastError stored shownPc, c.executeNext.2 =
      { c with machine, statistics, lastInstruction, lastError, stored, shownPc } := by
  unfold executeNext
  split
  · exact ⟨_, _, _, _, _, _, rfl⟩
  · split
    · exact ⟨_, _, _, _, _, _, rfl⟩
    · split <;> exact ⟨_, _, _, _, _, _, rfl⟩

theorem executeNext_frame (c : Controller) :
    c.executeNext.2.status = c.status ∧ c.executeNext.2.setup = c.setup := by
  obtain ⟨machine, statistics, instr, error, stored, shownPc, same⟩ := c.executeNext_fields
  rw [same]
  exact ⟨rfl, rfl⟩

/-- The machine has gone through a cycle that has been counted, or nothing has happened to it. -/
theorem executeNext_cycle (c : Controller) :
    (c.executeNext.2.machine = c.machine ∧ c.executeNext.2.statistics = c.statistics) ∨
      (c.machine.hasFinished = false ∧
        (∃ instr, c.machine.cycle = .ok (instr, c.executeNext.2.machine)) ∧
        c.executeNext.2.statistics.total = c.statistics.total + 1) := by
  unfold executeNext
  split
  · exact .inl ⟨rfl, rfl⟩
  · rename_i going
    split
    · exact .inl ⟨rfl, rfl⟩
    · rename_i instr machine cycled
      have counted := c.statistics.total_record instr.kind c.clock
      refine .inr ⟨eq_false_of_ne_true going, ?_⟩
      split
      all_goals
        rename_i recorded
        rw [recorded] at counted
        exact ⟨⟨instr, cycled⟩, counted⟩

/-! ## Putting a program in place -/

/-- The controller of a freshly loaded machine. -/
def reloaded (c : Controller) (machine : Machine) (program : List Word) (labels : Assembly.Labels) :
    Controller :=
  refresh { c with
    machine, program, labels
    statistics := {}
    lastInstruction := none
    lastError := none
    shownPc := none }

theorem reinstall_eq_ok_iff :
    c.reinstall start program labels = .ok c' ↔
      ∃ machine, c.machine.load (Image.ofWords (program.map fun w => w.toNat)) start = .ok machine ∧
        c' = c.reloaded machine program labels := by
  constructor
  · intro h
    obtain ⟨machine, loaded, same⟩ := bind_eq_ok.mp h
    exact ⟨machine, loaded, (pure_eq_ok.mp same).symm⟩
  · rintro ⟨machine, loaded, rfl⟩
    exact bind_eq_ok.mpr ⟨machine, loaded, rfl⟩

theorem reinstall_eq_ok (h : c.reinstall start program labels = .ok c') :
    c.machine.load (Image.ofWords (program.map fun w => w.toNat)) start = .ok c'.machine ∧
      c'.statistics = {} ∧ c'.status = c.status ∧ c'.setup = c.setup := by
  obtain ⟨machine, loaded, rfl⟩ := reinstall_eq_ok_iff.mp h
  exact ⟨loaded, rfl, rfl, rfl⟩

theorem place_eq_ok (h : c.place program labels = (.ok (), c')) :
    ∃ start placed, c.setup.loadAddress.Serves start program ∧
      c.reinstall start program labels = .ok placed ∧
      (c' = placed ∨ ∃ v, c' = placed.showingPc v) := by
  unfold place at h
  split at h
  · rename_i a given
    split at h
    · cases h
    · rename_i placed installed
      cases h
      exact ⟨a, _, by rw [given]; rfl, installed, .inl rfl⟩
  · rename_i b given
    split at h
    · cases h
    · rename_i placed installed
      cases h
      exact ⟨_, _, by rw [given]; rfl, installed, .inr ⟨_, rfl⟩⟩
  · rename_i x given
    split at h
    · rename_i empty
      split at h
      · cases h
      · rename_i placed installed
        cases h
        exact ⟨0, _, by rw [given]; exact ⟨rfl, empty⟩, by rw [empty]; exact installed, .inr ⟨_, rfl⟩⟩
    · split at h <;> cases h
  · split at h
    · cases h
    · split at h <;> cases h

/-- A failure that changes anything is one at an address without room for instructions. -/
theorem place_eq_error {e : Failure} (h : c.place program labels = (.error e, c')) :
    c' = c ∨ (∀ start program, c.setup.loadAddress.Serves start program → program = []) ∧
      (c' = c.cleared ∨ c' = { c.cleared with lost := true }) := by
  unfold place at h
  split at h
  · split at h <;> cases h
    exact .inl rfl
  · split at h <;> cases h
    exact .inl rfl
  · rename_i x given
    split at h
    · split at h <;> cases h
      exact .inl rfl
    · split at h <;> cases h
      · exact .inl rfl
      · refine .inr ⟨fun start program room => ?_, .inl rfl⟩
        rw [given] at room
        exact room.2
  · rename_i given
    have no : ∀ start program, c.setup.loadAddress.Serves start program → program = [] := by
      intro start program room
      rw [given] at room
      exact room.elim
    split at h
    · cases h
      exact .inr ⟨no, .inr rfl⟩
    · split at h <;> cases h
      · exact .inl rfl
      · exact .inr ⟨no, .inl rfl⟩
      · exact .inr ⟨no, .inl rfl⟩

/-- At an integer a program is in place if it can be loaded there. -/
theorem place_eq_ok_iff (whole : c.setup.loadAddress = .whole start) :
    c.place program labels = (.ok (), c') ↔ c.reinstall start program labels = .ok c' := by
  unfold place
  rw [whole]
  dsimp only
  cases c.reinstall start program labels with
  | error f => exact ⟨nofun, nofun⟩
  | ok placed =>
    constructor
    · intro h
      cases h
      rfl
    · intro h
      cases h
      rfl

/-- A program that cannot be put at an integer leaves everything as it is. -/
theorem eq_of_place_error {e : Failure} (whole : c.setup.loadAddress = .whole start)
    (h : c.place program labels = (.error e, c')) : c' = c := by
  rcases place_eq_error h with same | ⟨none, -⟩
  · exact same
  · cases none start [0] (by rw [whole]; rfl)

theorem idle_of_not_running (h : ¬c.isRunning) : c.status = .idle := by
  cases status : c.status with
  | idle => rfl
  | running => exact absurd (by rw [isRunning, status]; rfl) h

theorem place_status {r : Except Failure Unit} (h : c.place program labels = (r, c')) :
    c'.status = c.status := by
  cases r with
  | ok u =>
    obtain ⟨start, placed, -, installed, rfl | ⟨v, rfl⟩⟩ := place_eq_ok h
    · exact (reinstall_eq_ok installed).2.2.1
    · exact (reinstall_eq_ok installed).2.2.1
  | error e =>
    obtain rfl | ⟨-, rfl | rfl⟩ := place_eq_error h <;> rfl

end Controller

end Simulator

end PocketMips
