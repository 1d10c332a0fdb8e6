import PocketMips.Proofs.Worker

/-!
# The worker executes during a run

The status of the controller, the request to stop, the current job and the jobs themselves change one after the
other, and observers are called in between. If observers start no runs, and pause none while the caller is about
to start one, then the latest job has the run to itself: it executes while the controller is running, and those
before it have at most to tell that they have stopped.
-/
namespace PocketMips.Simulator

/-- Ends a job. -/
def Op.Fulfils : Op → Prop
  | fulfil _ _ => True
  | _ => False

namespace Outline

/-! ## Jobs -/

section Jobs

variable (o : Outline)

/-- A job that has been given to the worker and has not ended. -/
def Unfinished (j : Nat) : Prop :=
  ∃ job, o.jobs[j]? = some job ∧ ∀ failure, job ≠ .ended failure

/-- The worker has gone idle at the end of a job, and has at most to tell so. -/
def Spent (j : Nat) : Prop := ∃ failure, .fulfil j failure ∈ o.worker.getLast?

/-- A job that has instructions to execute, or has to go idle. -/
def Live (j : Nat) : Prop := o.Unfinished j ∧ ¬o.Spent j

/-- A call of the caller is about to start a run. -/
def Starting : Prop := ∃ op ∈ o.caller, op.role = .start

/-- What an operation of the caller relies on. -/
def Admits : Op → Prop
  | .pace _ | .begin _ => o.status = .idle
  | .submit _ => o.status = .running ∧ ∀ j, ¬o.Live j
  | .keep j => j + 1 = o.jobs.length
  | .await j _ => j < o.jobs.length ∧ ∀ i, o.Unfinished i → i ≤ j
  | .release _ | .rest _ => ∀ j, ¬o.Unfinished j
  | _ => True

/-- What an operation of the worker relies on; a pause that an observer of the worker makes never ends there. -/
def Bears : Op → Prop
  | .await j _ => o.Unfinished j
  | .release _ | .rest _ => False
  | _ => True

end Jobs

/-- How the threads stand to each other while observers start no runs and do not pause the start of one. -/
structure Sound (o : Outline) : Prop where
  -- the caller starts runs by its own calls, and the worker does nothing but work on its job and tell observers
  outermost : o.caller.Pairwise fun inner _ => inner.role ≠ .start
  calling : ∀ op ∈ o.caller, (∀ j, op.role ≠ .job j) ∧ o.Admits op
  -- a run whose job is not the current one yet is not paused
  undisturbed : o.Starting → ∀ op ∈ o.caller, op.role ≠ .pause
  nested : o.worker.Pairwise fun inner _ => inner.role = .pause ∨ inner.role = .other
  duty : ∀ op ∈ o.worker.getLast?, ∃ j, op.role = .job j ∧ o.jobs[j]? = some .working
  held : ∀ op ∈ o.worker, op.role = .pause → (∃ k, o.current = some k ∧ o.Unfinished k) ∧ o.Bears op
  -- the jobs are worked on in their order, and only the last one may have to do with the run
  order : ∀ i j job, i < j → o.Unfinished i → o.jobs[j]? = some job →
    ∃ overlong, job = .pending overlong
  live : ∀ j, o.Live j → j + 1 = o.jobs.length ∧ o.status = .running
  -- who waits for the current job waits for all
  current : ∀ i, o.Unfinished i → (∃ k, o.current = some k ∧ i ≤ k) ∨ .keep i ∈ o.caller
  bounded : ∀ k, o.current = some k → k < o.jobs.length

namespace Sound

variable {o : Outline} {op op' : Op} {ops caller worker : List Op} {i j k : Nat}

/-! ## The caller's operations -/

theorem withCaller (h : o.Sound) (outermost : caller.Pairwise fun inner _ => inner.role ≠ .start)
    (calling : ∀ op ∈ caller, (∀ j, op.role ≠ .job j) ∧ o.Admits op)
    (undisturbed : (∃ op ∈ caller, op.role = .start) → ∀ op ∈ caller, op.role ≠ .pause)
    (keeps : ∀ i, .keep i ∈ o.caller → .keep i ∈ caller) : { o with caller }.Sound :=
  { h with
    outermost, calling, undisturbed
    current := fun i going => (h.current i going).imp_right (keeps i) }

/-- The start of a run is all that the caller is at when it goes on with it. -/
theorem alone (h : Sound { o with caller := op :: ops }) (start : op.role = .start) : ops = [] := by
  cases ops with
  | nil => rfl
  | cons outer ops => exact absurd start ((List.pairwise_cons.mp h.outermost).1 outer (.head _))

theorem not_starting_of_pause (h : o.Sound) (mem : op ∈ o.caller) (pause : op.role = .pause) : ¬o.Starting :=
  fun starting => h.undisturbed starting op mem pause

theorem pop_caller (h : Sound { o with caller := op :: ops }) (gone : ∀ j, op ≠ .keep j) :
    Sound { o with caller := ops } := by
  obtain ⟨-, outside⟩ := List.pairwise_cons.mp h.outermost
  refine h.withCaller outside (fun op' mem => h.calling op' (.tail _ mem)) ?_ fun i mem => ?_
  · rintro ⟨op', mem, start⟩ op'' mem'
    exact h.undisturbed ⟨op', .tail _ mem, start⟩ op'' (.tail _ mem')
  · rcases List.mem_cons.mp mem with same | mem
    · exact absurd same.symm (gone i)
    · exact mem

theorem push_caller (h : o.Sound) (admits : o.Admits op)
    (role : op.role = .other ∨ op.role = .pause ∧ ¬o.Starting) :
    Sound { o with caller := op :: o.caller } := by
  have fits : op.role ≠ .start ∧ ∀ j, op.role ≠ .job j := by
    rcases role with role | ⟨role, -⟩ <;> rw [role] <;> exact ⟨nofun, nofun⟩
  refine h.withCaller (.cons (fun _ _ => fits.1) h.outermost)
    (List.forall_mem_cons.mpr ⟨⟨fits.2, admits⟩, h.calling⟩) ?_ fun i mem => .tail _ mem
  rintro ⟨op', mem, start⟩
  rcases List.mem_cons.mp mem with rfl | mem
  · exact absurd start fits.1
  · refine List.forall_mem_cons.mpr ⟨fun pause => ?_, h.undisturbed ⟨op', mem, start⟩⟩
    rcases role with other | ⟨-, none⟩
    · rw [pause] at other
      cases other
    · exact none ⟨op', mem, start⟩

/-- The caller's innermost operation makes place for another one, if for any, that starts nothing. -/
theorem replace_caller (h : Sound { o with caller := op :: ops }) (next : Option Op)
    (gone : ∀ j, op ≠ .keep j)
    (fits : ∀ op' ∈ next, o.Admits op' ∧
      (op'.role = .other ∨ op'.role = .pause ∧ op.role = .pause)) :
    Sound { o with caller := next.toList ++ ops } := by
  have popped := h.pop_caller gone
  cases next with
  | none => exact popped
  | some op' =>
    obtain ⟨admits, role⟩ := fits op' rfl
    refine popped.push_caller admits (role.imp_right fun ⟨role, pause⟩ => ⟨role, ?_⟩)
    rintro ⟨op'', mem, start⟩
    exact h.undisturbed ⟨op'', .tail _ mem, start⟩ op (.head _) pause

/-- The caller comes to the next part of the start of a run, or leaves it. -/
theorem replace_start (h : Sound { o with caller := [op] }) (next : Option Op) (gone : ∀ j, op ≠ .keep j)
    (fits : ∀ op' ∈ next, o.Admits op' ∧ op'.role = .start) : Sound { o with caller := next.toList } := by
  cases next with
  | none => exact h.pop_caller gone
  | some op' =>
    obtain ⟨admits, role⟩ := fits op' rfl
    refine h.withCaller (List.pairwise_singleton _ _) ?_ (fun _ => ?_) fun i mem => ?_
    · exact List.forall_mem_singleton.mpr ⟨fun j => by rw [role]; nofun, admits⟩
    · exact List.forall_mem_singleton.mpr (by rw [role]; nofun)
    · exact absurd (List.mem_singleton.mp mem).symm (gone i)

/-! ## The worker's operations -/

/-- Only the worker's operations have changed, and no job has come to its end or gone on from it. -/
theorem withWorker (h : o.Sound) (spent : ∀ j, Spent { o with worker } j ↔ o.Spent j)
    (nested : worker.Pairwise fun inner _ => inner.role = .pause ∨ inner.role = .other)
    (duty : ∀ op ∈ worker.getLast?, ∃ j, op.role = .job j ∧ o.jobs[j]? = some .working)
    (held : ∀ op ∈ worker, op.role = .pause →
      (∃ k, o.current = some k ∧ o.Unfinished k) ∧ o.Bears op) :
    Sound { o with worker } := by
  have live (j : Nat) : Live { o with worker } j ↔ o.Live j := and_congr_right fun _ => not_congr (spent j)
  refine { h with
    nested, duty, held
    calling := fun op mem => ⟨(h.calling op mem).1, ?_⟩
    live := fun j alive => h.live j ((live j).mp alive) }
  have admits := (h.calling op mem).2
  cases op with
  | submit => exact ⟨admits.1, fun j alive => admits.2 j ((live j).mp alive)⟩
  | _ => exact admits

theorem pop_worker {outer : Op} (h : Sound { o with worker := op :: outer :: ops }) :
    Sound { o with worker := outer :: ops } :=
  h.withWorker (fun _ => .rfl) (List.pairwise_cons.mp h.nested).2 h.duty
    fun op' mem => h.held op' (.tail _ mem)

theorem push_worker {outer : Op} (h : Sound { o with worker := outer :: ops })
    (role : op.role = .other ∨
      op.role = .pause ∧ (∃ k, o.current = some k ∧ o.Unfinished k) ∧ o.Bears op) :
    Sound { o with worker := op :: outer :: ops } := by
  refine h.withWorker (fun _ => .rfl) (.cons (fun _ _ => ?_) h.nested) h.duty
    (List.forall_mem_cons.mpr ⟨fun pause => ?_, h.held⟩)
  · exact role.symm.imp_left And.left
  · rcases role with other | ⟨-, held⟩
    · rw [pause] at other
      cases other
    · exact held

/-- The innermost operation of the worker makes place for another one, if for any, in a call of an observer. -/
theorem replace_worker {outer : Op} {next : Option Op}
    (h : Sound { o with worker := op :: outer :: ops })
    (fits : ∀ op' ∈ next, op'.role = .other ∨
      op'.role = .pause ∧ (∃ k, o.current = some k ∧ o.Unfinished k) ∧ o.Bears op') :
    Sound { o with worker := next.toList ++ outer :: ops } := by
  cases next with
  | none => exact h.pop_worker
  | some op' => exact h.pop_worker.push_worker (fits op' rfl)

theorem inside (h : Sound { o with worker := op :: ops }) (call : ∀ j, op.role ≠ .job j) : ops ≠ [] := by
  rintro rfl
  obtain ⟨j, role, -⟩ := h.duty op rfl
  exact call j role

theorem worker_ne_start (h : Sound { o with worker := op :: ops }) : op.role ≠ .start := by
  intro start
  cases ops with
  | nil =>
    obtain ⟨j, role, -⟩ := h.duty op rfl
    rw [start] at role
    cases role
  | cons outer ops =>
    rcases (List.pairwise_cons.mp h.nested).1 outer (.head _) with role | role <;>
      rw [start] at role <;> cases role

/-- The worker goes on with a turn. -/
theorem replace_duty (h : Sound { o with worker := [op] }) (role : op'.role = op.role)
    (going : ¬op.Fulfils) (going' : ¬op'.Fulfils) : Sound { o with worker := [op'] } := by
  obtain ⟨j, is, working⟩ := h.duty op rfl
  refine h.withWorker (fun j => ?_) (List.pairwise_singleton _ _) ?_ ?_
  · constructor
    · rintro ⟨failure, ⟨⟩⟩
      exact absurd trivial going'
    · rintro ⟨failure, ⟨⟩⟩
      exact absurd trivial going
  · rintro _ ⟨⟩
    exact ⟨j, role.trans is, working⟩
  · refine List.forall_mem_singleton.mpr fun pause => ?_
    rw [role, is] at pause
    cases pause

/-! ## The turns of the jobs -/

/-- Only the job of the worker has changed, and it has not come to life by that. -/
theorem withJobs {jobs : List Job} (h : o.Sound) (length : jobs.length = o.jobs.length)
    (unfinished : ∀ i, Unfinished { o with jobs, worker } i → o.Unfinished i)
    (live : ∀ i, Live { o with jobs, worker } i → o.Live i)
    (turn : ∀ op ∈ worker, worker = [op] ∧ ∃ j, op.role = .job j ∧ jobs[j]? = some .working)
    (order : ∀ i j job, i < j → o.Unfinished i → jobs[j]? = some job →
      ∃ overlong, job = .pending overlong) : Sound { o with jobs, worker } where
  outermost := h.outermost
  calling op mem := by
    obtain ⟨role, admits⟩ := h.calling op mem
    refine ⟨role, ?_⟩
    cases op with
    | submit => exact ⟨admits.1, fun j alive => admits.2 j (live j alive)⟩
    | keep => exact admits.trans length.symm
    | await => exact ⟨length ▸ admits.1, fun i going => admits.2 i (unfinished i going)⟩
    | release | rest => exact fun j going => admits j (unfinished j going)
    | _ => exact admits
  undisturbed := h.undisturbed
  nested := by
    cases worker with
    | nil => exact .nil
    | cons op ops =>
      rw [(turn op (.head _)).1]
      exact List.pairwise_singleton _ _
  duty op mem := (turn op (List.mem_of_getLast? mem)).2
  held op mem pause := by
    obtain ⟨-, j, role, -⟩ := turn op mem
    rw [pause] at role
    cases role
  order i j job less going := order i j job less (unfinished i going)
  live j alive := (h.live j (live j alive)).imp_left fun last => last.trans length.symm
  current i going := h.current i (unfinished i going)
  bounded k is := length ▸ h.bounded k is

theorem unfinished_of_set {job : Job} (before : o.Unfinished j)
    (h : Unfinished { o with jobs := o.jobs.set j job, worker } i) : o.Unfinished i := by
  obtain ⟨job', is, going⟩ := h
  rcases Session.getElem?_set_eq_some is with ⟨rfl, -⟩ | ⟨-, is⟩
  · exact before
  · exact ⟨job', is, going⟩

/-- The worker takes up the first job that has not ended. -/
theorem take {overlong : Bool} (h : Sound { o with worker := [] })
    (waiting : o.jobs[j]? = some (.pending overlong)) (first : (o.jobs.take j).all Job.hasEnded) :
    Sound { o with jobs := o.jobs.set j .working, worker := [.turn j overlong] } := by
  have before : o.Unfinished j := ⟨_, waiting, nofun⟩
  have inside : j < o.jobs.length := (List.getElem?_eq_some_iff.mp waiting).1
  have none (i : Nat) (less : i < j) : ¬o.Unfinished i := by
    rintro ⟨job, is, going⟩
    have ended := List.all_eq_true.mp first job
      (List.mem_of_getElem? ((List.getElem?_take_of_lt less).trans is))
    cases job with
    | ended failure => exact going failure rfl
    | pending | working => cases ended
  refine h.withJobs (List.length_set ..) (fun i => unfinished_of_set before)
    (fun i ⟨going, _⟩ => ⟨unfinished_of_set before going, fun ⟨_, is⟩ => by cases is⟩)
    (fun op mem => ?_) fun i k job less going is => ?_
  · cases List.mem_singleton.mp mem
    exact ⟨rfl, j, rfl, List.getElem?_set_self inside⟩
  · rcases Session.getElem?_set_eq_some is with ⟨rfl, -⟩ | ⟨-, is⟩
    · exact absurd going (none i less)
    · exact h.order i k job less going is

/-- The worker's own job is the first that has not ended. -/
theorem first (h : Sound { o with worker := [op] }) (role : op.role = .job j) :
    o.jobs[j]? = some .working ∧ ∀ i < j, ¬o.Unfinished i := by
  obtain ⟨j', role', working⟩ := h.duty op rfl
  rw [role] at role'
  cases role'
  refine ⟨working, fun i less going => ?_⟩
  obtain ⟨_, same⟩ := h.order i j .working less going working
  cases same

/-- The worker's job has had its turn. -/
theorem leave {job : Job} (h : Sound { o with worker := [op] }) (role : op.role = .job j)
    (live : ∀ i, o.Unfinished i → (∀ failure, i = j → job ≠ .ended failure) →
      Live { o with worker := [op] } i) : Sound { o with jobs := o.jobs.set j job, worker := [] } := by
  obtain ⟨working, none⟩ := h.first role
  have before : o.Unfinished j := ⟨_, working, nofun⟩
  refine h.withJobs (List.length_set ..) (fun i => unfinished_of_set before)
    (fun i ⟨going, _⟩ => live i (unfinished_of_set before going) ?_) nofun
    fun i k job less going is => ?_
  · obtain ⟨job', is, going⟩ := going
    rintro failure rfl rfl
    rcases Session.getElem?_set_eq_some is with ⟨-, rfl⟩ | ⟨other, -⟩
    · exact going failure rfl
    · exact other rfl
  · rcases Session.getElem?_set_eq_some is with ⟨rfl, -⟩ | ⟨-, is⟩
    · exact absurd going (none i less)
    · exact h.order i k job less going is

theorem linger {overlong : Bool} (h : Sound { o with worker := [.linger j overlong] }) :
    Sound { o with jobs := o.jobs.set j (.pending overlong), worker := [] } :=
  h.leave rfl fun _ going _ => ⟨going, by rintro ⟨_, ⟨⟩⟩⟩

theorem fulfil {failure : Option Failure} (h : Sound { o with worker := [.fulfil j failure] }) :
    Sound { o with jobs := o.jobs.set j (.ended failure), worker := [] } := by
  refine h.leave rfl fun i going other => ⟨going, ?_⟩
  rintro ⟨_, ⟨⟩⟩
  exact other failure rfl rfl

/-- The controller goes idle at the end of the worker's job. -/
theorem retire {failure failure' : Option Failure} (h : Sound { o with worker := [.retire j failure] }) :
    Sound { o with status := .idle, worker := [.fulfil j failure'] } := by
  obtain ⟨working, -⟩ := h.first rfl
  have alive : Live { o with worker := [.retire j failure] } j :=
    ⟨⟨_, working, nofun⟩, by rintro ⟨_, ⟨⟩⟩⟩
  obtain ⟨last, running⟩ := h.live j alive
  -- a job that were alive besides would be the last one, too
  have none (i : Nat) : ¬Live { o with status := .idle, worker := [.fulfil j failure'] } i := by
    rintro ⟨going, unspent⟩
    have last' := (h.live i ⟨going, by rintro ⟨_, ⟨⟩⟩⟩).1
    have same : i = j := by omega
    exact unspent ⟨failure', same ▸ rfl⟩
  exact {
    outermost := h.outermost
    undisturbed := h.undisturbed
    nested := List.pairwise_singleton _ _
    duty := by
      rintro _ ⟨⟩
      exact ⟨j, rfl, working⟩
    held := List.forall_mem_singleton.mpr nofun
    order := h.order
    live := fun i alive => absurd alive (none i)
    current := h.current
    bounded := h.bounded
    calling := fun op mem => by
      obtain ⟨role, admits⟩ := h.calling op mem
      refine ⟨role, ?_⟩
      cases op with
      | pace | begin => rfl
      | submit => exact absurd alive (admits.2 j)
      | _ => exact admits }

/-! ## The start of a run -/

theorem not_live (h : o.Sound) (idle : o.status = .idle) (j : Nat) : ¬o.Live j := by
  intro alive
  have running := (h.live j alive).2
  rw [idle] at running
  cases running

/-- The controller is running before there is a job. -/
theorem begin {overlong : Bool} (h : Sound { o with caller := [.begin overlong] }) (next : Option Op)
    (fits : ∀ op ∈ next, op = .submit overlong) :
    Sound { o with status := .running, caller := next.toList } := by
  have idle : o.status = .idle := (h.calling _ (.head _)).2
  have none : ∀ j, ¬o.Live j := h.not_live idle
  have fits (op : Op) (mem : op ∈ next.toList) : op = .submit overlong := fits op (Option.mem_toList.mp mem)
  exact {
    outermost := by
      cases next with
      | none => exact .nil
      | some op => exact List.pairwise_singleton _ _
    undisturbed := fun _ op mem => by
      rw [fits op mem]
      nofun
    calling := fun op mem => by
      rw [fits op mem]
      exact ⟨nofun, rfl, none⟩
    nested := h.nested
    duty := h.duty
    held := h.held
    order := h.order
    live := fun j alive => absurd alive (none j)
    current := fun i going => (h.current i going).imp_right fun mem => by
      cases List.mem_singleton.mp mem
    bounded := h.bounded }

/-- The job of a run is handed over. -/
theorem submit {overlong : Bool} (h : Sound { o with caller := [.submit overlong] }) :
    Sound { o with jobs := o.jobs ++ [.pending overlong], caller := [.keep o.jobs.length] } := by
  obtain ⟨running, none⟩ : o.status = .running ∧ ∀ j, ¬o.Live j := (h.calling _ (.head _)).2
  have length : (o.jobs ++ [Job.pending overlong]).length = o.jobs.length + 1 := List.length_append
  have still {i : Nat} {job : Job} (is : o.jobs[i]? = some job) :
      (o.jobs ++ [.pending overlong])[i]? = some job :=
    (List.getElem?_append_left (List.getElem?_eq_some_iff.mp is).1).trans is
  have unfinished (i : Nat)
      (going : Unfinished { o with jobs := o.jobs ++ [.pending overlong], caller := [.keep o.jobs.length] } i) :
      o.Unfinished i ∨ i = o.jobs.length := by
    obtain ⟨job, is, going⟩ := going
    rcases Session.getElem?_concat_eq_some is with ⟨-, is⟩ | ⟨last, -⟩
    · exact .inl ⟨job, is, going⟩
    · exact .inr last
  exact {
    outermost := List.pairwise_singleton _ _
    undisturbed := fun _ => List.forall_mem_singleton.mpr nofun
    calling := List.forall_mem_singleton.mpr ⟨nofun, length.symm⟩
    nested := h.nested
    duty := fun op mem => by
      obtain ⟨j, role, working⟩ := h.duty op mem
      exact ⟨j, role, still working⟩
    held := fun op mem pause => by
      obtain ⟨⟨k, is, job, found, going⟩, bears⟩ := h.held op mem pause
      refine ⟨⟨k, is, job, still found, going⟩, ?_⟩
      cases op with
      | await j =>
        obtain ⟨job, found, going⟩ := bears
        exact ⟨job, still found, going⟩
      | _ => exact bears
    order := fun i j job less going is => by
      rcases Session.getElem?_concat_eq_some is with ⟨inside, is⟩ | ⟨-, rfl⟩
      · refine h.order i j job less ((unfinished i going).resolve_right ?_) is
        omega
      · exact ⟨overlong, rfl⟩
    live := fun j ⟨going, unspent⟩ => by
      rcases unfinished j going with before | rfl
      · exact absurd ⟨before, unspent⟩ (none j)
      · exact ⟨length.symm, running⟩
    current := fun i going => by
      rcases unfinished i going with before | rfl
      · refine (h.current i before).imp_right fun mem => ?_
        cases List.mem_singleton.mp mem
      · exact .inr (.head _)
    bounded := fun k is => by
      have inside : k < o.jobs.length := h.bounded k is
      show k < (o.jobs ++ [Job.pending overlong]).length
      omega }

theorem keep (h : Sound { o with caller := [.keep j] }) :
    Sound { o with current := some j, caller := [] } := by
  have last : j + 1 = o.jobs.length := (h.calling _ (.head _)).2
  have inside (i : Nat) (going : o.Unfinished i) : i ≤ j := by
    obtain ⟨job, is, -⟩ := going
    have := (List.getElem?_eq_some_iff.mp is).1
    omega
  exact {
    outermost := .nil
    undisturbed := nofun
    calling := nofun
    nested := h.nested
    duty := h.duty
    held := fun op mem pause => by
      obtain ⟨⟨k, -, going⟩, bears⟩ := h.held op mem pause
      refine ⟨⟨j, rfl, ?_⟩, bears⟩
      rcases Nat.lt_or_eq_of_le (inside k going) with less | rfl
      · obtain ⟨job, is⟩ : ∃ job, o.jobs[j]? = some job := ⟨_, List.getElem?_eq_getElem (by omega)⟩
        obtain ⟨overlong, rfl⟩ := h.order k j job less going is
        exact ⟨_, is, nofun⟩
      · exact going
    order := h.order
    live := h.live
    current := fun i going => .inl ⟨j, rfl, inside i going⟩
    bounded := by
      rintro _ ⟨⟩
      show j < o.jobs.length
      omega }

/-! ## Pauses -/

/-- A pause of the caller finds an unfinished job only at or before the current one. -/
theorem current_of_pause (h : o.Sound) (mem : op ∈ o.caller) (pause : op.role = .pause)
    (going : o.Unfinished i) : ∃ k, o.current = some k ∧ i ≤ k := by
  refine (h.current i going).resolve_right fun keep => ?_
  exact h.not_starting_of_pause mem pause ⟨_, keep, rfl⟩

/-- When a job has ended, those before it have. -/
theorem not_unfinished_of_ended {failure : Option Failure} (h : o.Sound)
    (ended : o.jobs[k]? = some (.ended failure)) (past : ∀ i, o.Unfinished i → i ≤ k) (i : Nat) :
    ¬o.Unfinished i := by
  intro going
  rcases Nat.lt_or_eq_of_le (past i going) with less | rfl
  · obtain ⟨_, same⟩ := h.order i k _ less going ended
    cases same
  · obtain ⟨job, is, going⟩ := going
    rw [ended] at is
    cases is
    exact going failure rfl

/-- No job is the current one any more when all have ended. -/
theorem forget (h : o.Sound) (ended : ∀ j, ¬o.Unfinished j) : Sound { o with current := none } :=
  { h with
    held := fun op mem pause => by
      obtain ⟨⟨k, -, going⟩, -⟩ := h.held op mem pause
      exact absurd going (ended k)
    current := fun i going => absurd going (ended i)
    bounded := nofun }

/-- The controller goes idle when all jobs have ended. -/
theorem settle (h : o.Sound) (ended : ∀ j, ¬o.Unfinished j) (free : ¬o.Starting) :
    Sound { o with status := .idle } :=
  { h with
    live := fun j ⟨going, _⟩ => absurd going (ended j)
    calling := fun op mem => by
      obtain ⟨role, admits⟩ := h.calling op mem
      refine ⟨role, ?_⟩
      cases op with
      | pace | begin => rfl
      | submit overlong => exact absurd ⟨_, mem, rfl⟩ free
      | _ => exact admits }

end Sound

/-! ## Operations -/

variable {s s' : Shared} {frame : Option Frame} {op : Op} {ops caller worker : List Op}

theorem admits_of_other {o : Outline} (other : op.role = .other) : o.Admits op := by
  cases op with
  | pace | begin | submit | keep | await | release | rest => cases other
  | _ => trivial

theorem bears_of_other {o : Outline} (other : op.role = .other) : o.Bears op := by
  cases op with
  | await | release | rest => cases other
  | _ => trivial

theorem admits_op {o : Outline} (c : Call) : o.Admits c.op := by
  cases c <;> trivial

theorem bears_op {o : Outline} (c : Call) : o.Bears c.op := by
  cases c <;> trivial

namespace Sound

theorem caller_other (h : (s.outline (op :: ops) worker).Sound) (other : op.role = .other)
    (executed : op.exec .caller s = some (s', frame)) :
    (s'.outline ((frame.map (·.next)).toList ++ ops) worker).Sound := by
  obtain ⟨keeps, next⟩ := Op.exec_other other executed
  rw [Shared.outline_of_keeps keeps]
  refine h.replace_caller (o := s.outline ops worker) _ (by rintro j rfl; cases other) fun op' mem => ?_
  obtain ⟨f, inside, rfl⟩ := Option.map_eq_some_iff.mp mem
  exact ⟨admits_of_other (next f inside), .inl (next f inside)⟩

theorem caller_start (h : (s.outline (op :: ops) worker).Sound) (start : op.role = .start)
    (executed : op.exec .caller s = some (s', frame)) :
    (s'.outline ((frame.map (·.next)).toList ++ ops) worker).Sound := by
  obtain rfl := h.alone (o := s.outline ops worker) start
  rw [List.append_nil]
  have next {o : Outline} {op' : Op} (admits : o.Admits op') (role : op'.role = .start) :
    ∀ op ∈ some op', o.Admits op ∧ op.role = .start := by
    rintro _ ⟨⟩
    exact ⟨admits, role⟩
  have left (gone : ∀ j, op ≠ .keep j) : (s.outline [] worker).Sound :=
    h.replace_start (o := s.outline [] worker) none gone nofun
  cases op with
  | enter call =>
    cases call with
    | run delay =>
      simp only [Op.exec, Shared.leave, Shared.goOn] at executed
      split at executed <;> cases executed
      · exact left (by rintro _ ⟨⟩)
      · exact h.replace_start (o := s.outline [] worker) (some (.pace delay)) (by rintro _ ⟨⟩)
          (next (Controller.idle_of_not_running ‹_›) rfl)
    | _ => cases start
  | pace delay =>
    have idle : s.session.controller.status = .idle := (h.calling _ (.head _)).2
    simp only [Op.exec, Shared.leave, Shared.goOn] at executed
    split at executed <;> cases executed
    · exact left (by rintro _ ⟨⟩)
    · exact h.replace_start (o := s.outline [] worker) (some (.begin _)) (by rintro _ ⟨⟩) (next idle rfl)
  | begin overlong =>
    simp only [Op.exec, Shared.leave, Shared.goOn] at executed
    split at executed <;> cases executed
    · exact h.begin (o := s.outline [] worker) none (by rintro _ ⟨⟩)
    · exact h.begin (o := s.outline [] worker) (some (.submit overlong)) (by rintro _ ⟨⟩; rfl)
  | submit overlong =>
    simp only [Op.exec, Shared.leave] at executed
    split at executed <;> cases executed
    · exact left (by rintro _ ⟨⟩)
    all_goals exact h.submit (o := s.outline [] worker)
  | keep j =>
    cases executed
    exact h.keep (o := s.outline [] worker)
  | _ => cases start

theorem caller_pause (h : (s.outline (op :: ops) worker).Sound) (pause : op.role = .pause)
    (executed : op.exec .caller s = some (s', frame)) :
    (s'.outline ((frame.map (·.next)).toList ++ ops) worker).Sound := by
  have gone (j : Nat) : op ≠ .keep j := by
    rintro rfl
    cases pause
  have goOn {op' : Op} (admits : (s.outline ops worker).Admits op')
      (role : op'.role = .other ∨ op'.role = .pause) : (s.outline (op' :: ops) worker).Sound := by
    refine h.replace_caller (o := s.outline ops worker) (some op') gone ?_
    rintro _ ⟨⟩
    exact ⟨admits, role.imp_right fun role => ⟨role, pause⟩⟩
  have left : (s.outline ops worker).Sound := h.pop_caller (o := s.outline ops worker) gone
  have admits : (s.outline (op :: ops) worker).Admits op := (h.calling op (.head _)).2
  have free : ¬(s.outline ops worker).Starting := fun ⟨op', mem, start⟩ =>
    h.not_starting_of_pause (.head _) pause ⟨op', .tail _ mem, start⟩
  have after_op (after : After) : (s.outline ops worker).Admits after.op := admits_of_other after.role_op
  cases op with
  | pauseIfRunning after | pause after =>
    cases executed
    dsimp only [Option.map_some, Option.toList_some]
    split
    · exact goOn trivial (.inr rfl)
    · exact goOn (after_op after) (.inl after.role_op)
  | requestStop after =>
    cases executed
    exact goOn trivial (.inr rfl)
  | seek after =>
    simp only [Op.exec, Shared.goOn] at executed
    split at executed <;> rename_i current <;> cases executed
    · refine goOn (fun i going => ?_) (.inr rfl)
      obtain ⟨k, is, -⟩ := h.current_of_pause (.head _) pause going
      cases current.symm.trans is
    · refine goOn ⟨h.bounded _ current, fun i going => ?_⟩ (.inr rfl)
      obtain ⟨k, is, le⟩ := h.current_of_pause (.head _) pause going
      cases current.symm.trans is
      exact le
  | await k after =>
    obtain ⟨inside, past⟩ := admits
    obtain ⟨job, is⟩ : ∃ job, s.session.jobs[k]? = some job := ⟨_, List.getElem?_eq_getElem inside⟩
    simp only [Op.exec, is, Option.getD_some, Shared.leave, Shared.goOn] at executed
    cases job with
    | pending | working => cases executed
    | ended failure =>
      cases failure with
      | some e =>
        cases executed
        exact left
      | none =>
        cases executed
        exact goOn (h.not_unfinished_of_ended is past) (.inr rfl)
  | release after =>
    cases executed
    have rests : (s.outline (.rest after :: ops) worker).Sound := goOn admits (.inr rfl)
    exact rests.forget (o := s.outline _ worker) admits
  | rest after =>
    simp only [Op.exec, Shared.leave, Shared.goOn] at executed
    split at executed <;> cases executed
    · exact left.settle admits free
    · exact (left.settle admits free).push_caller (admits_of_other after.role_op) (.inl after.role_op)
  | enter call => cases call <;> cases pause
  | _ => cases pause

theorem worker_call {outer : Op} (h : (s.outline caller (op :: outer :: ops)).Sound)
    (executed : op.exec .worker s = some (s', frame)) :
    (s'.outline caller ((frame.map (·.next)).toList ++ outer :: ops)).Sound := by
  rcases (List.pairwise_cons.mp h.nested).1 outer (.head _) with pause | other
  · obtain ⟨held, bears⟩ := h.held op (.head _) pause
    have goOn {op' : Op} (role : op'.role = .other ∨ op'.role = .pause)
        (bears : (s.outline caller (outer :: ops)).Bears op') :
        (s.outline caller (op' :: outer :: ops)).Sound :=
      (h.pop_worker (o := s.outline caller ops)).push_worker
        (role.imp_right fun role => ⟨role, held, bears⟩)
    cases op with
    | pauseIfRunning after | pause after =>
      cases executed
      dsimp only [Option.map_some, Option.toList_some]
      split
      · exact goOn (.inr rfl) trivial
      · exact goOn (.inl after.role_op) (bears_of_other after.role_op)
    | requestStop after =>
      cases executed
      exact goOn (.inr rfl) trivial
    | seek after =>
      obtain ⟨k, current, going⟩ := held
      simp only [Op.exec, show s.session.current = some k from current, Shared.goOn] at executed
      cases executed
      exact goOn (.inr rfl) going
    | await k after =>
      obtain ⟨job, is, going⟩ := bears
      simp only [Op.exec, show s.session.jobs[k]? = some job from is, Option.getD_some, Shared.leave,
        Shared.goOn] at executed
      cases job with
      | pending | working => cases executed
      | ended failure => exact absurd rfl (going failure)
    | release | rest => exact bears.elim
    | enter call => cases call <;> cases pause
    | _ => cases pause
  · obtain ⟨keeps, next⟩ := Op.exec_other other executed
    rw [Shared.outline_of_keeps keeps]
    refine h.replace_worker (o := s.outline caller ops) fun op' mem => ?_
    obtain ⟨f, inside, rfl⟩ := Option.map_eq_some_iff.mp mem
    exact .inl (next f inside)

theorem worker_turn (h : (s.outline caller [op]).Sound)
    (executed : op.exec .worker s = some (s', frame)) :
    (s'.outline caller (frame.map (·.next)).toList).Sound := by
  have goOn {op' : Op} (role : op'.role = op.role) (going : ¬op.Fulfils) (going' : ¬op'.Fulfils) :
      (s.outline caller [op']).Sound :=
    h.replace_duty (o := s.outline caller []) role going going'
  obtain ⟨j, role, -⟩ := h.duty op rfl
  cases op with
  | turn j overlong =>
    cases executed
    dsimp only [Option.map_some, Option.toList_some]
    split
    · exact goOn rfl id id
    · exact goOn rfl id id
  | work j overlong =>
    have keeps (ops : List Op) :
        Shared.outline ⟨s.session.executed .worker, s.pool⟩ caller ops = s.outline caller ops :=
      Shared.outline_of_keeps (.executed s.session .worker)
    simp only [Op.exec, Shared.goOn] at executed
    split at executed
    · cases executed
      exact goOn rfl id id
    · split at executed <;> cases executed <;> rw [keeps] <;> exact goOn rfl id id
  | linger j overlong =>
    simp only [Op.exec, Shared.leave, Shared.goOn] at executed
    split at executed <;> cases executed
    · exact goOn rfl id id
    · exact h.linger (o := s.outline caller [])
  | retire j failure =>
    simp only [Op.exec, Shared.goOn] at executed
    split at executed <;> cases executed
    · exact h.retire (o := s.outline caller [])
    · exact h.retire (o := s.outline caller [])
  | fulfil j failure =>
    cases executed
    exact h.fulfil (o := s.outline caller [])
  | enter call => cases call <;> cases role
  | _ => cases role

theorem caller_exec (h : (s.outline (op :: ops) worker).Sound)
    (executed : op.exec .caller s = some (s', frame)) :
    (s'.outline ((frame.map (·.next)).toList ++ ops) worker).Sound := by
  cases role : op.role with
  | start => exact h.caller_start role executed
  | pause => exact h.caller_pause role executed
  | job j => exact absurd role ((h.calling op (.head _)).1 j)
  | other => exact h.caller_other role executed

theorem worker_exec (h : (s.outline caller (op :: ops)).Sound)
    (executed : op.exec .worker s = some (s', frame)) :
    (s'.outline caller ((frame.map (·.next)).toList ++ ops)).Sound := by
  cases ops with
  | nil =>
    rw [List.append_nil]
    exact h.worker_turn executed
  | cons outer ops => exact h.worker_call executed

/-- An observer that the worker tells finds a current job that has not ended, unless a run is just started. -/
theorem current_of_free {o : Outline} (h : Sound { o with worker := op :: ops }) (free : ¬o.Starting) :
    ∃ k, o.current = some k ∧ o.Unfinished k := by
  obtain ⟨last, is⟩ : ∃ last, (op :: ops).getLast? = some last := ⟨_, List.getLast?_cons⟩
  obtain ⟨j, -, working⟩ := h.duty last is
  have going : o.Unfinished j := ⟨_, working, nofun⟩
  obtain ⟨k, current, le⟩ := (h.current j going).resolve_right fun keep => free ⟨_, keep, rfl⟩
  refine ⟨k, current, ?_⟩
  rcases Nat.lt_or_eq_of_le le with less | rfl
  · obtain ⟨job, is⟩ : ∃ job, o.jobs[k]? = some job :=
      ⟨_, List.getElem?_eq_getElem (h.bounded k current)⟩
    obtain ⟨overlong, rfl⟩ := h.order j k job less going is
    exact ⟨_, is, nofun⟩
  · exact going

end Sound

end Outline

/-! ## Steps -/

namespace Threads

variable {s t : Threads}

/-- No observer starts a run, and none pauses while a call of the caller is about to start one. -/
def Discreet (s : Threads) : Choice → Prop
  | .act _ c => ¬c.IsRun ∧ (s.outline.Starting → ¬c.Pauses)
  | _ => True

instance (o : Outline) : Decidable o.Starting := inferInstanceAs (Decidable (∃ _ ∈ _, _))

instance (s : Threads) : DecidablePred s.Discreet
  | .act _ _ => inferInstanceAs (Decidable (¬_ ∧ (_ → ¬_)))
  | .call _ | .go _ | .giveUp _ | .take _ => .isTrue trivial

theorem Step.sound (h : Step Discreet s t) (sound : s.outline.Sound) : t.outline.Sound := by
  cases h with
  | look looks => rwa [outline, Shared.outline_of_keeps looks.keeps]
  | move may moved =>
    rw [outline] at sound
    cases moved_of_move moved with
    | @call c free =>
      rw [free] at sound
      refine sound.withCaller (List.pairwise_singleton _ _)
        (List.forall_mem_singleton.mpr ⟨fun j role => ?_, Outline.admits_op c⟩) ?_ (by rintro _ ⟨⟩)
      · rcases c.role_op with ⟨is, -⟩ | ⟨is, -⟩ | is <;> rw [is] at role <;> cases role
      · rintro ⟨op, mem, start⟩
        cases List.mem_singleton.mp mem
        exact List.forall_mem_singleton.mpr (by rw [start]; rintro ⟨⟩)
    | @act thread c _ _ _ _ top =>
      have role : c.op.role = .other ∨ c.op.role = .pause ∧ ¬s.outline.Starting := by
        rcases c.role_op with ⟨-, run⟩ | ⟨pause, pauses⟩ | other
        · exact absurd run may.1
        · exact .inr ⟨pause, fun starting => may.2 starting pauses⟩
        · exact .inl other
      cases thread with
      | caller =>
        rw [outline] at role
        rw [show s.caller = _ from top] at sound role
        exact sound.push_caller (Outline.admits_op c) role
      | worker =>
        rw [show s.worker = _ from top] at sound
        refine sound.push_worker (o := s.outline) (role.imp_right ?_)
        rintro ⟨pause, free⟩
        exact ⟨pause, sound.current_of_free (o := s.outline) free, Outline.bears_op c⟩
    | @tell thread _ _ _ _ top =>
      cases thread with
      | caller =>
        rw [show s.caller = _ from top] at sound
        exact sound
      | worker =>
        rw [show s.worker = _ from top] at sound
        exact sound
    | @exec thread op frames shared frame top executed =>
      cases thread with
      | caller =>
        rw [show s.caller = _ from top] at sound
        rw [outline, withFrames, map_next]
        exact sound.caller_exec executed
      | worker =>
        rw [show s.worker = _ from top] at sound
        rw [outline, withFrames, map_next]
        exact sound.worker_exec executed
    | @stopAwaiting thread j after frames top =>
      cases thread with
      | caller =>
        rw [show s.caller = _ from top] at sound
        exact (sound.pop_caller (o := s.outline) (by rintro _ ⟨⟩)).push_caller
          (Outline.admits_of_other after.role_op) (.inl after.role_op)
      | worker =>
        rw [show s.worker = _ from top] at sound
        cases frames with
        | nil => exact absurd rfl (sound.inside (o := s.outline) (by rintro _ ⟨⟩))
        | cons outer frames =>
          exact (sound.pop_worker (o := s.outline)).push_worker (.inl after.role_op)
    | @stopJoining thread j frames top =>
      cases thread with
      | caller =>
        rw [show s.caller = _ from top] at sound
        exact sound.pop_caller (o := s.outline) (by rintro _ ⟨⟩)
      | worker =>
        rw [show s.worker = _ from top] at sound
        cases frames with
        | nil => exact absurd rfl (sound.inside (o := s.outline) (by rintro _ ⟨⟩))
        | cons outer frames => exact sound.pop_worker (o := s.outline)
    | take none waiting first =>
      rw [none] at sound
      exact sound.take (o := s.outline) waiting first

/-! ## The worker -/

/-- Observers are discreet, and the caller does not start a run either. -/
def Calm (s : Threads) : Choice → Prop
  | .call c => ¬c.IsRun
  | choice => s.Discreet choice

instance (s : Threads) : DecidablePred s.Calm
  | .call _ => inferInstanceAs (Decidable (¬_))
  | .act thread c => inferInstanceAs (Decidable (s.Discreet (.act thread c)))
  | .go _ | .giveUp _ | .take _ => .isTrue trivial

theorem Step.discreet (h : Step Calm s t) : Step Discreet s t := by
  cases h with
  | look looks => exact .look looks
  | move may moved =>
    rename_i choice
    refine .move ?_ moved
    cases choice with
    | call => trivial
    | _ => exact may

/-- The worker is about to execute an instruction only during a run. -/
theorem running_of_drives (sound : s.outline.Sound) (drives : s.Drives .worker) :
    s.session.controller.status = .running := by
  obtain ⟨thread, op, frames, top, drives⟩ := drives
  obtain ⟨j, overlong, rfl⟩ : ∃ j overlong, op = .work j overlong := by
    cases op with
    | work j overlong => exact ⟨j, overlong, rfl⟩
    | _ => cases drives
  rw [outline] at sound
  cases thread with
  | caller =>
    rw [show s.caller = _ from top] at sound
    exact absurd rfl ((sound.calling _ (.head _)).1 j)
  | worker =>
    rw [show s.worker = _ from top] at sound
    cases frames with
    | nil =>
      obtain ⟨working, -⟩ := sound.first (o := s.outline) rfl
      exact (sound.live j ⟨⟨_, working, by rintro _ ⟨⟩⟩, by rintro ⟨_, ⟨⟩⟩⟩).2
    | cons outer frames =>
      rcases (List.pairwise_cons.mp sound.nested).1 _ (.head _) with role | role <;> cases role

/-- From an idle controller on there is no run until one is started. -/
theorem Step.calm (h : Step Calm s t) (sound : s.outline.Sound)
    (idle : s.session.controller.status = .idle) (free : ¬s.outline.Starting) :
    t.session.controller.status = .idle ∧ ¬t.outline.Starting := by
  cases h with
  | look looks => exact ⟨looks.keeps.status.trans idle, free⟩
  | move may moved =>
    -- what starts a run belongs to a call that does, and the caller makes none
    have stays {shared : Shared} {frame : Option Frame} {op : Op} {thread : Thread}
        (executed : op.exec thread s.toShared = some (shared, frame)) (other : op.role ≠ .start) :
        shared.session.controller.status = .idle ∧ ∀ f ∈ frame, f.next.role ≠ .start := by
      refine ⟨?_, fun f mem start => ?_⟩
      · rcases op.status_of_exec executed with same | rest | ⟨overlong, rfl⟩
        · exact same.trans idle
        · exact rest
        · exact absurd rfl other
      · rcases op.role_of_exec executed mem with same | is
        · exact other (same ▸ start)
        · rw [start] at is
          cases is
    suffices t.session.controller.status = .idle ∧ ∀ op ∈ t.outline.caller, op.role ≠ .start from
      ⟨this.1, by rintro ⟨op, mem, start⟩; exact this.2 op mem start⟩
    replace free : ∀ op ∈ s.outline.caller, op.role ≠ .start :=
      fun op mem start => free ⟨op, mem, start⟩
    rw [outline] at free sound
    cases moved_of_move moved with
    | @call c _ => exact ⟨idle, List.forall_mem_singleton.mpr (c.role_op_ne_start may)⟩
    | @act thread c _ _ _ _ top =>
      cases thread with
      | caller =>
        rw [show s.caller = _ from top] at free
        exact ⟨idle, List.forall_mem_cons.mpr ⟨c.role_op_ne_start may.1, free⟩⟩
      | worker => exact ⟨idle, free⟩
    | @tell thread _ _ _ _ top =>
      cases thread with
      | caller =>
        rw [show s.caller = _ from top] at free
        exact ⟨idle, free⟩
      | worker => exact ⟨idle, free⟩
    | @exec thread op frames shared frame top executed =>
      cases thread with
      | caller =>
        rw [show s.caller = _ from top] at free
        obtain ⟨other, free⟩ := List.forall_mem_cons.mp free
        obtain ⟨idle, next⟩ := stays executed other
        refine ⟨idle, ?_⟩
        cases frame with
        | none => exact free
        | some f => exact List.forall_mem_cons.mpr ⟨next f rfl, free⟩
      | worker =>
        rw [show s.worker = _ from top] at sound
        exact ⟨(stays executed (sound.worker_ne_start (o := s.outline))).1, free⟩
    | @stopAwaiting thread j after _ top =>
      cases thread with
      | caller =>
        rw [show s.caller = _ from top] at free
        exact ⟨idle, List.forall_mem_cons.mpr ⟨by rw [after.role_op]; rintro ⟨⟩,
          (List.forall_mem_cons.mp free).2⟩⟩
      | worker => exact ⟨idle, free⟩
    | @stopJoining thread _ _ top =>
      cases thread with
      | caller =>
        rw [show s.caller = _ from top] at free
        exact ⟨idle, (List.forall_mem_cons.mp free).2⟩
      | worker => exact ⟨idle, free⟩
    | take => exact ⟨idle, free⟩

theorem sound_create (c : Controller) (recorded : Bool) :
    (ofSession (.create c recorded)).outline.Sound := by
  have none (j : Nat) : ¬(ofSession (.create c recorded)).outline.Unfinished j := by
    rintro ⟨job, is, -⟩
    cases is
  exact {
    outermost := .nil
    calling := nofun
    undisturbed := nofun
    nested := .nil
    duty := nofun
    held := nofun
    order := fun i _ _ _ going => absurd going (none i)
    live := fun j alive => absurd alive.1 (none j)
    current := fun i going => absurd going (none i)
    bounded := nofun }

/-- **The worker executes during a run**, if observers start no runs and pause none while the caller is about to
start one, in whatever order the threads move: of two unfinished jobs the earlier one has gone idle and has at
most to tell so, the cycles of the worker find the controller running, and from an idle controller on the worker
does not execute anything until a run is started. -/
theorem worker_finds_running {c : Controller} {recorded : Bool}
    (lived : Execution Discreet (ofSession (.create c recorded)) s) :
    (∀ i j, i < j → s.session.Unfinished i → s.session.Unfinished j → s.outline.Spent i) ∧
      (∀ before ∈ s.session.found .worker, before.status = .running) ∧
      (s.session.controller.status = .idle → ¬s.outline.Starting → ∀ t, Execution Calm s t →
        s.session.Adds (fun driver _ => driver = .caller) t.session) := by
  obtain ⟨sound, new, same, running⟩ := lived.adds (fun s => s.outline.Sound)
    (fun driver before => driver = .worker → before.status = .running)
    (fun holds step => step.sound holds)
    (fun holds drives is => running_of_drives holds (is ▸ drives)) (sound_create c recorded)
  refine ⟨fun i j less going going' => ?_, fun before mem => ?_, fun idle free t further => ?_⟩
  · by_contra unspent
    have last := (sound.live i ⟨going, unspent⟩).1
    obtain ⟨job, is, -⟩ := going'
    have inside : j < s.outline.jobs.length := (List.getElem?_eq_some_iff.mp is).1
    omega
  · rw [Session.mem_found, same] at mem
    rcases List.mem_append.mp mem with mem | mem
    · exact running _ _ mem rfl
    · cases mem
  · refine (further.adds (fun s => s.outline.Sound ∧ s.session.controller.status = .idle ∧
      ¬s.outline.Starting) _ (fun ⟨sound, idle, free⟩ step =>
        ⟨step.discreet.sound sound, step.calm sound idle free⟩) ?_ ⟨sound, idle, free⟩).2
    rintro s driver ⟨sound, idle, -⟩ drives
    cases driver with
    | caller => rfl
    | worker =>
      rw [running_of_drives sound drives] at idle
      cases idle

/-- An observer pauses a run, and while the worker still tells that it has stopped, the caller steps or starts
another run. -/
theorem paused_worker_finds_running : ∃ s t u,
    Execution Discreet (ofSession .bare) s ∧ s.session.controller.status = .idle ∧
      ¬s.outline.Starting ∧ Execution Calm s t ∧
      s.session.Adds (fun driver _ => driver = .caller) t.session ∧
      (t.session.found .caller).length = 1 ∧ Execution Discreet s u ∧ u.session.Unfinished 0 ∧
      u.session.Unfinished 1 ∧ u.outline.Spent 0 ∧ (u.session.found .worker).length = 1 ∧
      ∀ before ∈ u.session.found .worker, before.status = .running := by
  have lived : (do
      let s ← (ofSession .bare).lives Discreet (
        .call (.loadWords [0x20080001, 0x20080002, 0x20080003]) ::
          List.replicate 4 (.go .caller) ++
        .call (.run .seconds) :: List.replicate 6 (.go .caller) ++
        .take 0 :: List.replicate 2 (.go .worker) ++
        .act .worker .pause :: List.replicate 3 (.go .worker) ++
        .giveUp .worker :: List.replicate 3 (.go .worker) ++
        .take 0 :: List.replicate 2 (.go .worker))
      let t ← s.lives Calm (.call .step :: List.replicate 4 (.go .caller))
      let u ← s.lives Discreet (.call (.run .seconds) :: List.replicate 6 (.go .caller))
      return (s.session.controller.status, decide s.outline.Starting,
        (t.session.found .caller).length, u.session.jobs.map Job.hasEnded,
        (u.session.found .worker).length)) = some (.idle, false, 1, [false, false], 1) := by
    decide +kernel
  obtain ⟨s, toIdle, lived⟩ := Option.bind_eq_some_iff.mp lived
  obtain ⟨t, further, lived⟩ := Option.bind_eq_some_iff.mp lived
  obtain ⟨u, again, lived⟩ := Option.bind_eq_some_iff.mp lived
  have parts := Option.some.inj lived
  simp only [Prod.mk.injEq, decide_eq_false_iff_not] at parts
  obtain ⟨idle, free, steps, jobs, cycles⟩ := parts
  have first := execution_of_lives toIdle
  have second := execution_of_lives again
  have calm := execution_of_lives further
  have earlier : u.session.Unfinished 0 := by
    rw [Session.unfinished_iff, jobs]
    rfl
  have later : u.session.Unfinished 1 := by
    rw [Session.unfinished_iff, jobs]
    rfl
  obtain ⟨-, -, rests⟩ := worker_finds_running first
  obtain ⟨spent, running, -⟩ := worker_finds_running (first.trans second)
  exact ⟨s, t, u, first, idle, free, calm, rests idle free t calm, steps, second, earlier, later,
    spent 0 1 (by decide) earlier later, cycles, running⟩

end Threads

namespace Session

/-- An observer of a start that stops the run, and runs and resets the program itself, leaves an idle
controller with a job: the next wait has the worker execute. -/
theorem worker_goes_on_after_reset : ∃ s t r, History (fun _ _ => True) bare s ∧
    s.controller.status = .idle ∧ perform 5 9 .wait s = some (r, t) ∧
    (t.found .worker).map (·.status) =
      [.idle, .idle, .idle] ++ (s.found .worker).map (·.status) := by
  have lived : (do
      let s ← calls 5 9 [.loadWords [0x20080001, 0x20080002, 0x20080003],
        .subscribe "restarter" (some .started) 1 [.pause, .run .period, .wait, .reset] false,
        .run .period] bare
      let waited ← perform 5 9 .wait s
      return (s.controller.status, (s.found .worker).map (·.status),
        (waited.2.found .worker).map (·.status))) =
        some (.idle, [.running, .running, .running],
          [.idle, .idle, .idle, .running, .running, .running]) := by
    decide +kernel
  obtain ⟨s, called, lived⟩ := Option.bind_eq_some_iff.mp lived
  obtain ⟨⟨r, t⟩, waited, lived⟩ := Option.bind_eq_some_iff.mp lived
  have parts := Option.some.inj lived
  rw [Prod.mk.injEq, Prod.mk.injEq] at parts
  obtain ⟨idle, before, after⟩ := parts
  refine ⟨s, t, r, history_of_calls (fun _ _ _ => trivial) called, idle, waited, ?_⟩
  rw [after, before]
  rfl

end Session

end PocketMips.Simulator
