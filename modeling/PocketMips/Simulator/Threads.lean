import PocketMips.Simulator.Session

/-!
The two threads of a session: the caller's and that of the background worker.

The threads share a session. One move of a thread is one access to what they share, and all that is done under
the lock of the controller is one access; the moves of the two threads may follow one another in any order.
While a thread tells the observers of an event, an observer may make any call, which the thread performs before
it goes on. Who the observers are is left open here. A `Session` has them follow their scripts, and gives the
worker its turns only between the calls of the caller or when one of them asks for a job.
-/
namespace PocketMips.Simulator

inductive Thread
  | caller
  | worker
  deriving DecidableEq, Repr

/-- What takes the jobs for the worker. -/
inductive Pool
  /-- It is made when a job is handed over. -/
  | absent
  | serving
  /-- It takes no more jobs, though those that it has are worked on. -/
  | closed
  deriving DecidableEq, Repr

/-- What a call does after it has paused a run. -/
inductive After
  | nothing
  | reset
  | shutdown
  deriving DecidableEq, Repr

/-- What is to be done next in a call or in the turn of a job. -/
inductive Op
  /-- Nothing is left to do. -/
  | done
  /-- A call goes on if the controller is idle. -/
  | enter (call : Call)
  | place (program : List Word) (labels : Assembly.Labels)
  /-- The loaded program is put in place once more. -/
  | placeAgain
  /-- An instruction is executed for a caller, who then has a run to complete within a limit, or only steps. -/
  | execute (limit : Option Nat)
  | complete (limit : Nat)
  /-- The delay of a run is worked out. -/
  | pace (delay : Delay)
  | begin (overlong : Bool)
  /-- The job of a run is handed over to the worker. -/
  | submit (overlong : Bool)
  /-- A job becomes the current one. -/
  | keep (job : Nat)
  /-- The call pauses if a run is in progress. -/
  | pauseIfRunning (after : After)
  | pause (after : After)
  | requestStop (after : After)
  /-- It is looked up which job is the current one. -/
  | seek (after : After)
  /-- A pause waits for a job, but not for ever. -/
  | await (job : Nat) (after : After)
  /-- No job is the current one any more. -/
  | release (after : After)
  /-- The controller goes idle at the end of a pause. -/
  | rest (after : After)
  | wait
  /-- A call waits for a job. -/
  | join (job : Nat)
  | close
  /-- The pool that has been closed is waited for. -/
  | drain
  | setClock (settings : Value.Entries)
  /-- The machine is written to behind the controller's back. -/
  | write (call : Call)
  /-- A job goes on unless it has been asked to stop. -/
  | turn (job : Nat) (overlong : Bool)
  | work (job : Nat) (overlong : Bool)
  /-- A job waits before its next turn. -/
  | linger (job : Nat) (overlong : Bool)
  /-- The controller goes idle at the end of a job. -/
  | retire (job : Nat) (failure : Option Failure)
  /-- A job ends, for those who wait for it. -/
  | fulfil (job : Nat) (failure : Option Failure)

/-- A call or a turn in progress: the events that the observers are still to be told of, and what is to be done
after that. -/
structure Frame where
  news : News := []
  next : Op

/-- What the threads share. -/
structure Shared where
  session : Session
  pool : Pool := .absent

/-- The state of the threads. Of the frames of a thread the innermost is the first one; those around it belong to
the calls and turns in which the observers are being told of something. -/
structure Threads extends Shared where
  caller : List Frame := []
  worker : List Frame := []

/-! ## Operations -/

def After.op : After → Op
  | nothing => .done
  | reset => .enter .reset
  | shutdown => .close

/-- What a call has to do first. Who listens is not the threads' business, and what only looks has no effect. -/
def Call.op (c : Call) : Op :=
  match c with
  | load _ | loadWords _ | loadBytes _ | step | runToCompletion _ | run _ => .enter c
  | wait => .wait
  | pause => .pause .nothing
  | reset => .pauseIfRunning .reset
  | shutdown => .pauseIfRunning .shutdown
  | setClock settings => .setClock settings
  | setRegister _ _ | setPc _ | memory _ => .write c
  | register _ | wordAt _ | timeText | mute | subscribe _ _ _ _ _ | unsubscribe _ => .done

/-- Whether a job has ended. -/
def Job.hasEnded : Job → Bool
  | ended _ => true
  | pending _ | working => false

namespace Session

/-- What a call does next that has found the controller idle. -/
def entered (s : Session) : Call → Op
  | .load source =>
    match s.assemble source with
    | .error _ => .done
    | .ok (labels, program) => .place program labels
  | .loadWords words => .place (words.map (BitVec.ofInt 32)) []
  | .loadBytes image =>
    match Image.words? image with
    | none => .done
    | some program => .place program []
  | .step => .execute none
  | .runToCompletion limit => .complete limit.toNat
  | .run delay => .pace delay
  | .reset => .placeAgain
  | _ => .done

/-- The session after a call that writes to the machine. -/
def written (s : Session) : Call → Session
  | .setRegister index value => (s.setRegister index value).2
  | .setPc value => s.setPc value
  | .memory access => (s.accessMemory access).2
  | _ => s

end Session

namespace Shared

/-- A call or turn is left, at its end or by a failure. -/
def leave (s : Shared) (t : Session) : Option (Shared × Option Frame) :=
  some ({ s with session := t }, none)

/-- A call or turn goes on. -/
def goOn (s : Shared) (t : Session) (next : Op) (news : News := []) : Option (Shared × Option Frame) :=
  some ({ s with session := t }, some ⟨news, next⟩)

/-- A program is installed, or it cannot be. -/
def install (s : Shared) (program : List Word) (labels : Assembly.Labels) (event : Event) :
    Option (Shared × Option Frame) :=
  match s.session.controller.place program labels with
  | (.error _, c) => s.leave (s.session.withController c)
  | (.ok (), c) => s.goOn ((s.session.withController c).log .placed) .done [(event, c.stored)]

end Shared

/-- What an operation of a thread does, and with what the call or turn goes on. A thread that waits for a job does
nothing until it has ended. -/
def Op.exec (thread : Thread) (s : Shared) (op : Op) : Option (Shared × Option Frame) :=
  let t := s.session
  let c := t.controller
  match op with
  | done => s.leave t
  | enter call => if c.isRunning then s.leave t else s.goOn t (t.entered call)
  | place program labels => s.install program labels .loaded
  | placeAgain => s.install c.program c.labels .reset
  | execute limit =>
    if c.lost then s.leave t
    else
      match c.executeNext.1 with
      | .completed | .stepped _ =>
        s.goOn (t.executed .caller) (limit.elim .done .complete) c.news
      | .failed _ => s.goOn (t.executed .caller) .done c.news
      | .overflow => s.leave (t.executed .caller)
  | complete limit =>
    if c.lost || c.machine.hasFinished then s.leave t
    else
      match limit with
      | 0 => s.leave t
      | limit + 1 => s.goOn t (execute (some limit))
  | pace delay =>
    match t.checkDelay delay with
    | .error _ => s.leave t
    | .ok overlong => s.goOn t (begin overlong)
  | begin overlong =>
    if c.lost then s.leave (t.withController c.running)
    else s.goOn (t.withController c.begin) (submit overlong) [(.started, c.begin.stored)]
  | submit overlong =>
    match s.pool with
    | .closed => s.leave t
    | .absent | .serving =>
      some (⟨{ t with jobs := t.jobs ++ [.pending overlong] }, .serving⟩, some ⟨[], keep t.jobs.length⟩)
  | keep j => s.leave { t with current := some j }
  | pauseIfRunning after => s.goOn t (if c.isRunning then pause after else after.op)
  | pause after => s.goOn t (if c.isRunning then requestStop after else after.op)
  | requestStop after => s.goOn (t.withController c.requestStop) (seek after)
  | seek after =>
    match t.current with
    | none => s.goOn t (rest after)
    | some j => s.goOn t (await j after)
  | await j after =>
    match t.jobs[j]?.getD (.ended none) with
    | .pending _ | .working => none
    | .ended none => s.goOn t (release after)
    | .ended (some _) => s.leave t
  | release after => s.goOn { t with current := none } (rest after)
  | rest after =>
    if c.lost then s.leave (t.withController c.idle)
    else s.goOn (t.withController c.settle) after.op [(.paused, c.settle.stored)]
  | wait =>
    match t.current with
    | none => s.leave t
    | some j => s.goOn t (join j)
  | join j => if (t.jobs[j]?.getD (.ended none)).hasEnded then s.leave t else none
  | close =>
    match s.pool, thread with
    | .absent, _ => s.leave t
    | _, .caller => some ({ s with pool := .closed }, some ⟨[], drain⟩)
    -- the worker cannot wait for its own end
    | _, .worker => some ({ s with pool := .closed }, none)
  | drain => if t.jobs.all Job.hasEnded then some ({ s with pool := .absent }, none) else none
  | setClock settings =>
    match Session.clockOf settings with
    | .error _ => s.leave t
    | .ok clock => s.goOn (t.withController { c with clock }) done [(.clock, c.stored)]
  | write call => s.leave (t.written call)
  | turn j overlong => s.goOn t (if c.stopRequested then retire j none else work j overlong)
  | work j overlong =>
    if c.lost then s.goOn t (retire j (some .badArgument))
    else
      match c.executeNext.1 with
      | .completed | .stepped true | .failed _ => s.goOn (t.executed .worker) (retire j none) c.news
      | .stepped false => s.goOn (t.executed .worker) (linger j overlong) c.news
      | .overflow => s.goOn (t.executed .worker) (retire j (some .overflow)) c.news
  | linger j overlong =>
    if overlong && !c.stopRequested then s.goOn t (retire j (some .overflow))
    else s.leave (t.setJob j (.pending overlong))
  | retire j failure =>
    if c.lost then s.goOn (t.withController c.idle) (fulfil j (some .badArgument))
    else s.goOn (t.withController c.settle) (fulfil j failure) [(.stopped, c.settle.stored)]
  | fulfil j failure => s.leave (t.setJob j (.ended failure))

/-! ## Moves -/

/-- Who moves next, and how. -/
inductive Choice
  | call (c : Call)
  /-- An observer makes a call while a thread tells it of something. -/
  | act (thread : Thread) (c : Call)
  /-- A thread goes on with its innermost call or turn. -/
  | go (thread : Thread)
  /-- A thread does not wait any longer. -/
  | giveUp (thread : Thread)
  /-- The worker takes up a job, for its first turn or another one. -/
  | take (job : Nat)

namespace Threads

def frames (s : Threads) : Thread → List Frame
  | .caller => s.caller
  | .worker => s.worker

def withFrames (s : Threads) (frames : List Frame) : Thread → Threads
  | .caller => { s with caller := frames }
  | .worker => { s with worker := frames }

/-- The worker has its turns job by job, in the order in which they have been handed over. -/
def take (s : Threads) (j : Nat) : Option Threads :=
  match s.worker, s.session.jobs[j]? with
  | [], some (.pending overlong) =>
    if (s.session.jobs.take j).all Job.hasEnded then
      some { s with session := s.session.setJob j .working, worker := [⟨[], .turn j overlong⟩] }
    else none
  | _, _ => none

/-- The state after a move, if it can be made. -/
def move (s : Threads) : Choice → Option Threads
  | .call c =>
    match s.caller with
    | [] => some { s with caller := [⟨[], c.op⟩] }
    | _ :: _ => none
  | .act thread c =>
    match s.frames thread with
    | ⟨told :: news, op⟩ :: frames =>
      some (s.withFrames (⟨[], c.op⟩ :: ⟨told :: news, op⟩ :: frames) thread)
    | _ => none
  | .go thread =>
    match s.frames thread with
    | [] => none
    | ⟨_ :: news, op⟩ :: frames => some (s.withFrames (⟨news, op⟩ :: frames) thread)
    | ⟨[], op⟩ :: frames => do
      let (shared, frame) ← op.exec thread s.toShared
      return { s with toShared := shared }.withFrames (frame.toList ++ frames) thread
  | .giveUp thread =>
    match s.frames thread with
    | ⟨[], .await _ after⟩ :: frames => some (s.withFrames (⟨[], after.op⟩ :: frames) thread)
    | ⟨[], .join _⟩ :: frames => some (s.withFrames frames thread)
    | _ => none
  | .take j => s.take j

/-- The threads of a session without a call or a turn in progress. -/
def ofSession (s : Session) : Threads := { session := s }

end Threads

end PocketMips.Simulator
