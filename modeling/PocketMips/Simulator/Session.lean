import PocketMips.Simulator.Placement

/-!
A session: a controller with its observers, the jobs given to its background worker, and a journal of
all that happens.

A job runs in turns of one cycle each. Observers are called in the order of their subscription and may
call the simulator in turn; what they raise is dropped. A call that never returns, because a job or a
chain of observers does not end, has no answer.

The worker keeps to one schedule: a job has its turns between the calls of the caller, or when a call asks
for it, and a turn is one move with all that is told in it. In `Threads` the caller and the worker move
independently of each other, and a session is one way in which they may.
-/
namespace PocketMips.Simulator

/-- Who executes a cycle. -/
inductive Driver
  | caller
  | worker
  deriving DecidableEq, Repr

/-- A job of the background worker. -/
inductive Job
  /-- It has turns to go, with or without a wait between them that is too long. -/
  | pending (overlong : Bool)
  /-- Its turn is in progress. -/
  | working
  /-- It has ended, possibly by a failure that its waiters meet. -/
  | ended (failure : Option Failure)

/-- An observer is the recorder, or one of a name; a name may be used again. -/
inductive ObserverId
  | recorder
  | scripted (name : String) (generation : Nat)
  deriving DecidableEq, Repr

/-- An observer performs its acts at one occurrence of its event, and may fail after them. -/
structure Observer where
  event : Option Event
  turn : Int
  acts : List Call
  fails : Bool
  seen : Nat := 0

/-- An entry of the journal. -/
inductive Entry
  /-- A cycle is executed in this state. -/
  | cycle (driver : Driver) (before : Controller)
  /-- An observer is told of an event in this state. -/
  | told (who : ObserverId) (event : Event) (snapshot : Snapshot) (controller : Controller)
  /-- An observer's call has been answered. -/
  | replied (call : Call) (result : Except Failure Reply)
  /-- A program has been put in place, by a load or once more by a reset. -/
  | placed

/-- The state of a session; the journal has its latest entry first. -/
structure Session where
  controller : Controller
  jobs : List Job := []
  /-- The job that waiting and pausing ask for. -/
  current : Option Nat := none
  observers : List (ObserverId × Observer) := []
  listeners : List ObserverId := []
  journal : List Entry := []
  /-- Whether an observer that is told fails, by all that has happened, apart from the failure after its
  acts. -/
  raises : ObserverId → List Entry → Bool := fun _ _ => false

/-- The answer of a call, if it returns. -/
abbrev Answer := Option (Except Failure Reply × Session)

/-- How a session performs the calls of its observers. -/
abbrev Reaction := Call → Session → Answer

namespace Session

/-- Adds an entry to the journal. -/
def log (s : Session) (e : Entry) : Session := { s with journal := e :: s.journal }

/-- Replaces the controller. -/
def withController (s : Session) (c : Controller) : Session := { s with controller := c }

/-- Sets the state of a job. -/
def setJob (s : Session) (j : Nat) (job : Job) : Session := { s with jobs := s.jobs.set j job }

/-! ## Observers -/

/-- The observer of an identity. -/
def observer? (s : Session) (who : ObserverId) : Option Observer :=
  (s.observers.find? (·.1 = who)).map (·.2)

/-- Counts an occurrence of its event for an observer. -/
def countSeen (s : Session) (who : ObserverId) : Session :=
  { s with observers := s.observers.map fun (id, o) =>
      if id = who then (id, { o with seen := o.seen + 1 }) else (id, o) }

/-- How many observers have been subscribed under a name. -/
def generations (s : Session) (name : String) : Nat :=
  s.observers.countP fun (id, _) => match id with
    | .scripted n _ => n = name
    | .recorder => false

/-- Subscribes an observer under a name. -/
def subscribe (s : Session) (name : String) (o : Observer) : Session :=
  let id := ObserverId.scripted name (s.generations name)
  { s with observers := s.observers ++ [(id, o)], listeners := s.listeners ++ [id] }

/-- Unsubscribes an observer; it is no mistake if there is none. -/
def remove (s : Session) (who : ObserverId) : Session :=
  { s with listeners := s.listeners.erase who }

/-- Unsubscribes the latest observer of a name. -/
def unsubscribe (s : Session) (name : String) : Session :=
  match s.generations name with
  | 0 => s
  | n + 1 => s.remove (.scripted name n)

/-- Performs the calls of an observer, noting the answers. -/
def act (react : Reaction) : List Call → Session → Option Session
  | [], s => some s
  | c :: cs, s => do
    let (r, s) ← react c s
    act react cs (s.log (.replied c r))

/-- Tells an observer of an event; the flag says whether the observer failed. -/
def tell (react : Reaction) (event : Event) (snapshot : Snapshot) (s : Session) (who : ObserverId) :
    Option (Bool × Session) :=
  let s := s.log (.told who event snapshot s.controller)
  let fails := s.raises who s.journal
  match s.observer? who with
  | none => some (fails, s)
  | some o =>
    if o.event = some event then
      let s := s.countSeen who
      if ((o.seen + 1 : Nat) : Int) = o.turn then (act react o.acts s).map (o.fails || fails, ·)
      else some (fails, s)
    else some (fails, s)

/-- Tells the observers subscribed at the moment of an event, whether or not some of them fail. -/
def notify (react : Reaction) (event : Event) (snapshot : Snapshot) (s : Session) : Option Session :=
  s.listeners.foldlM (fun s who => (tell react event snapshot s who).map (·.2)) s

/-! ## Execution -/

/-- The failure of a cycle by a fault; an instruction that is refused where a load has put the program
counter is told by the address as it was given. -/
def failureOf (c : Controller) (f : Machine.Fault) : Failure :=
  match c.shownPc, f with
  | some (.bool b), .unsupported .. => .flagged b f
  | _, _ => .machine f

/-- What the journal says of the next instruction: nothing if the program has finished. -/
def begun (s : Session) (driver : Driver) : List Entry :=
  if s.controller.machine.hasFinished then [] else [.cycle driver s.controller]

/-- The session after the next instruction, before anyone is told. -/
def executed (s : Session) (driver : Driver) : Session :=
  { s with controller := s.controller.executeNext.2, journal := s.begun driver ++ s.journal }

/-- Executes one instruction and tells the observers. -/
def advance (react : Reaction) (driver : Driver) (s : Session) :
    Option (Except Failure Snapshot × Session) :=
  if s.controller.lost then some (.error .badArgument, s) else
  let s := if s.controller.machine.hasFinished then s else s.log (.cycle driver s.controller)
  let (outcome, c) := s.controller.executeNext
  let s := s.withController c
  let snapshot := c.stored
  match outcome with
  | .completed => (notify react .completed snapshot s).map (.ok snapshot, ·)
  | .stepped finished => do
    let s ← notify react .step snapshot s
    let s ← if finished then notify react .completed snapshot s else some s
    return (.ok snapshot, s)
  | .failed f => (notify react .error snapshot s).map (.error (failureOf c f), ·)
  | .overflow => some (.error .overflow, s)

/-- Executes instructions until the program has finished or the limit is reached. No job has a turn between
them unless an observer asks for it. -/
def complete (react : Reaction) : Nat → Snapshot → Session → Option (Except Failure Snapshot × Session)
  | 0, snapshot, s => some (.ok snapshot, s)
  | limit + 1, snapshot, s =>
    if s.controller.machine.hasFinished then some (.ok snapshot, s)
    else do
      match ← advance react .caller s with
      | (.ok snapshot, s) => complete react limit snapshot s
      | (.error e, s) => return (.error e, s)

/-- Ends a job, and with it the run: nobody but the observers that are told finds the controller idle before
the job has ended. -/
def finish (react : Reaction) (j : Nat) (failure : Option Failure) (s : Session) : Option Session :=
  if s.controller.lost then
    some ((s.withController s.controller.idle).setJob j (.ended (some .badArgument)))
  else do
    let s := s.withController s.controller.settle
    let s ← notify react .stopped s.controller.stored s
    return s.setJob j (.ended failure)

/-- One turn of a job: it ends if it has been asked to stop, and otherwise executes an instruction and
waits. -/
def turn (react : Reaction) (j : Nat) (overlong : Bool) (s : Session) : Option Session := do
  let s := s.setJob j .working
  if s.controller.stopRequested then finish react j none s
  else
    match ← advance react .worker s with
    | (.ok snapshot, s) =>
      if snapshot.finished then finish react j none s
      else if overlong && !s.controller.stopRequested then finish react j (some .overflow) s
      else return s.setJob j (.pending overlong)
    | (.error e, s) => finish react j e.ofRun? s

/-- How a job stands when it has been asked for. -/
inductive JobEnd
  /-- It is the one that asks. -/
  | unfinished
  | ended (failure : Option Failure)

/-- Gives turns to a job until it has ended. Those that were handed over before it are left alone, but then they
have ended, as long as no observer starts a run or does anything at the start of one. -/
def demand (react : Reaction) (j : Nat) : Nat → Session → Option (JobEnd × Session)
  | turns, s =>
    match s.jobs[j]?.getD (.ended none) with
    | .working => some (.unfinished, s)
    | .ended failure => some (.ended failure, s)
    | .pending overlong =>
      match turns with
      | 0 => none
      | turns + 1 => do demand react j turns (← turn react j overlong s)

/-! ## Calls -/

/-- The refusal of an action while a background run is in progress. -/
def requireIdle (s : Session) (action : String) : Except Failure Unit :=
  if s.controller.isRunning then .error (.busy action) else .ok ()

/-- Installs a program at the load address, marks that in the journal, and tells the observers. -/
def install (react : Reaction) (s : Session) (program : List Word) (labels : Assembly.Labels)
    (event : Event) (reply : Controller → Reply) : Answer :=
  match s.controller.place program labels with
  | (.error e, c) => some (.error e, s.withController c)
  | (.ok (), c) =>
    (notify react event c.stored ((s.withController c).log .placed)).map (.ok (reply c), ·)

/-- Installs a new program. -/
def installNew (react : Reaction) (s : Session) (program : List Word) (labels : Assembly.Labels) :
    Answer :=
  install react s program labels .loaded fun _ => .words program

/-- Assembles a source at the load address. -/
def assemble (s : Session) (source : Assembly.Source) : Except Failure (Assembly.Labels × List Word) :=
  s.controller.setup.loadAddress.assemble source

/-- Assembles a source and installs it. -/
def load (react : Reaction) (source : Assembly.Source) (s : Session) : Answer :=
  match s.requireIdle "load a program" with
  | .error e => some (.error e, s)
  | .ok () =>
    match s.assemble source with
    | .error e => some (.error e, s)
    | .ok (labels, program) => installNew react s program labels

/-- Installs machine code given as integers. -/
def loadWords (react : Reaction) (words : List Int) (s : Session) : Answer :=
  match s.requireIdle "load a program" with
  | .error e => some (.error e, s)
  | .ok () => installNew react s (words.map (BitVec.ofInt 32)) []

/-- Installs machine code given as a program image. -/
def loadBytes (react : Reaction) (image : List Byte) (s : Session) : Answer :=
  match s.requireIdle "load a program" with
  | .error e => some (.error e, s)
  | .ok () =>
    match Image.words? image with
    | none => some (.error (.imageLength image.length), s)
    | some program => installNew react s program []

/-- Executes one instruction for the caller. -/
def step (react : Reaction) (s : Session) : Answer :=
  match s.requireIdle "single-step" with
  | .error e => some (.error e, s)
  | .ok () => (advance react .caller s).map fun (r, s) => (r.map .snapshot, s)

/-- Executes instructions for the caller until the program has finished or the limit is reached; the
answer is the last snapshot. -/
def runToCompletion (react : Reaction) (limit : Int) (s : Session) : Answer :=
  match s.requireIdle "run" with
  | .error e => some (.error e, s)
  | .ok () =>
    if s.controller.lost then some (.error .badArgument, s)
    else (complete react limit.toNat s.controller.stored s).map fun (r, s) => (r.map .snapshot, s)

/-- Whether a delay that can be used under the clock is too long to wait for. -/
def checkDelay (s : Session) : Delay → Except Failure Bool
  | .period => if s.controller.clock.period?.isSome then .ok false else .error .overflow
  | .seconds => .ok false
  | .tooLong => .ok true
  | .unusable => .error .badArgument

/-- Starts a background run: the observers are told, then the job is handed to the worker, which takes it up
when its turn has come and not at once. -/
def run (react : Reaction) (delay : Delay) (s : Session) : Answer :=
  match s.requireIdle "start" with
  | .error e => some (.error e, s)
  | .ok () =>
    match s.checkDelay delay with
    | .error e => some (.error e, s)
    | .ok overlong =>
      if s.controller.lost then some (.error .badArgument, s.withController s.controller.running)
      else do
        let c := s.controller.begin
        let s ← notify react .started c.stored (s.withController c)
        return (.ok .done, { s with
          jobs := s.jobs ++ [.pending overlong]
          current := some s.jobs.length })

/-- Waits for the current job to end. -/
def wait (react : Reaction) (turns : Nat) (s : Session) : Answer :=
  match s.current with
  | none => some (.ok (.snapshot s.controller.stored), s)
  | some j => do
    match ← demand react j turns s with
    | (.unfinished, s) => return (.error .unfinished, s)
    | (.ended (some e), s) => return (.error e, s)
    | (.ended none, s) => return (.ok (.snapshot s.controller.stored), s)

/-- The end of a pause: the controller goes idle and the observers are told. -/
def rest (react : Reaction) (s : Session) : Answer :=
  if s.controller.lost then some (.error .badArgument, s.withController s.controller.idle)
  else do
    let c := s.controller.settle
    let s ← notify react .paused c.stored (s.withController c)
    return (.ok (.snapshot c.stored), s)

/-- Stops the current job and goes idle; a job that is itself pausing goes on to the end of its cycle
first, so the simulator stays running. -/
def pause (react : Reaction) (turns : Nat) (s : Session) : Answer :=
  if !s.controller.isRunning then some (.ok (.snapshot s.controller.stored), s)
  else
    let s := s.withController s.controller.requestStop
    match s.current with
    | none => rest react s
    | some j => do
      match ← demand react j turns s with
      | (.unfinished, s) => return (.ok (.snapshot s.controller.stored), s)
      | (.ended (some e), s) => return (.error e, s)
      | (.ended none, s) => rest react { s with current := none }

/-- Pauses if a background run is in progress. -/
def pauseIfRunning (react : Reaction) (turns : Nat) (s : Session) :
    Option (Except Failure Unit × Session) :=
  if s.controller.isRunning then (pause react turns s).map fun (r, s) => (r.map fun _ => (), s)
  else some (.ok (), s)

/-- Stops a background run and puts the program back as it was loaded. -/
def reset (react : Reaction) (turns : Nat) (s : Session) : Answer := do
  match ← pauseIfRunning react turns s with
  | (.error e, s) => return (.error e, s)
  | (.ok (), s) =>
    match s.requireIdle "reset" with
    | .error e => return (.error e, s)
    | .ok () =>
      let c := s.controller
      install react s c.program c.labels .reset fun c => .snapshot c.stored

/-- Stops a background run for good. Closing the pool that takes the jobs is left to `Threads`: here a later
run makes a new one in any case. -/
def shutdown (react : Reaction) (turns : Nat) (s : Session) : Answer :=
  (pauseIfRunning react turns s).map fun (r, s) => (r.map fun _ => .done, s)

/-- The clock that settings ask for: the frequency must be given, and nothing unknown. -/
def clockOf (settings : Value.Entries) : Except Failure Clock :=
  let known := settings.all fun e => Clock.Setting.all.any (.text ·.name = e.1)
  if known && (Value.lookup Clock.Setting.frequency.name settings).isSome then
    (Clock.ofEntries .standard settings).mapError .clock
  else .error .badArgument

/-- Replaces the clock; the counters stay, and the answer is the clock in force at the end. -/
def setClockTo (react : Reaction) (clock : Except Failure Clock) (s : Session) : Answer :=
  match clock with
  | .error e => some (.error e, s)
  | .ok clock => do
    let s ← notify react .clock s.controller.stored (s.withController { s.controller with clock })
    return (.ok (.clock s.controller.clock), s)

/-- The number in a register of the stored snapshot, named by index or name. -/
def register (s : Session) (name : Value) : Except Failure Nat :=
  let registers := s.controller.stored.machine.registers
  let at_ := fun i : Int => match registers.read? i with
    | some w => .ok w.toNat
    | none => .error .badIndex
  match name with
  | .int i => at_ i
  | .bool b => at_ (if b then 1 else 0)
  | .text t =>
    match Assembly.register t.toList with
    | .ok r => .ok (registers.get r).toNat
    | .error e => .error (.assembly e)
  | _ => .error .badName

/-- Changes the machine behind the controller's back; the stored snapshot stays. -/
def withMachine (s : Session) (m : Machine) : Session :=
  s.withController { s.controller with machine := m }

/-- Writes a register by index. -/
def setRegister (s : Session) (index value : Int) : Except Failure Reply × Session :=
  let m := s.controller.machine
  match m.registers.write? index value with
  | some registers => (.ok .done, s.withMachine { m with registers })
  | none => (.error .badIndex, s)

/-- Sets the program counter. -/
def setPc (s : Session) (value : Int) : Session :=
  s.withController { s.controller with
    machine := { s.controller.machine with pc := value }
    shownPc := none }

/-- Performs an access to the memory. -/
def accessMemory (s : Session) (access : Memory.Access) : Except Failure Reply × Session :=
  let m := s.controller.machine
  match m.memory.perform access with
  | .ok (answer, memory) => (.ok (Reply.ofAnswer answer), s.withMachine { m with memory })
  | .error f => (.error (.machine (.memory f)), s)

/-- Answers a call; the calls of observers are left to the reaction. -/
def respond (react : Reaction) (turns : Nat) (call : Call) (s : Session) : Answer :=
  match call with
  | .load source => load react source s
  | .loadWords words => loadWords react words s
  | .loadBytes image => loadBytes react image s
  | .step => step react s
  | .runToCompletion limit => runToCompletion react limit s
  | .run delay => run react delay s
  | .wait => wait react turns s
  | .pause => pause react turns s
  | .reset => reset react turns s
  | .shutdown => shutdown react turns s
  | .setClock settings => setClockTo react (clockOf settings) s
  | .register name => some ((s.register name).map .number, s)
  | .wordAt address => some (.ok (.number (s.controller.stored.wordAt address)), s)
  | .setRegister index value => some (s.setRegister index value)
  | .setPc value => some (.ok .done, s.setPc value)
  | .timeText =>
    let st := s.controller.statistics
    some (.ok (.time st.total (Statistics.timeText st.time)), s)
  | .memory access => some (s.accessMemory access)
  | .mute => some (.ok .done, s.remove .recorder)
  | .subscribe name event turn acts fails =>
    some (.ok .done, s.subscribe name { event, turn, acts, fails })
  | .unsubscribe name => some (.ok .done, s.unsubscribe name)

/-- Performs a call, with bounds on how deep observers call back and on the turns of a job asked for. -/
def perform : Nat → Nat → Reaction
  | 0, _ => fun _ _ => none
  | depth + 1, turns => respond (perform depth turns) turns

/-- A session of a new controller, with the recorder listening or not. -/
def create (controller : Controller) (recorded : Bool) : Session :=
  { controller, listeners := if recorded then [.recorder] else [] }

end Session

end PocketMips.Simulator
