import PocketMips.Simulator.Report
import PocketMips.Simulator.Session
import PocketMips.Text.Encoding
import PocketMips.Value.Json
import PocketMips.Web.Route

/-!
A simulator behind web requests: every route makes one call to a session, and the answer shows the state
after it or the error that the call met. A state that cannot be shown is an error as well, though the call
has been made.
-/
namespace PocketMips.Web

open Number Simulator Text

/-- What has come with a request. -/
inductive Body
  /-- Nothing that has a value. -/
  | absent
  | value (v : Value)
  /-- A text in which lists and maps lie too deep in one another. -/
  | tooDeep

/-- A request and what has come with it. -/
structure Request where
  method : String
  address : Address
  body : Body := .absent

/-- A response; without a body it holds nothing that a client reads. -/
structure Response where
  status : Nat
  body : Option Value := none

/-- Whether a content type is that of values. -/
def isValueType (contentType : String) : Bool :=
  let type := fold (trim (cut ';' contentType.toList).1)
  let ends := fun w : String => w.toList.isSuffixOf type
  type = "application/json".toList || ("application/".toList.isPrefixOf type && ends "+json")

/-- How deep lists and maps of a body may lie in one another. -/
def maxDepth : Nat := 970

/-- The body of a text; its bytes are read in the encoding that they show. -/
def Body.ofText (text : List Char) : Body :=
  let bytes := utf8 text
  match ((Encoding.ofBytes bytes).decode? bytes).map (Value.Json.parse maxDepth) with
  | some (.ok v) => .value v
  | some (.error .tooDeep) => .tooDeep
  | some (.error .malformed) | none => .absent

/-- The body of a content type. -/
def Body.ofType (contentType : String) (body : Body) : Body :=
  if isValueType contentType then body else .absent

/-! ## Errors -/

/-- Why a request is refused. -/
inductive Error
  | simulator (e : Failure)
  /-- The body lies too deep in itself. -/
  | tooDeep
  /-- The request has no program text. -/
  | noProgram
  | badWord (e : LiteralError)
  | badDelay (text : List Char)

def Error.message : Error → String
  | simulator e => e.message
  | tooDeep => ""
  | noProgram => "request body must contain a 'program' string"
  | badWord e => e.message
  | badDelay text => "could not convert string to float: " ++ String.ofList (quoted text)

/-- The class of a failure that clients are told of. -/
def failureKind? : Failure → Option String
  | .busy _ => some "SimulatorStateError"
  | .assembly (.rejected _ _) => some "ParseError"
  | .machine (.memory (.outOfRange ..)) | .flagged _ (.memory (.outOfRange ..)) =>
    some "AddressOutOfRange"
  | .machine (.unsupported ..) | .flagged _ (.unsupported ..) => some "UnsupportedInstruction"
  | .assembly (.literal _) | .noHexadecimal | .tooLong | .imageLength _ | .clock _ =>
    some "ValueError"
  | .machine (.memory .unbacked) | .flagged _ (.memory .unbacked) => none
  | .overflow | .badIndex | .badArgument | .badName | .unfinished => none

/-- The class of an error that clients are told of. -/
def Error.kind? : Error → Option String
  | simulator e => failureKind? e
  | tooDeep => none
  | noProgram | badWord _ | badDelay _ => some "ValueError"

/-- Whether a failure is that of a call at the wrong time. -/
def isConflict : Error → Bool
  | .simulator (.busy _) => true
  | _ => false

/-- The response to an error. One without a class is a fault of the server. -/
def refusal (e : Error) : Response :=
  match e.kind? with
  | none => { status := 500 }
  | some kind =>
    { status := if isConflict e then 409 else 400
      body := some (.map [("error", .text e.message), ("type", .text kind)]) }

/-! ## Reading requests -/

/-- The entries of a request; an empty value counts as none. -/
def entries : Body → Except Error Value.Entries
  | .absent => .ok []
  | .tooDeep => .error .tooDeep
  | .value v =>
    if v.isEmpty then .ok []
    else
      match v with
      | .map es => .ok es
      | _ => .error (.simulator .badName)

/-- The program text of a request. -/
def programOf (es : Value.Entries) : Except Error (List Char) :=
  match Value.lookup "program" es with
  | some (.text t) => .ok t.toList
  | _ => .error .noProgram

/-- The items of a value: those of a list, the characters of a text, or the keys of a map. -/
def itemsOf : Value → Except Error (List Value)
  | .list vs => .ok vs
  | .text t => .ok (t.toList.map fun c => .text (String.ofList [c]))
  | .map es => .ok (es.map fun e => e.1.value)
  | _ => .error (.simulator .badArgument)

/-- A word of machine code: a number, or anything else whose text is a literal. -/
def wordOf : Value → Except Error Int
  | .int i => .ok i
  | .bool b => .ok (if b then 1 else 0)
  | v => (literal .byMark v.plain).mapError .badWord

/-- The call that a load request makes. -/
def loadOf (es : Value.Entries) : Except Error Call :=
  match Value.lookup "words" es with
  | some v => do
    let items ← itemsOf v
    return .loadWords (← items.mapM wordOf)
  | none => (programOf es).map fun text => .load (.text text)

/-- The delay of a run request, which is read as a floating-point number. -/
def delayOf (es : Value.Entries) : Except Error Delay :=
  match (Value.lookup "delay" es).getD .null with
  | .null => .ok .period
  | .bool _ => .ok .seconds
  | .float x => .ok (.ofFloat x)
  | .int i =>
    match Binary64.ofInt? i with
    | some x => .ok (.ofFloat x)
    | none => .error (.simulator .overflow)
  | .text t =>
    match floatLiteral? t.toList with
    | some x => .ok (.ofFloat x)
    | none => .error (.badDelay t.toList)
  | .time _ | .list _ | .map _ => .error (.simulator .badArgument)

/-- The clock settings of a request over those in force. -/
def clockSettings (current : Clock) (es : Value.Entries) : Value.Entries :=
  Clock.Setting.all.map fun s =>
    (.text s.name, (Value.lookup s.name es).getD (.int (current.get s)))

/-! ## Responses -/

/-- Words in hexadecimal. -/
def hexWords (ws : List Word) : Value := .list (ws.map fun w => .text (hexWord w.toNat))

/-- What belongs to the state besides the snapshot. -/
def besides (c : Controller) : Value.Entries := [
  ("clock", .map c.clock.entries),
  ("execution_time_text", .text (Statistics.timeText c.statistics.time))]

/-- A snapshot with what else belongs to it. -/
def shown (s : Session) (snapshot : Snapshot) (extra : Value.Entries) : Value :=
  .map (snapshot.entries ++ besides s.controller ++ extra)

/-- The response that shows a snapshot, or that an integer of it is too long to be written. -/
def stateOf (s : Session) (snapshot : Snapshot) (extra : Value.Entries) : Response :=
  let state := shown s snapshot extra
  if state.isShowable then { status := 200, body := some state }
  else refusal (.simulator .tooLong)

/-- What a load adds to the state. -/
def loaded (s : Session) (ws : List Word) : Value.Entries := [
  ("words", hexWords ws),
  ("labels", .map (s.controller.labels.map fun (name, a) =>
    (.text (String.ofList name), s.controller.label a)))]

/-- The response to the answer of a call. -/
def responseTo (s : Session) : Except Failure Reply → Response
  | .ok (.snapshot p) => stateOf s p []
  | .ok (.words ws) => stateOf s s.controller.stored (loaded s ws)
  | .ok _ => stateOf s s.controller.stored []
  | .error e => refusal (.simulator e)

/-- Makes a call, unless the request does not describe one. -/
def make (react : Reaction) (call : Except Error Call) (s : Session) : Option (Response × Session) :=
  match call with
  | .error e => some (refusal e, s)
  | .ok call => do
    let (r, s) ← react call s
    return (responseTo s r, s)

/-- The response to an assembly request. -/
def assembled (s : Session) (text : List Char) : Response :=
  match s.assemble (.text text) with
  | .error e => refusal (.simulator e)
  | .ok (_, ws) =>
    { status := 200
      body := some (.map [
        ("words", hexWords ws),
        ("listing", .list (ws.map fun w => .text (String.ofList (Instruction.disassemble w))))]) }

/-! ## Requests -/

/-- What a request to a route comes to. -/
def handle (react : Reaction) (route : Route) (body : Body) (s : Session) :
    Option (Response × Session) :=
  match route with
  | .state => some (stateOf s s.controller.stored [], s)
  | .assemble =>
    match (entries body).bind programOf with
    | .error e => some (refusal e, s)
    | .ok text => some (assembled s text, s)
  | .load => make react ((entries body).bind loadOf) s
  | .step => make react (.ok .step) s
  | .run => make react (((entries body).bind delayOf).map .run) s
  | .pause => make react (.ok .pause) s
  | .reset => make react (.ok .reset) s
  | .clock =>
    make react ((entries body).map fun es => .setClock (clockSettings s.controller.clock es)) s

/-- Answers a request, if the simulator answers the call that it makes. -/
def respond (react : Reaction) (request : Request) (s : Session) : Option (Response × Session) :=
  let method := request.method.toUpper
  match Routing.of request.address method with
  | .nowhere => some ({ status := 404 }, s)
  | .wrongMethod => some ({ status := 405 }, s)
  | .noSocket => some ({ status := 400 }, s)
  | .redirected => some ({ status := 308 }, s)
  | .reached .file => some ({ status := if method = "OPTIONS" then 200 else 404 }, s)
  | .reached (.route route) =>
    if method = route.method then handle react route request.body s else some ({ status := 200 }, s)

end PocketMips.Web
