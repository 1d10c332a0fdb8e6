import PocketMips.Web.Address

/-!
The routes of requests: what a path leads to, the methods that are answered there, and paths that lead
somewhere once pairs of slashes in them are made one.
-/
namespace PocketMips.Web

/-- The calls that requests can make. -/
inductive Route
  | state | assemble | load | step | run | pause | reset | clock
  deriving DecidableEq, Repr

namespace Route

def all : List Route := [state, assemble, load, step, run, pause, reset, clock]

def name : Route → String
  | state => "state"
  | assemble => "assemble"
  | load => "load"
  | step => "step"
  | run => "run"
  | pause => "pause"
  | reset => "reset"
  | clock => "clock"

/-- The method of a route. -/
def method : Route → String
  | state => "GET"
  | _ => "POST"

end Route

/-- What a path leads to. -/
inductive Target
  | route (r : Route)
  /-- A file to show; there are none. -/
  | file
  deriving DecidableEq, Repr

namespace Target

/-- The methods that are answered. -/
def methods : Target → List String
  | route r => if r.method = "GET" then ["GET", "HEAD", "OPTIONS"] else [r.method, "OPTIONS"]
  | file => ["GET", "HEAD", "OPTIONS"]

/-- Where the paths of files start. -/
def fileStart : List Char := "/static/".toList

/-- Whether a text is the path of a file: it starts with no slash and has no line end behind its start. -/
def isFile : List Char → Bool
  | [] => false
  | c :: rest => c ≠ '/' && !rest.contains '\n'

/-- What a path leads to. -/
def ofPath? (path : List Char) : Option Target :=
  match Route.all.find? fun r => '/' :: r.name.toList = path with
  | some r => some (.route r)
  | none =>
    if fileStart.isPrefixOf path && isFile (path.drop fileStart.length) then some .file else none

end Target

/-- A path with every pair of slashes made one. -/
def mergeSlashes : List Char → List Char
  | [] => []
  | '/' :: '/' :: rest => '/' :: mergeSlashes rest
  | c :: rest => c :: mergeSlashes rest

/-- What becomes of a request by its address and method. -/
inductive Routing
  | reached (t : Target)
  /-- Another path leads there. -/
  | redirected
  | wrongMethod
  /-- What is there is not served by sockets. -/
  | noSocket
  | nowhere
  deriving DecidableEq, Repr

/-- What becomes of a request that finds something. -/
def Routing.ofTarget (a : Address) (method : String) (t : Target) (found : Routing) : Routing :=
  if !t.methods.contains method then .wrongMethod
  else if a.isSocket then .noSocket
  else found

/-- What becomes of a request. -/
def Routing.of (a : Address) (method : String) : Routing :=
  match Target.ofPath? a.path, Target.ofPath? (mergeSlashes a.path) with
  | some t, _ => ofTarget a method t (.reached t)
  | none, some t => ofTarget a method t .redirected
  | none, none => .nowhere

end PocketMips.Web
