import ShimService.Library.Program
import ShimService.Web.InvokeApi
import ShimService.Web.PathMatching

/-!
The router: the table of routes that the controllers add to when they are loaded, and what is done
with a request.
-/
namespace ShimService.Web.Router

open Auth (LambdaHttpException)
open Web.Path (names isVariable matchTemplate)

inductive Method where
  | get
  | post
  | patch
  | put
  | delete
  deriving DecidableEq, Repr

namespace Method

def name : Method → String
  | get => "GET"
  | post => "POST"
  | patch => "PATCH"
  | put => "PUT"
  | delete => "DELETE"

def bodyAllowed (self : Method) : Bool := self = post || self = patch || self = put

end Method

/-- The arguments of `Resource.route`, with the decorated function and the body transformer told by
their names. The response codes are not used. -/
structure RouteArgs where
  path : String
  method : Method
  caller : String
  includeRequest : Bool := false
  sessionRequired : Bool := false
  apiRequired : Bool := false
  noInstance : Bool := false
  bodyTransformer : Option String := none
  deriving DecidableEq, Repr

/-- The path that the router is given for a route of a resource. -/
def resourceRoute (rootUrl resourceName : String) (args : RouteArgs) : RouteArgs :=
  { args with path := joinPaths [joinBasePath [rootUrl, resourceName], args.path] false }

/-- A `Route`. -/
structure Entry where
  args : RouteArgs
  hasQueryParams : Bool
  matchPath : Path

inductive AddError where
  | assertion (message : String)
  | path (error : PathError)
  deriving DecidableEq

/-- The constructor of `Route`. -/
def Entry.init (args : RouteArgs) : Except PathError Entry :=
  let hasQueryParams := args.path.toList.getLast? = some '?'
  let path := if hasQueryParams then String.ofList args.path.toList.dropLast else args.path
  (Path.init path).map fun matchPath => ⟨{ args with path }, hasQueryParams, matchPath⟩

abbrev Table := OrderedDict String Entry

def RouteArgs.key (args : RouteArgs) : String := args.method.name ++ ":" ++ args.path

def addRoute (routes : Table) (args : RouteArgs) : Except AddError Table :=
  if args.key ∈ routes.keys then
    .error (.assertion (args.key ++ " route has already been added."))
  else if args.bodyTransformer.isSome && !args.method.bodyAllowed then
    .error (.assertion ("Body is not allowed for method " ++ args.method.name))
  else
    match Entry.init args with
    | .ok entry => .ok (routes.set args.key entry)
    | .error e => .error (.path e)

/-- The controllers are loaded one after the other. -/
def addRoutes : List RouteArgs → Table → Except AddError Table
  | [], routes => .ok routes
  | args :: rest, routes =>
    match addRoute routes args with
    | .ok routes => addRoutes rest routes
    | .error e => .error e

variable (replace : List UInt8 → String)

/-- The first of the entries that the path matches. -/
def firstMatch (path : String) (parts : List String) :
    List Entry → Except PathError (Option (Entry × OrderedDict String String))
  | [] => .ok none
  | r :: routes =>
    match r.matchPath.matchesPath replace path (some parts) with
    | .error e => .error e
    | .ok (some v) => .ok (some (r, v))
    | .ok none => firstMatch path parts routes

def Table.values (routes : Table) : List Entry := routes.entries.map Prod.snd

def findRoute (routes : Table) (path : String) : Except PathError (Option Entry) :=
  (firstMatch replace path (splitPath path) routes.values).map (Option.map Prod.fst)

def findFullRoute (routes : Table) (path method : String) :
    Except PathError (Option (Entry × OrderedDict String String)) :=
  firstMatch replace path (splitPath path)
    (routes.values.filter fun r => r.args.method.name = method)

/-- What is done for a request by others: the authenticator, and the `invoke` of a route. -/
inductive Call where
  | authenticate (route : RouteArgs)
  | invoke (route : RouteArgs) (params : OrderedDict String String)

/-- The world, and the calls that have been made. -/
structure State (ω : Type) where
  world : ω
  calls : List Call

variable {ω ρ : Type}

def call (c : Call) (x : Outside ω ρ) : Program (State ω) Failure ρ := fun s =>
  let (result, world) := x s.world
  (result, ⟨world, s.calls ++ [c]⟩)

def notFoundException : LambdaHttpException := ⟨404, "Resource Not Found"⟩

def methodNotAllowedException : LambdaHttpException := ⟨415, "Method not allowed"⟩

open Program (raise)

/-- `process`, over what `authenticate` and the `invoke` of the route come to. -/
def process (routes : Table) (path method : String) (authenticate : RouteArgs → Outside ω Unit)
    (invoke : RouteArgs → OrderedDict String String → Outside ω ρ) :
    Program (State ω) Failure ρ :=
  match findFullRoute replace routes path method with
  | .error _ => raise (.other "KeyError")
  | .ok none =>
    match findRoute replace routes path with
    | .error _ => raise (.other "KeyError")
    | .ok none => raise (.lambdaHttp notFoundException none)
    | .ok (some _) => raise (.lambdaHttp methodNotAllowedException none)
  | .ok (some (route, params)) => do
    call (.authenticate route.args) (authenticate route.args)
    call (.invoke route.args params) (invoke route.args params)

/-! ### The controllers -/

def root : String := "/shim-service/"

/-- `web_sessions`. -/
def webSessions : List RouteArgs :=
  [{ path := "", method := .put, caller := "start_session" },
    { path := "{sessionToken}/actions/keep-alive", method := .post, caller := "keepalive",
      includeRequest := true },
    { path := "{sessionToken}", method := .delete, caller := "end_session",
      includeRequest := true }].map (resourceRoute root "organizations/{orgId}/sessions")

/-- A route of `web_presence` or `web_conversations`. -/
def apiRoute (path caller bodyTransformer : String) : RouteArgs :=
  { path, method := .post, caller, apiRequired := true, noInstance := true,
    bodyTransformer := some bodyTransformer }

def webPresence : List RouteArgs :=
  [apiRoute "set-status" "set_presence_status" "SetPresenceBody",
    apiRoute "accept-work" "accept_work" "AcceptWorkBody",
    apiRoute "decline-work" "decline_work" "DeclineWorkBody",
    apiRoute "close-work" "close_work" "CloseWorkBody"].map
      (resourceRoute root "presence/actions")

def webConversations : List RouteArgs :=
  [apiRoute "work-conversations/{workTargetId}/messages" "send_work_message" "MessageBody"].map
    (resourceRoute root "")

/-- In the order in which `bean.loaders.web` imports them. -/
def controllers : List RouteArgs := webSessions ++ webPresence ++ webConversations

end ShimService.Web.Router
