import ShimService.Tenant.Context

/-!
One poll of a tenant's platform events: `PubSubStreamImpl` and the loop of `ProcessorGroup` over
it. `Outcomes` says what the calls outside do, each of which may raise.
-/
namespace ShimService.PlatformEvent

open CondTable TenantContextRepo

variable {ε : Type*}

/-- What becomes of an event in the body of the inner loop. -/
inductive Handling where
  | dispatched
  | decodeRaises
  | dispatchRaises
  deriving DecidableEq, Repr

/-- A `SubscriptionNotification`, its events next to what becomes of them. -/
structure Notification (ε : Type*) where
  events : List (ε × Handling)
  latestReplayId : List ℕ
  deriving DecidableEq, Repr

/-- A request to the store that raises may have been carried out or not. -/
inductive Request where
  | answered
  | lostBefore
  | lostAfter
  deriving DecidableEq, Repr

/-- `records` are what the stream yields before it ends or raises. -/
structure Outcomes (ε : Type*) where
  createChannel : Bool
  createStub : Bool
  subscribe : Bool
  records : List (Notification ε)
  receiveRaises : Bool
  closeChannel : Bool
  patch : Request
  create : Request
  deriving DecidableEq, Repr

/-- The context that `should_poll` finds, or the one it builds. -/
def storedContext (table : Table ℕ TenantContext) (tenantId : ℕ) : TenantContext :=
  (findContext table tenantId).getD defaultContext

inductive ReplayPreset where
  | latest
  | custom
  deriving DecidableEq, Repr

structure FetchRequest where
  replayId : List ℕ
  replayPreset : ReplayPreset
  deriving DecidableEq, Repr

/-- The request of `__fetch`. -/
def fetchRequest (settings : ContextSettings) : FetchRequest :=
  match settings.replayId with
  | none => ⟨[], .latest⟩
  | some replayId => ⟨replayId, .custom⟩

structure PubSubStream where
  context : TenantContext
  settings : ContextSettings
  initialSettings : ContextSettings
  channel : Bool
  deriving DecidableEq, Repr

namespace PubSubStream

def new (context : TenantContext) : PubSubStream := ⟨context, context.data, context.data, false⟩

def submitNext (s : PubSubStream) (replayId : Option (List ℕ)) : PubSubStream :=
  { s with settings := ⟨replayId⟩ }

/-- `__iter__`, with whether it raises. -/
def iter (s : PubSubStream) (o : Outcomes ε) : PubSubStream × Bool :=
  if !o.createChannel then (s, true)
  else ({ s with channel := true }, !(o.createStub && o.subscribe))

end PubSubStream

/-- `received` lists the records with the number of events dispatched of each. -/
structure Progress (ε : Type*) where
  stream : PubSubStream
  received : List (Notification ε × ℕ)
  raised : Bool
  deriving DecidableEq, Repr

/-- The inner loop: how many events it dispatches, and whether it raises. -/
def handleEvents : List (ε × Handling) → ℕ × Bool
  | [] => (0, false)
  | (_, .dispatched) :: rest => ((handleEvents rest).1 + 1, (handleEvents rest).2)
  | (_, .decodeRaises) :: _ | (_, .dispatchRaises) :: _ => (0, true)

/-- The loop over the stream. -/
def receive : List (Notification ε) → Progress ε → Progress ε
  | [], p => p
  | record :: rest, p =>
    let (count, raised) := handleEvents record.events
    let p := { p with received := p.received ++ [(record, count)] }
    if raised then { p with raised := true }
    else receive rest { p with stream := p.stream.submitNext (some record.latestReplayId) }

/-- The table after a request that would have `written` it, and the answer unless it raises. -/
def Request.send (table : Table ℕ TenantContext) (written : Option (Table ℕ TenantContext)) :
    Request → Table ℕ TenantContext × Option Bool
  | .answered => (written.getD table, some written.isSome)
  | .lostBefore => (table, none)
  | .lostAfter => (written.getD table, none)

/-- `set_context_data`, with whether it raises. -/
def setContextData (o : Outcomes ε) (table : Table ℕ TenantContext) (tenantId : ℕ)
    (context : TenantContext) (data : ContextSettings) : Table ℕ TenantContext × Bool :=
  let newContext := { context with data := data }
  match o.patch.send table (patchContext table tenantId newContext) with
  | (table, none) => (table, true)
  | (table, some true) => (table, false)
  | (table, some false) =>
    let (table, answer) := o.create.send table (createContext table tenantId newContext)
    -- A refused `create` is the `OptimisticLockException`.
    (table, answer != some true)

def PubSubStream.close (s : PubSubStream) (o : Outcomes ε) (table : Table ℕ TenantContext)
    (tenantId : ℕ) : Table ℕ TenantContext × Bool :=
  if s.channel && !o.closeChannel then (table, true)
  else if s.settings ≠ s.initialSettings then
    setContextData o table tenantId s.context s.settings
  else (table, false)

/-- The body of the `with` block. -/
def innerPoll (o : Outcomes ε) (context : TenantContext) : Progress ε :=
  let (stream, raised) := (PubSubStream.new context).iter o
  if raised then ⟨stream, [], true⟩
  else
    let p := receive o.records ⟨stream, [], false⟩
    { p with raised := p.raised || o.receiveRaises }

structure PollResult (ε : Type*) where
  table : Table ℕ TenantContext
  received : List (Notification ε × ℕ)
  raised : Bool

/-- `poll` with the stream that `should_poll` has made. -/
def poll (o : Outcomes ε) (table : Table ℕ TenantContext) (tenantId : ℕ) : PollResult ε :=
  let p := innerPoll o (storedContext table tenantId)
  let (table, raised) := p.stream.close o table tenantId
  ⟨table, p.received, p.raised || raised⟩

end ShimService.PlatformEvent
