import ShimService.Library.Transition
import ShimService.Paging.CountOnly
import ShimService.Session.Store

/-!
`table_listener.processor` on the stream of the session table, `AwsPendingTenantEventRepo` and the
platform-event poller, as processes that make one store request at a time. The one event type is
X1440_POLL, so a pending tenant event is stored under its tenant.
-/
namespace ShimService.TenantPoll

open CondTable

structure PendingTenantEvent where
  orgId : String
  accessToken : String
  instanceUrl : String
  eventTime : ℕ
  activeAt : ℕ
  stateCounter : ℕ
  deriving DecidableEq, Repr

/-- A record of the session table's stream, whose view type is NEW_IMAGE. -/
inductive StreamRecord where
  | insert (key : SessionKey) (newImage : SessionItem)
  | modify (key : SessionKey) (newImage : SessionItem)
  | remove (key : SessionKey)

structure ReconstructedSession where
  tenantId : ℕ
  orgId : String
  accessToken : String
  instanceUrl : String
  deriving DecidableEq, Repr

/-- `ReconstructedSession(row)`, or `none` for its `KeyError`. -/
def ReconstructedSession.ofImage (key : SessionKey) (newImage : SessionItem) :
    Option ReconstructedSession := do
  let orgId ← newImage.orgId
  let accessToken ← newImage.accessToken
  let instanceUrl ← newImage.instanceUrl
  return ⟨key.tenantId, orgId, accessToken, instanceUrl⟩

def hasX1440Platform (image : SessionItem) : Bool := image.platformChannels "x1440"

/-- The session that `local_filter` reconstructs from a record. -/
def newSession : StreamRecord → Option ReconstructedSession
  | .insert key newImage =>
    if hasX1440Platform newImage then ReconstructedSession.ofImage key newImage else none
  | _ => none

/-- `new_sessions[session.tenant_id] = session`. -/
def putSession (session : ReconstructedSession) :
    List ReconstructedSession → List ReconstructedSession
  | [] => [session]
  | other :: rest =>
    if other.tenantId = session.tenantId then session :: rest else other :: putSession session rest

def newSessions (sessions : List ReconstructedSession) : List ReconstructedSession :=
  sessions.foldl (fun known session => putSession session known) []

/-- The `PendingTenantEvent` of `PendingEventHandler.process`. -/
def ReconstructedSession.event (session : ReconstructedSession) (now : ℕ) : PendingTenantEvent :=
  ⟨session.orgId, session.accessToken, session.instanceUrl, now, now, 0⟩

/-- Where `PendingEventHandler.process` stands in its loop. -/
inductive Stage where
  | next
  | finding (tenantId : ℕ) (entry : PendingTenantEvent) (tries : ℕ)
  | writing (tenantId : ℕ) (entry : PendingTenantEvent) (tries : ℕ)
      (current : Option PendingTenantEvent)
  deriving DecidableEq, Repr

/-- An invocation of the listener: the numbers of its batch's records with the sessions they
insert, and the sessions to come. -/
structure Invocation where
  batch : List (ℕ × ReconstructedSession)
  todo : List ReconstructedSession
  errors : Bool
  stage : Stage
  deriving DecidableEq, Repr

/-- A poller's worker with its copy of the event. -/
inductive Poller where
  | idle
  | queried (tenantId : ℕ) (event : PendingTenantEvent)
  | claimed (tenantId : ℕ) (event : PendingTenantEvent)
  | deleting (tenantId : ℕ) (event : PendingTenantEvent)
  | polling (tenantId : ℕ) (event : PendingTenantEvent)
  deriving DecidableEq, Repr

/-- `unprocessed` is false of the records whose sessions have their event, and of those that an
invocation has acknowledged. -/
structure State where
  db : Db
  stream : List StreamRecord
  unprocessed : ℕ → Bool
  events : Table ℕ PendingTenantEvent
  listeners : ℕ → Option Invocation
  pollers : ℕ → Poller

def State.setListener (s : State) (c : ℕ) (i : Option Invocation) : State :=
  { s with listeners := Function.update s.listeners c i }

def State.setPoller (s : State) (p : ℕ) (w : Poller) : State :=
  { s with pollers := Function.update s.pollers p w }

/-- `tries` of the retry decorator on `update_or_create`. -/
def maxTries : ℕ := 10

/-- `update_or_create` after its read. -/
def updateOrCreate (events : Table ℕ PendingTenantEvent) (tenantId : ℕ)
    (entry : PendingTenantEvent) : Option PendingTenantEvent → Option (Table ℕ PendingTenantEvent)
  | none => AbstractAwsRepo.create events tenantId entry
  | some current =>
    AbstractAwsRepo.patchWithCondition events tenantId (·.stateCounter) current.stateCounter
      ({ · with stateCounter := entry.stateCounter + 1, accessToken := entry.accessToken })

def updateActionTime (events : Table ℕ PendingTenantEvent) (tenantId : ℕ)
    (event : PendingTenantEvent) (newActionAt : ℕ) : Option (Table ℕ PendingTenantEvent) :=
  AbstractAwsRepo.patchWithCondition events tenantId (·.activeAt) event.activeAt
    ({ · with activeAt := newActionAt })

def deleteEvent (events : Table ℕ PendingTenantEvent) (tenantId : ℕ)
    (event : PendingTenantEvent) : Option (Table ℕ PendingTenantEvent) :=
  AbstractAwsRepo.deleteWithCondition events tenantId (·.stateCounter) event.stateCounter

/-- `has_sessions_with_platform_channel_type` by its first page of the tenant's rows, and whether
more pages follow; `none` is its exception. -/
def hasSessionsWithPlatformChannelType (db : Db) (tenantId : ℕ) (page : List SessionKey)
    (more : Bool) : Option Bool :=
  Paging.firstPageAnswer (page.countP fun key => key.tenantId = tenantId &&
    (db.sessions key).any fun r => Paging.channelFilter "x1440" (key, r)) more

/-- The session row an operation writes. -/
def sessionKey : Op → Option SessionKey
  | .createSession session _ _ | .updateSession session _ _ | .createSessionContexts session _ _
  | .deleteSession session _ => some session.key
  | .touchWithEvent key _ _ _ _ _ | .setFailed key _ _ => some key
  | .fixOrphanedUserSession _ => none

/-- The stream record of a change to a row. -/
def streamRecord (key : SessionKey) : Option SessionItem → Option SessionItem → Option StreamRecord
  | none, some newImage => some (.insert key newImage)
  | some _, some newImage => some (.modify key newImage)
  | some _, none => some (.remove key)
  | none, none => none

inductive Act where
  | commit (op : Op)
  | receive (c : ℕ) (records : List ℕ)
  | start (c now : ℕ)
  | find (c : ℕ)
  | write (c : ℕ)
  | fails (c : ℕ)
  | acknowledge (c : ℕ)
  | stop (c : ℕ)
  | query (p tenantId : ℕ)
  | updateActionTime (p newActionAt : ℕ)
  | check (p : ℕ) (page : List SessionKey) (more : Bool)
  | delete (p : ℕ)
  | quit (p : ℕ)

namespace Invocation

/-- A refused write starts another attempt, or ends in an exception that `process` notes. -/
def refused (i : Invocation) (tenantId : ℕ) (entry : PendingTenantEvent) (tries : ℕ) : Invocation :=
  if tries ≤ 1 then { i with stage := .next, errors := true }
  else { i with stage := .finding tenantId entry (tries - 1) }

/-- The record of this number inserts a session of the tenant. -/
def covers (i : Invocation) (tenantId record : ℕ) : Bool :=
  i.batch.any fun (number, session) => number = record && session.tenantId = tenantId

end Invocation

def step (s : State) : Act → Option State
  | .commit op =>
    match op.run s.db with
    | .ok db => some { s with
        db := db
        stream := s.stream ++ ((sessionKey op).bind fun key =>
          streamRecord key (s.db.sessions key) (db.sessions key)).toList }
    | .error _ => none
  -- Any records, so also ones delivered before.
  | .receive c records =>
    if s.listeners c = none then
      let batch := records.filterMap fun number =>
        ((s.stream[number]?).bind newSession).map (number, ·)
      some (s.setListener c (some ⟨batch, newSessions (batch.map Prod.snd), false, .next⟩))
    else none
  | .start c now =>
    match s.listeners c with
    | some ⟨batch, session :: todo, errors, .next⟩ =>
      some (s.setListener c
        (some ⟨batch, todo, errors, .finding session.tenantId (session.event now) maxTries⟩))
    | _ => none
  | .find c =>
    match s.listeners c with
    | some ⟨batch, todo, errors, .finding tenantId entry tries⟩ =>
      some (s.setListener c (some ⟨batch, todo, errors,
        .writing tenantId entry tries (AbstractAwsRepo.find s.events tenantId)⟩))
    | _ => none
  | .write c =>
    match s.listeners c with
    | some ⟨batch, todo, errors, .writing tenantId entry tries current⟩ =>
      let i : Invocation := ⟨batch, todo, errors, .next⟩
      match updateOrCreate s.events tenantId entry current with
      | some events => some ({ s with
          events := events
          unprocessed := fun record => s.unprocessed record && !i.covers tenantId record
        }.setListener c (some i))
      | none => some (s.setListener c (some (i.refused tenantId entry tries)))
    | _ => none
  | .fails c =>
    match s.listeners c with
    | some i => some (s.setListener c (some { i with stage := .next, errors := true }))
    | none => none
  -- `join` returns after 30 seconds whether or not the thread is done.
  | .acknowledge c =>
    match s.listeners c with
    | some i =>
      if i.errors then none
      else some { s with
        unprocessed := fun record => s.unprocessed record && !i.batch.any (·.1 = record) }
    | none => none
  | .stop c => some (s.setListener c none)
  | .query p tenantId =>
    match s.pollers p, s.events tenantId with
    | .idle, some event => some (s.setPoller p (.queried tenantId event))
    | _, _ => none
  | .updateActionTime p newActionAt =>
    match s.pollers p with
    | .queried tenantId event =>
      match updateActionTime s.events tenantId event newActionAt with
      | some events => some ({ s with events := events }.setPoller p
          (.claimed tenantId { event with activeAt := newActionAt }))
      | none => some (s.setPoller p .idle)
    | .polling tenantId event =>
      match updateActionTime s.events tenantId event newActionAt with
      | some events => some ({ s with events := events }.setPoller p .idle)
      | none => some (s.setPoller p .idle)
    | _ => none
  | .check p page more =>
    match s.pollers p with
    | .claimed tenantId event =>
      match hasSessionsWithPlatformChannelType s.db tenantId page more with
      | some true => some (s.setPoller p (.polling tenantId event))
      | some false => some (s.setPoller p (.deleting tenantId event))
      | none => some (s.setPoller p .idle)
    | _ => none
  | .delete p =>
    match s.pollers p with
    | .deleting tenantId event =>
      match deleteEvent s.events tenantId event with
      | some events => some ({ s with events := events }.setPoller p .idle)
      | none => some (s.setPoller p .idle)
    | _ => none
  | .quit p => some (s.setPoller p .idle)

def initial : State :=
  ⟨Db.empty, [], fun _ => true, fun _ => none, fun _ => none, fun _ => .idle⟩

end ShimService.TenantPoll
