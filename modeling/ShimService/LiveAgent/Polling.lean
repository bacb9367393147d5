import ShimService.Session.Store

/-!
Live-agent polling: sessions are activated with a pending event each, and workers take the events
one at a time, poll, and put them off or drop them. A worker's locks are left out, so any number
of workers may have the same event at once, and a worker may stop anywhere.
-/
namespace ShimService.LiveAgentPoll

open CondTable Db

/-- A `PendingEvent` of type `LIVE_AGENT_POLL` as a worker has it. -/
structure PendingEvent where
  activeAt : ℕ
  key : SessionKey
  userId : String
  deriving DecidableEq, Repr

/-- The delete of `update_action_time`, which has `must_exist=True`. -/
def takePendingEvent (event : PendingEvent) : Write := fun db =>
  (db.pendingEvents.removeIf (event.activeAt, event.key) fun _ => true).map fun t =>
    { db with pendingEvents := t }

/-- The store and the worker's event afterwards. The due time is part of the key, so the row is
deleted and put again; where it would stay the same, the store refuses two requests on one item. -/
def updateActionTime (event : PendingEvent) (now secondsInFuture : ℕ) (db : Db) :
    Option (Db × PendingEvent) :=
  let newActionAt := now + secondsInFuture * 1000
  if newActionAt = event.activeAt then none
  else
    match transact [takePendingEvent event, putPendingEvent event.key newActionAt event.userId] db
      with
    | .ok db => some (db, { event with activeAt := newActionAt })
    | .error _ => none

/-- `delete_event` has no condition. -/
def deleteEvent (event : PendingEvent) (db : Db) : Db :=
  { db with pendingEvents := db.pendingEvents.remove (event.activeAt, event.key) }

/-- The items of `load_data_and_context` that have been read so far, each with a read of its
own. -/
structure Reads where
  session : Option (Option SessionItem) := none
  sfdc : Option (Option ℕ) := none
  context : Option (Option String) := none

/-- Where a worker stands with the event it has. -/
inductive Worker where
  | idle
  | found (event : PendingEvent)
  | reading (event : PendingEvent) (reads : Reads)
  | gone (event : PendingEvent)
  | polling (event : PendingEvent)
  | saving (event : PendingEvent)
  | rescheduling (event : PendingEvent)
  | shutDown (event : PendingEvent)
  | dropping (event : PendingEvent)
  | failing (event : PendingEvent) (message : String)

/-- The event of a worker whose poll may still raise. -/
def Worker.inPoll : Worker → Option PendingEvent
  | .polling event | .saving event | .shutDown event | .dropping event => some event
  | _ => none

/-- `load_with_context` once everything has been read: an item is missing, the session is not
ACTIVE and that is an exception, or the session is to be polled. -/
def shouldPoll (event : PendingEvent) : Reads → Option Worker
  | ⟨some session, some sfdc, some context⟩ =>
    match session, sfdc, context with
    | some item, some _, some _ =>
      some (if item.sessionStatus = some .active then .polling event else .idle)
    | _, _, _ => some (.gone event)
  | _ => none

/-- `created` lists the keys that sessions have been created under. -/
structure State where
  db : Db
  created : List SessionKey
  clients : ℕ → Option Session
  workers : ℕ → Worker

/-- Clients connect and delete sessions, workers poll; `now` is the clock that a step reads. -/
inductive Act where
  | createSession (session : Session) (now seqNo : ℕ)
  | getSession (c now : ℕ) (key : SessionKey)
  | createSessionContexts (c now seqNo : ℕ)
  | deleteSession (session : Session) (seqNo : ℕ)
  | queryEvent (w : ℕ) (event : PendingEvent)
  | lock (w now refreshSeconds : ℕ)
  | readSession (w : ℕ)
  | readSfdc (w : ℕ)
  | readContext (w : ℕ)
  | shouldPoll (w : ℕ)
  | deleteGone (w : ℕ)
  | poll (w : ℕ) (shutdown : Bool)
  | updateSessionContext (w : ℕ)
  | reschedule (w now : ℕ)
  | setFailed (w : ℕ)
  | deleteShutDown (w : ℕ)
  | raise (w : ℕ) (message : String)
  | stop (w : ℕ)

namespace State

/-- An operation that the store refuses changes nothing. -/
def run (s : State) (op : Op) : State :=
  match op.run s.db with
  | .ok db => { s with db := db }
  | .error _ => s

def setWorker (s : State) (w : ℕ) (worker : Worker) : State :=
  { s with workers := Function.update s.workers w worker }

end State

def step (s : State) : Act → Option State
  | .createSession session now seqNo =>
    -- A session id is never used twice.
    if session.status = .pending ∧ session.key ∉ s.created then
      some { s.run (.createSession session now seqNo) with created := session.key :: s.created }
    else none
  | .getSession c now key =>
    match (s.db.sessions key).bind (Session.fromRecord now key) with
    | some session =>
      -- An ACTIVE session is left alone, and a FAILED one is an exception.
      if session.status = .pending then
        some { s with clients := Function.update s.clients c (some session) }
      else none
    | none => none
  | .createSessionContexts c now seqNo =>
    (s.clients c).map fun session => s.run (.createSessionContexts session now seqNo)
  | .deleteSession session seqNo => some (s.run (.deleteSession session seqNo))
  | .queryEvent w event =>
    match s.workers w with
    | .idle =>
      if s.db.pendingEvents (event.activeAt, event.key) = some event.userId then
        some (s.setWorker w (.found event))
      else none
    | _ => none
  | .lock w now refreshSeconds =>
    match s.workers w with
    | .found event =>
      match updateActionTime event now refreshSeconds s.db with
      | some (db, event) => some ({ s with db := db }.setWorker w (.reading event {}))
      | none => some (s.setWorker w .idle)
    | _ => none
  | .readSession w =>
    match s.workers w with
    | .reading event reads => some (s.setWorker w
        (.reading event { reads with session := some (s.db.sessions event.key) }))
    | _ => none
  | .readSfdc w =>
    match s.workers w with
    | .reading event reads => some (s.setWorker w
        (.reading event { reads with sfdc := some (s.db.sfdcSessions event.key) }))
    | _ => none
  | .readContext w =>
    match s.workers w with
    | .reading event reads => some (s.setWorker w
        (.reading event { reads with context := some (s.db.contexts (event.key, .liveAgent)) }))
    | _ => none
  | .shouldPoll w =>
    match s.workers w with
    | .reading event reads => (shouldPoll event reads).map (s.setWorker w)
    | _ => none
  | .deleteGone w =>
    match s.workers w with
    | .gone event => some ({ s with db := deleteEvent event s.db }.setWorker w .idle)
    | _ => none
  | .poll w shutdown =>
    match s.workers w with
    | .polling event =>
      some (s.setWorker w (if shutdown then .shutDown event else .saving event))
    | _ => none
  | .updateSessionContext w =>
    -- A patch of a context that must exist: the data it changes is read by no condition.
    match s.workers w with
    | .saving event => some (s.setWorker w (.rescheduling event))
    | _ => none
  | .reschedule w now =>
    match s.workers w with
    | .rescheduling event =>
      match updateActionTime event now 0 s.db with
      | some (db, _) => some ({ s with db := db }.setWorker w .idle)
      | none => some (s.setWorker w .idle)
    | _ => none
  | .setFailed w =>
    match s.workers w with
    | .shutDown event =>
      some ((s.run (.setFailed event.key "Polling was shutdown." none)).setWorker w
        (.dropping event))
    | .failing event message =>
      some ((s.run (.setFailed event.key message none)).setWorker w .idle)
    | _ => none
  | .deleteShutDown w =>
    match s.workers w with
    | .dropping event => some ({ s with db := deleteEvent event s.db }.setWorker w .idle)
    | _ => none
  | .raise w message =>
    (s.workers w).inPoll.map fun event => s.setWorker w (.failing event message)
  | .stop w => some (s.setWorker w .idle)

def initial : State := ⟨Db.empty, [], fun _ => none, fun _ => .idle⟩

end ShimService.LiveAgentPoll
