import ShimService.Library.OrderedDict
import ShimService.Sequence.ExecuteWithEvent
import ShimService.Session.Store
import ShimService.Web.Parameters

/-!
The requests of `_OmniChannelApi` on work. What Salesforce has answered is stored as an event of
the session, and `AwsWorkIdRepo` listens for accepted work, which it maps from its target to its id
in the same transaction.
-/
namespace ShimService.WorkIdMapRepo

open CondTable ExecuteWithEvent Web
open Auth (LambdaHttpException)

/-- What an event's data has under a key. -/
inductive Datum where
  | text (value : String)
  | number (value : ℕ)
  deriving DecidableEq, Repr

abbrev EventData := OrderedDict String Datum

/-- `event_data[key]` where a string is stored under the key. -/
def text (eventData : EventData) (key : String) : Option String :=
  match eventData.find key with
  | some (.text value) => some value
  | _ => none

/-- The row of a work target, with the `expireTime` its patch adds. -/
structure WorkIdMap where
  userId : String
  workId : String
  sessionId : String
  expireTime : ℕ
  deriving DecidableEq, Repr

abbrev WorkTable := Table (ℕ × String) WorkIdMap

/-- `eventData` is that attribute of the rows of `db.events`. -/
structure Tables where
  db : Db
  eventData : Table (ℕ × ℕ) EventData
  works : WorkTable

/-! ### `WorkIdMapRepo` and `AwsWorkIdRepo` -/

def notFoundException (resource : String) : LambdaHttpException :=
  ⟨404, "Resource Not Found" ++ (if resource = "" then "" else ": " ++ resource)⟩

def getWorkId (works : WorkTable) (tenantId : ℕ) (userId workTargetId : String) (inPath : Bool) :
    Except CodedException String :=
  match works (tenantId, workTargetId) with
  | none =>
    if inPath then .error (.uncoded (notFoundException "Unable to find specified workTargetId."))
    else .error (invalidParameterException "workTargetId"
      "Unable to find workId for given workTargetId")
  | some w =>
    if w.userId ≠ userId then
      .error (invalidParameterException "workTargetId"
        "workTargetId is not owned by the given user.")
    else .ok w.workId

def createPutItemRequestFromEvent (ttlSeconds now tenantId : ℕ) (eventData : EventData) :
    Option (Request Tables) := do
  let userId ← text eventData "userId"
  let workId ← text eventData "workId"
  let workTargetId ← text eventData "workTargetId"
  let sessionId ← text eventData "sessionId"
  let entry : WorkIdMap := ⟨userId, workId, sessionId, getSystemTimeInSeconds now + ttlSeconds⟩
  some fun t => some { t with
    works := t.works.upsert (tenantId, workTargetId) entry fun row => { row with
      workId := entry.workId, userId := entry.userId, sessionId := entry.sessionId,
      expireTime := entry.expireTime } }

/-- What `examine_event` collects from the only listener there is, or `none` for its
`KeyError`. -/
def eventReceived (ttlSeconds now tenantId : ℕ) (eventType : EventType) (eventData : EventData) :
    Option (List (Request Tables)) :=
  if eventType = .workAccepted then
    (createPutItemRequestFromEvent ttlSeconds now tenantId eventData).map fun request => [request]
  else some []

/-! ### The requests -/

/-- The `SfdcSession` that an api is loaded for. -/
structure SfdcSession where
  key : SessionKey
  userId : String
  expirationSeconds : ℕ
  deriving DecidableEq, Repr

/-- `setPresenceStatus` has found the status it is asked for. -/
inductive Action where
  | acceptWork (workId workTargetId : String)
  | declineWork (workId workTargetId : String) (declineReason : Option String)
  | closeWork (workTargetId : String)
  | sendWorkMessage (workTargetId messageId : String)
  | setPresenceStatus (statusOption : String)
  deriving DecidableEq, Repr

structure ApiCall where
  session : SfdcSession
  action : Action
  deriving DecidableEq, Repr

def Action.eventType : Action → EventType
  | .acceptWork _ _ => .workAccepted
  | .declineWork _ _ _ => .workDeclined
  | .closeWork _ => .workClosed
  | .sendWorkMessage _ _ => .messageSent
  | .setPresenceStatus _ => .presenceStatusSet

def workData (workId workTargetId : String) : EventData :=
  (OrderedDict.empty.set "workId" (.text workId)).set "workTargetId" (.text workTargetId)

/-- `foundWorkId` is what `get_work_id` has returned, for the actions that ask. -/
def Action.eventData (foundWorkId : String) : Action → EventData
  | .acceptWork workId workTargetId => workData workId workTargetId
  | .declineWork workId workTargetId none => workData workId workTargetId
  | .declineWork workId workTargetId (some declineReason) =>
    (workData workId workTargetId).set "declineReason" (.text declineReason)
  | .closeWork workTargetId => workData foundWorkId workTargetId
  | .sendWorkMessage _ messageId => OrderedDict.empty.set "messageId" (.text messageId)
  | .setPresenceStatus statusOption => OrderedDict.empty.set "status" (.text statusOption)

/-- The target whose work id an action looks up. -/
def Action.looksUp : Action → Option String
  | .closeWork workTargetId | .sendWorkMessage workTargetId _ => some workTargetId
  | _ => none

/-- The posts of `close_work` before the request that is stored, each with its `workId`. -/
def Action.posts (foundWorkId : String) : Action → List (String × String)
  | .closeWork workTargetId =>
    if "a17".toList.isPrefixOf workTargetId.toList then [] else
      [("rest/Conversational/ConversationEnd", workTargetId),
        ("rest/Presence/StartAfterConversationWork", foundWorkId)]
  | _ => []

/-- What `send_web_request_with_event` adds to the data of its event. -/
def answered (session : SfdcSession) (sfdcResponse sfdcTime : ℕ) (eventData : EventData) :
    EventData :=
  (((eventData.set "userId" (.text session.userId)).set "sessionId"
    (.text session.key.sessionId)).set "sfdcResponse" (.number sfdcResponse)).set "sfdcTime"
    (.number sfdcTime)

/-- What `touch_with_event` adds to it. -/
def touched (session : SfdcSession) (eventData : EventData) : EventData :=
  (eventData.set "sessionId" (.text session.key.sessionId)).set "userId" (.text session.userId)

def onDb (write : Db.Write) : Request Tables := fun t =>
  (write t.db).map fun db => { t with db := db }

def putEvent (tenantId seqNo : ℕ) (event : Event) (eventData : EventData) : Request Tables :=
  fun t => (Db.putEvent tenantId seqNo event t.db).map fun db =>
    { t with
      db := db
      eventData := Function.update t.eventData (tenantId, seqNo) (some eventData) }

def ApiCall.event (call : ApiCall) : Event :=
  ⟨call.action.eventType, call.session.key.sessionId, call.session.userId⟩

/-- `touch_with_event` at a clock of `now` milliseconds. -/
def ApiCall.touch (ttlSeconds now : ℕ) (call : ApiCall) (eventData : EventData) :
    EventCall Tables :=
  let key := call.session.key
  let expirationTime := getSystemTimeInSeconds now + call.session.expirationSeconds
  { tenantId := key.tenantId
    maxLockSeconds := 30
    requestList :=
      [onDb (Db.patchSession key (fun _ => true) { expireTime := some (some expirationTime) }),
        onDb (Db.touchUserSession ⟨key.tenantId, call.session.userId⟩ expirationTime),
        onDb (Db.touchSfdcSession key expirationTime)]
    putEvent := fun seqNo => putEvent key.tenantId seqNo call.event eventData
    additionalRequests :=
      (eventReceived ttlSeconds now key.tenantId call.action.eventType eventData).getD [] }

/-! ### Their runs -/

/-- An exception of a look-up, of a request to Salesforce with its status if it was answered, of
the listener, or of the event's transaction. -/
inductive Failure where
  | lookUp (ex : CodedException)
  | sfdc (status : Option ℕ)
  | keyError
  | store
  deriving DecidableEq

/-- Where a call stands. `eventData` is without what the answer adds until it is `storing`, and a
call that is over keeps what it has wanted to store. -/
inductive Phase where
  | ready
  | posting (posts : List (String × String)) (eventData : EventData)
  | requesting (eventData : EventData)
  | storing (eventData : EventData) (now sfdcResponse : ℕ)
  | finished (eventData : Option EventData) (result : Except Failure Unit)

/-- `versions` are the tables of work there have been before, the latest first. -/
structure State where
  events : ExecuteWithEvent.State Tables
  phases : ℕ → Phase
  versions : List WorkTable

def State.works (s : State) : WorkTable := s.events.store.works

def State.setPhase (s : State) (c : ℕ) (phase : Phase) : State :=
  { s with phases := Function.update s.phases c phase }

/-- A look-up reads one of the tables there have been, as a read that is not consistent may:
`version` counts back from the latest. -/
inductive Act where
  | begin (c version : ℕ)
  | post (c : ℕ) (raises : Bool)
  | answer (c : ℕ) (status : Option ℕ) (millis : ℕ)
  | events (a : ExecuteWithEvent.Act Tables)
  | finish (c : ℕ)

/-- The call whose event an action is a step of. -/
def eventCall : ExecuteWithEvent.Act Tables → Option ℕ
  | .seq (.tick _) | .other _ => none
  | .seq (.find c) | .seq (.stamp c) | .seq (.check c) | .seq (.take c) | .seq (.callback c _)
  | .seq (.release c) | .transact c _ => some c

section

variable (ttlSeconds : ℕ) (calls : ℕ → ApiCall)

def Phase.isStoring : Phase → Bool
  | .storing _ _ _ => true
  | _ => false

/-- What the calls that store their event ask of the repository. -/
def State.touches (s : State) (c : ℕ) : EventCall Tables :=
  match s.phases c with
  | .storing eventData now _ => (calls c).touch ttlSeconds now eventData
  | _ => ⟨(calls c).session.key.tenantId, 30, [], fun _ => some, []⟩

/-- A call's phase once it has its work id, if it needs one. -/
def proceed (action : Action) (foundWorkId : String) : Phase :=
  match action.posts foundWorkId with
  | [] => .requesting (action.eventData foundWorkId)
  | posts => .posting posts (action.eventData foundWorkId)

/-- How `send_web_request_with_event` ends once the event has been tried. A refused transaction is
only logged. -/
def ending (sfdcResponse : ℕ) : ExecuteWithEvent.Result → Except Failure Unit
  | .outcome (.returned _) => if sfdcResponse < 400 then .ok () else .error (.sfdc sfdcResponse)
  | .outcome .raised | .optimisticLock => .error .store

def step (s : State) : Act → Option State
  | .begin c version =>
    match s.phases c with
    | .ready =>
      let call := calls c
      match call.action.looksUp with
      | none => some (s.setPhase c (proceed call.action ""))
      | some workTargetId =>
        (s.works :: s.versions)[version]?.map fun works =>
          match getWorkId works call.session.key.tenantId call.session.userId workTargetId
            false with
          | .ok workId => s.setPhase c (proceed call.action workId)
          | .error ex => s.setPhase c (.finished none (.error (.lookUp ex)))
    | _ => none
  | .post c raises =>
    match s.phases c with
    | .posting (_ :: posts) eventData =>
      some (s.setPhase c (
        if raises then .finished none (.error (.sfdc none))
        else if posts.isEmpty then .requesting eventData
        else .posting posts eventData))
    | _ => none
  | .answer c status millis =>
    match s.phases c with
    | .requesting eventData =>
      match status with
      | none => some (s.setPhase c (.finished none (.error (.sfdc none))))
      | some status =>
        let call := calls c
        let eventData := touched call.session (answered call.session status millis eventData)
        let now := s.events.seq.clock
        match eventReceived ttlSeconds now call.session.key.tenantId call.action.eventType
          eventData with
        | none => some (s.setPhase c (.finished none (.error .keyError)))
        | some _ => some (s.setPhase c (.storing eventData now status))
    | _ => none
  | .events a =>
    if (eventCall a).all fun c => (s.phases c).isStoring then
      (ExecuteWithEvent.step (s.touches ttlSeconds calls) s.events a).map fun events =>
        { s with events := events, versions := s.works :: s.versions }
    else none
  | .finish c =>
    match s.phases c, s.events.results c with
    | .storing eventData _ sfdcResponse, some result =>
      some (s.setPhase c (.finished (some eventData) (ending sfdcResponse result)))
    | _, _ => none

/-- No call has begun, and no work has been accepted. -/
def initial (clock : ℕ) (table : Table SequenceRepo.SeqKey SequenceRepo.Sequence) (db : Db) :
    State :=
  ⟨ExecuteWithEvent.initial clock table ⟨db, fun _ => none, fun _ => none⟩, fun _ => .ready, []⟩

end

end ShimService.WorkIdMapRepo
