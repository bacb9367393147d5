import ShimService.Repo
import ShimService.Session.Session

/-!
The tables behind a session and the operations of `AwsSessionsRepo` and `AwsSessionContextsRepo`
on them. `execute_with_event` adds a put of the event under the sequence number it was handed.
-/
namespace ShimService

open CondTable

/-- A `UserSession` row with the `expireTime` its put adds. -/
structure UserSession where
  sessionId : String
  fcmDeviceToken : Option String
  timeCreated : ℕ
  expireTime : ℕ
  deriving DecidableEq, Repr

inductive EventType where
  | sessionCreated
  | sessionActivated
  | sessionUpdated
  | sessionTouched
  | sessionDeleted
  | pushNotification
  | presenceStatusSet
  | workAccepted
  | workDeclined
  | workClosed
  | messageSent
  deriving DecidableEq, Repr

structure Event where
  eventType : EventType
  sessionId : String
  userId : String
  deriving DecidableEq, Repr

/-- Items no condition looks into are stored as the user or the time their row is about. -/
structure Db where
  sessions : Table SessionKey SessionItem
  userSessions : Table UserKey UserSession
  sfdcSessions : Table SessionKey ℕ
  contexts : Table (SessionKey × ContextType) String
  pendingEvents : Table (ℕ × SessionKey) String
  events : Table (ℕ × ℕ) Event

namespace Db

def empty : Db := ⟨fun _ => none, fun _ => none, fun _ => none, fun _ => none, fun _ => none,
  fun _ => none⟩

/-- One request of a transaction. -/
abbrev Write := Db → Option Db

section

variable (k : SessionKey) (u : UserKey)

def putSession (item : SessionItem) : Write := fun db =>
  (db.sessions.putNew k item).map fun t => { db with sessions := t }

/-- A patch of the session item where it exists and meets `cond`. -/
def patchSession (cond : SessionItem → Bool) (patch : SessionItem) : Write := fun db =>
  (db.sessions.patchIf k cond (·.set patch)).map fun t => { db with sessions := t }

/-- A patch with `must_exist=False`. -/
def upsertSession (patch : SessionItem) : Write := fun db =>
  some { db with sessions := db.sessions.upsert k {} (·.set patch) }

def removeSession : Write := fun db =>
  (db.sessions.removeIf k fun _ => true).map fun t => { db with sessions := t }

def putUserSession (row : UserSession) : Write := fun db =>
  (db.userSessions.putNew u row).map fun t => { db with userSessions := t }

def touchUserSession (expireTime : ℕ) : Write := fun db =>
  (db.userSessions.patchIf u (fun _ => true) ({ · with expireTime := expireTime })).map fun t =>
    { db with userSessions := t }

def removeUserSession : Write := fun db =>
  some { db with userSessions := db.userSessions.remove u }

def putSfdcSession (expireTime : ℕ) : Write := fun db =>
  (db.sfdcSessions.putNew k expireTime).map fun t => { db with sfdcSessions := t }

def touchSfdcSession (expireTime : ℕ) : Write := fun db =>
  (db.sfdcSessions.patchIf k (fun _ => true) fun _ => expireTime).map fun t =>
    { db with sfdcSessions := t }

def putContext (type : ContextType) (userId : String) : Write := fun db =>
  (db.contexts.putNew (k, type) userId).map fun t => { db with contexts := t }

def removeContext (type : ContextType) : Write := fun db =>
  some { db with contexts := db.contexts.remove (k, type) }

def putPendingEvent (activeAt : ℕ) (userId : String) : Write := fun db =>
  (db.pendingEvents.putNew (activeAt, k) userId).map fun t => { db with pendingEvents := t }

def removePendingEvent (activeAt : ℕ) : Write := fun db =>
  some { db with pendingEvents := db.pendingEvents.remove (activeAt, k) }

def putEvent (tenantId seqNo : ℕ) (event : Event) : Write := fun db =>
  (db.events.putNew (tenantId, seqNo) event).map fun t => { db with events := t }

end

/-- A write that leaves both the session and the user-session table as they are. -/
def Aside (w : Write) : Prop := ∀ db db', w db = some db' →
  db'.sessions = db.sessions ∧ db'.userSessions = db.userSessions

end Db

open Db

/-- An operation of the two repositories with its arguments, the clock in milliseconds and the
sequence number its event gets. -/
inductive Op where
  | createSession (session : Session) (now seqNo : ℕ)
  | updateSession (session : Session) (now seqNo : ℕ)
  | touchWithEvent (key : SessionKey) (userId : String) (expirationSeconds : ℕ)
      (eventType : EventType) (now seqNo : ℕ)
  | createSessionContexts (session : Session) (now seqNo : ℕ)
  | setFailed (key : SessionKey) (message : String) (pendingEvent : Option ℕ)
  | deleteSession (session : Session) (seqNo : ℕ)
  | fixOrphanedUserSession (session : Session)

/-- `request.session` with the `expiration_time` that `create_session` sets. -/
def Session.expiring (session : Session) (now : ℕ) : Session :=
  { session with
    expirationTime := some (getSystemTimeInSeconds now + session.expirationSeconds) }

def Session.toUserSession (session : Session) (expireTime : ℕ) : UserSession :=
  ⟨session.key.sessionId, session.fcmDeviceToken, session.timeCreated, expireTime⟩

/-- The patch of `create_update_with_state_check_request`. -/
def Session.statePatch (session : Session) (patch : SessionItem) (now : ℕ) : SessionItem :=
  { patch with stateCounter := some (session.stateCounter + 1), updateTime := some now }

/-- The condition of `create_update_with_state_check_request`. -/
def Session.stateCheck (session : Session) (stored : SessionItem) : Bool :=
  stored.stateCounter = some session.stateCounter

def Session.hasLiveAgentPolling (session : Session) : Bool :=
  session.channelPlatformTypes.contains "omni"

/-- The requests of `__construct_create_requests`. -/
def constructCreateRequests (session : Session) (now : ℕ) : List Write :=
  let polling := session.hasLiveAgentPolling
  [putContext session.key .web session.userId, putContext session.key .pushNotifier session.userId]
    ++ (if polling then [putContext session.key .liveAgent session.userId] else [])
    ++ [putSfdcSession session.key (getSystemTimeInSeconds now + session.expirationSeconds),
        patchSession session.key session.stateCheck
          (session.statePatch { sessionStatus := some .active } now)]
    ++ (if polling then [putPendingEvent session.key now session.userId] else [])

/-- The requests of an operation's transaction, in order. -/
def Op.requests : Op → List Write
  | .createSession session now seqNo =>
    let expireTime := getSystemTimeInSeconds now + session.expirationSeconds
    [putSession session.key (session.expiring now).toRecord,
      putUserSession session.userKey (session.toUserSession expireTime),
      putEvent session.key.tenantId seqNo
        ⟨.sessionCreated, session.key.sessionId, session.userId⟩]
  | .updateSession session now seqNo =>
    [patchSession session.key session.stateCheck (session.statePatch session.toRecord now),
      putEvent session.key.tenantId seqNo
        ⟨.sessionUpdated, session.key.sessionId, session.userId⟩]
  | .touchWithEvent key userId expirationSeconds eventType now seqNo =>
    let expirationTime := getSystemTimeInSeconds now + expirationSeconds
    [patchSession key (fun _ => true) { expireTime := some (some expirationTime) },
      touchUserSession ⟨key.tenantId, userId⟩ expirationTime,
      touchSfdcSession key expirationTime,
      putEvent key.tenantId seqNo ⟨eventType, key.sessionId, userId⟩]
  | .createSessionContexts session now seqNo =>
    constructCreateRequests session now ++
      [putEvent session.key.tenantId seqNo
        ⟨.sessionActivated, session.key.sessionId, session.userId⟩]
  -- The session's patch has `must_exist=False`, and there is no event.
  | .setFailed key message pendingEvent =>
    [upsertSession key { sessionStatus := some .failed, failureMessage := some message },
      removeContext key .web, removeContext key .liveAgent, removeContext key .pushNotifier]
      ++ (pendingEvent.map (removePendingEvent key)).toList
  | .deleteSession session seqNo =>
    [removeSession session.key, removeUserSession session.userKey,
      putEvent session.key.tenantId seqNo
        ⟨.sessionDeleted, session.key.sessionId, session.userId⟩]
  -- A batch write, which has no conditions.
  | .fixOrphanedUserSession session => [removeUserSession session.userKey]

/-- The state after an operation, or the index of the first request whose condition failed. -/
def Op.run (op : Op) (db : Db) : Except ℕ Db := transact op.requests db

namespace Db

variable {db db' : Db} {w : Write} {ws : List Write}

theorem aside_map {α : Type} (f : Db → Option α) (g : Db → α → Db)
    (hg : ∀ db a, (g db a).sessions = db.sessions ∧ (g db a).userSessions = db.userSessions) :
    Aside fun db => (f db).map (g db) := by
  intro db db' h
  obtain ⟨a, _, rfl⟩ := Option.map_eq_some_iff.mp h
  exact hg db a

theorem aside_putEvent (tenantId seqNo : ℕ) (event : Event) :
    Aside (putEvent tenantId seqNo event) := aside_map _ _ fun _ _ => ⟨rfl, rfl⟩

theorem aside_putSfdcSession (k : SessionKey) (expireTime : ℕ) :
    Aside (putSfdcSession k expireTime) := aside_map _ _ fun _ _ => ⟨rfl, rfl⟩

theorem aside_touchSfdcSession (k : SessionKey) (expireTime : ℕ) :
    Aside (touchSfdcSession k expireTime) := aside_map _ _ fun _ _ => ⟨rfl, rfl⟩

theorem aside_putContext (k : SessionKey) (type : ContextType) (userId : String) :
    Aside (putContext k type userId) := aside_map _ _ fun _ _ => ⟨rfl, rfl⟩

theorem aside_putPendingEvent (k : SessionKey) (activeAt : ℕ) (userId : String) :
    Aside (putPendingEvent k activeAt userId) := aside_map _ _ fun _ _ => ⟨rfl, rfl⟩

theorem aside_removePendingEvent (k : SessionKey) (activeAt : ℕ) :
    Aside (removePendingEvent k activeAt) := by
  rintro db _ ⟨⟩
  exact ⟨rfl, rfl⟩

theorem transact_aside (hw : ∀ w ∈ ws, Aside w) (h : transact ws db = .ok db') :
    db'.sessions = db.sessions ∧ db'.userSessions = db.userSessions :=
  ⟨transact_keeps (fun w hmem s t hst => (hw w hmem s t hst).1) h,
    transact_keeps (fun w hmem s t hst => (hw w hmem s t hst).2) h⟩

theorem patchSession_eq_some {k : SessionKey} {cond : SessionItem → Bool} {patch : SessionItem} :
    patchSession k cond patch db = some db' ↔ ∃ r, db.sessions k = some r ∧ cond r = true ∧
      db' = { db with sessions := Function.update db.sessions k (some (r.set patch)) } := by
  simp only [patchSession, Option.map_eq_some_iff, Table.patchIf_eq_some]
  grind

end Db

section

variable {db db' : Db} {session : Session} {key : SessionKey} {now seqNo : ℕ}

/-- What each operation does to the session table and to the user-session table. -/
theorem createSession_ok (h : (Op.createSession session now seqNo).run db = .ok db') :
    db.sessions session.key = none ∧ db.userSessions session.userKey = none ∧
      db'.sessions = Function.update db.sessions session.key
        (some (session.expiring now).toRecord) ∧
      db'.userSessions = Function.update db.userSessions session.userKey
        (some (session.toUserSession
          (getSystemTimeInSeconds now + session.expirationSeconds))) := by
  simp only [Op.run, Op.requests, transact_cons_ok, transact_nil_ok, putSession, putUserSession,
    Option.map_eq_some_iff, Table.putNew_eq_some] at h
  obtain ⟨_, ⟨_, ⟨hs, rfl⟩, rfl⟩, _, ⟨_, ⟨hu, rfl⟩, rfl⟩, d, he, rfl⟩ := h
  obtain ⟨h1, h2⟩ := aside_putEvent _ _ _ _ _ he
  exact ⟨hs, hu, h1, h2⟩

theorem updateSession_ok (h : (Op.updateSession session now seqNo).run db = .ok db') :
    ∃ r, db.sessions session.key = some r ∧ session.stateCheck r = true ∧
      db'.sessions = Function.update db.sessions session.key
        (some (r.set (session.statePatch session.toRecord now))) ∧
      db'.userSessions = db.userSessions := by
  simp only [Op.run, Op.requests, transact_cons_ok, transact_nil_ok, patchSession_eq_some] at h
  obtain ⟨_, ⟨r, hr, hc, rfl⟩, _, he, rfl⟩ := h
  obtain ⟨h1, h2⟩ := aside_putEvent _ _ _ _ _ he
  exact ⟨r, hr, hc, h1, h2⟩

theorem touchWithEvent_ok {userId : String} {expirationSeconds : ℕ} {type : EventType}
    (h : (Op.touchWithEvent key userId expirationSeconds type now seqNo).run db = .ok db') :
    ∃ r v, db.sessions key = some r ∧ db.userSessions ⟨key.tenantId, userId⟩ = some v ∧
      db'.sessions = Function.update db.sessions key (some (r.set
        { expireTime := some (some (getSystemTimeInSeconds now + expirationSeconds)) })) ∧
      db'.userSessions = Function.update db.userSessions ⟨key.tenantId, userId⟩
        (some { v with expireTime := getSystemTimeInSeconds now + expirationSeconds }) := by
  simp only [Op.run, Op.requests, transact_cons_ok, transact_nil_ok, patchSession_eq_some,
    touchUserSession, Option.map_eq_some_iff, Table.patchIf_eq_some] at h
  obtain ⟨_, ⟨r, hr, _, rfl⟩, _, ⟨_, ⟨v, hv, _, rfl⟩, rfl⟩, _, hf, _, he, rfl⟩ := h
  obtain ⟨h1, h2⟩ := aside_putEvent _ _ _ _ _ he
  obtain ⟨h3, h4⟩ := aside_touchSfdcSession _ _ _ _ hf
  exact ⟨r, v, hr, hv, h1.trans h3, h2.trans h4⟩

theorem createSessionContexts_ok
    (h : (Op.createSessionContexts session now seqNo).run db = .ok db') : ∃ r,
      db.sessions session.key = some r ∧ session.stateCheck r = true ∧
      db'.sessions = Function.update db.sessions session.key
        (some (r.set (session.statePatch { sessionStatus := some .active } now))) ∧
      db'.userSessions = db.userSessions := by
  simp only [Op.run, Op.requests, constructCreateRequests, List.append_assoc, List.cons_append,
    List.nil_append, transact_append, transact_cons_ok, transact_nil_ok,
    patchSession_eq_some] at h
  obtain ⟨d1, h1, d2, h2, d3, h3, d4, h4, d5, ⟨r, hr, hc, rfl⟩, d6, h6, d7, h7, rfl⟩ := h
  have e1 := aside_putContext _ _ _ _ _ h1
  have e2 := aside_putContext _ _ _ _ _ h2
  have e3 := transact_aside (fun w hw => by
    split at hw <;> simp at hw
    exact hw ▸ aside_putContext _ _ _) h3
  have e4 := aside_putSfdcSession _ _ _ _ h4
  have e6 := transact_aside (fun w hw => by
    split at hw <;> simp at hw
    exact hw ▸ aside_putPendingEvent _ _ _) h6
  have e7 := aside_putEvent _ _ _ _ _ h7
  have hsess : d4.sessions = db.sessions := by rw [e4.1, e3.1, e2.1, e1.1]
  have huser : d4.userSessions = db.userSessions := by rw [e4.2, e3.2, e2.2, e1.2]
  refine ⟨r, hsess ▸ hr, hc, ?_, ?_⟩
  · rw [e7.1, e6.1, ← hsess]
  · rw [e7.2, e6.2, ← huser]

theorem setFailed_ok {message : String} {pendingEvent : Option ℕ}
    (h : (Op.setFailed key message pendingEvent).run db = .ok db') :
    db'.sessions = db.sessions.upsert key {} (·.set
        { sessionStatus := some .failed, failureMessage := some message }) ∧
      db'.userSessions = db.userSessions := by
  simp only [Op.run, Op.requests, List.cons_append, List.nil_append, transact_cons_ok] at h
  obtain ⟨_, ⟨⟩, _, ⟨⟩, _, ⟨⟩, _, ⟨⟩, hrest⟩ := h
  refine transact_aside (fun w hw => ?_) hrest
  obtain ⟨activeAt, _, rfl⟩ := Option.map_eq_some_iff.mp (Option.mem_toList.mp hw)
  exact aside_removePendingEvent _ _

theorem deleteSession_ok (h : (Op.deleteSession session seqNo).run db = .ok db') :
    db'.sessions = Function.update db.sessions session.key none ∧
      db'.userSessions = db.userSessions.remove session.userKey := by
  simp only [Op.run, Op.requests, transact_cons_ok, transact_nil_ok, removeSession,
    Option.map_eq_some_iff, Table.removeIf_eq_some] at h
  obtain ⟨_, ⟨_, ⟨_, _, _, rfl⟩, rfl⟩, _, ⟨⟩, _, he, rfl⟩ := h
  exact aside_putEvent _ _ _ _ _ he

theorem fixOrphanedUserSession_ok (h : (Op.fixOrphanedUserSession session).run db = .ok db') :
    db'.sessions = db.sessions ∧
      db'.userSessions = db.userSessions.remove session.userKey := by
  simp only [Op.run, Op.requests, transact_cons_ok, transact_nil_ok] at h
  obtain ⟨_, ⟨⟩, rfl⟩ := h
  exact ⟨rfl, rfl⟩

end

end ShimService
