import ShimService.Library.Transition
import ShimService.Session.Store

/-!
`session.manager`: `create_session` with its replacement and orphan repair, the connect to
Salesforce in the same call or in an asynchronous `finish_connection`, `delete_session`, and the
poller's `set_failed`. Each is a process that makes one store request at a time.
-/
namespace ShimService.SessionManager

open CondTable

/-- A running `create_session` call. `count` is the one of its `RetryCounter`. -/
structure Request where
  session : Session
  asyncConnect : Bool
  count : ℕ
  deriving DecidableEq, Repr

/-- Where a process stands, named after what it does next. -/
inductive Proc where
  | idle
  -- `create_session`
  | creating (r : Request)
  | userExists (r : Request)
  | checking (r : Request) (existingSessionId : String)
  | touching (r : Request) (current : Session)
  | updating (r : Request) (copy : Session)
  | fixing (r : Request)
  | replaced (copy : Session)
  | invoking (session : Session)
  | invokeFailed (session : Session) (message : String)
  | failing (copy : Session)
  | connecting (session : Session)
  | committing (session : Session)
  -- `finish_connection`; `tries` counts the attempts its retry decorator has left
  | inFlight (key : SessionKey)
  | loading (key : SessionKey) (tries : ℕ)
  | finishing (session : Session) (tries : ℕ)
  | finishCommitting (session : Session) (tries : ℕ)
  -- `delete_session` and `set_failed`
  | loadingDelete (key : SessionKey)
  | deleting (session : Session)
  | markingFailed (key : SessionKey) (message : String) (pendingEvent : Option ℕ)
  | returned
  | raised
  deriving DecidableEq, Repr

/-- The decorator's `tries` on `finish_connection`. -/
def maxTries : ℕ := 10

/-- The copy of the new session that `__check_replace_session` writes over the current one. -/
def replacement (current session : Session) : Session :=
  { session with key := current.key, stateCounter := current.stateCounter }

/-- The branches of `__check_replace_session` on the session it found. -/
def checkReplaceSession (r : Request) : Option Session → Proc
  | none => .fixing r
  | some current =>
    if current.status = .failed then .fixing r
    else if !current.canReplaceSession r.session then .raised
    else if !current.shouldReplaceSession r.session then
      if r.session.updateTime < current.updateTime + 60 then .returned else .touching r current
    else .updating r (replacement current r.session)

namespace Proc

/-- The session whose row the process reads next, with a consistent read. -/
def reads : Proc → Option SessionKey
  | checking r existingSessionId => some ⟨r.session.key.tenantId, existingSessionId⟩
  | invokeFailed session _ => some session.key
  | loading key _ | loadingDelete key => some key
  | _ => none

/-- How a process goes on with the session it read. -/
def found (session : Option Session) : Proc → Proc
  | checking r _ => checkReplaceSession r session
  | invokeFailed _ message =>
    match session with
    | none => raised
    | some current => failing (current.setFailed message)
  | loading _ tries =>
    match session with
    | none => raised
    | some current =>
      match current.status with
      | .active => returned
      | .failed => raised
      | .pending => finishing current tries
  | loadingDelete _ =>
    match session with
    | none => raised
    | some current => deleting current
  | p => p

/-- How a process goes on with the row of its read, at a clock: a partial one raises a
`KeyError`. -/
def read (now : ℕ) (key : SessionKey) (row : Option SessionItem) (p : Proc) : Proc :=
  match row with
  | none => p.found none
  | some item =>
    match Session.fromRecord now key item with
    | none => raised
    | some session => p.found (some session)

/-- The transaction a process makes next, at a clock and with a sequence number. -/
def op (now seqNo : ℕ) : Proc → Option Op
  | creating r => some (.createSession r.session now seqNo)
  | touching _ current => some (.touchWithEvent current.key current.userId
      current.expirationSeconds .sessionTouched now seqNo)
  | updating _ copy | failing copy => some (.updateSession copy now seqNo)
  | fixing r => some (.fixOrphanedUserSession r.session)
  | committing session | finishCommitting session _ =>
    some (.createSessionContexts session now seqNo)
  | deleting session => some (.deleteSession session seqNo)
  | markingFailed key message pendingEvent => some (.setFailed key message pendingEvent)
  | _ => none

/-- How a process goes on once its transaction has committed. -/
def committed (now : ℕ) : Proc → Proc
  | creating r =>
    if r.asyncConnect then invoking (r.session.expiring now)
    else connecting (r.session.expiring now)
  | updating _ copy => replaced copy
  | fixing r => creating r
  | failing _ => raised
  | _ => returned

/-- An `OptimisticLockException` inside `finish_connection` uses up one attempt. -/
def again (key : SessionKey) (tries : ℕ) : Proc :=
  if tries ≤ 1 then raised else loading key (tries - 1)

/-- How a process goes on when the condition of its transaction's request `index` failed. -/
def refused (now index : ℕ) : Proc → Proc
  | creating r =>
    if index = 1 then userExists { r with session := r.session.expiring now } else raised
  | touching r _ | updating r _ => creating r
  | failing _ => raised
  | committing _ => raised
  | finishCommitting session tries => again session.key tries
  | deleting _ | markingFailed _ _ _ => returned
  | p => p

/-- The session a process is there to connect. -/
def connects : Proc → Option SessionKey
  | invoking session | invokeFailed session _ | failing session | connecting session
  | committing session | finishing session _ | finishCommitting session _ => some session.key
  | inFlight key | loading key _ => some key
  | _ => none

/-- An exception now ends the process instead of starting another attempt. -/
def lastTry : Proc → Bool
  | .failing _ | .committing _ => true
  | .loading _ tries | .finishing _ tries | .finishCommitting _ tries => tries ≤ 1
  | _ => false

end Proc

/-- `owner` is the user each session id was drawn for, and `userVersions` the values a
user-session row has had, any of which an eventually consistent read may return. -/
structure State where
  db : Db
  userVersions : UserKey → List (Option UserSession)
  owner : SessionKey → Option String
  procs : ℕ → Proc

def State.setProc (s : State) (c : ℕ) (p : Proc) : State :=
  { s with procs := Function.update s.procs c p }

def State.setDb (s : State) (db : Db) : State :=
  { s with db := db, userVersions := fun u => db.userSessions u :: s.userVersions u }

section

variable (s : State) (c d : ℕ) (p : Proc) (db : Db)

@[simp] theorem State.setProc_db : (s.setProc c p).db = s.db := rfl
@[simp] theorem State.setProc_owner : (s.setProc c p).owner = s.owner := rfl

@[simp] theorem State.setProc_procs :
    (s.setProc c p).procs d = if d = c then p else s.procs d := by
  simp [State.setProc, Function.update_apply]

@[simp] theorem State.setDb_db : (s.setDb db).db = db := rfl
@[simp] theorem State.setDb_owner : (s.setDb db).owner = s.owner := rfl
@[simp] theorem State.setDb_procs : (s.setDb db).procs = s.procs := rfl

end

/-- `raises` ends a process with an exception at any point, `conflicts` is an
`OptimisticLockException` inside an attempt of `finish_connection`. -/
inductive Act where
  | create (c : ℕ) (session : Session) (asyncConnect : Bool)
  | delete (c : ℕ) (key : SessionKey)
  | setFailed (c : ℕ) (key : SessionKey) (message : String) (pendingEvent : Option ℕ)
  | read (c now : ℕ)
  | findUser (c : ℕ) (row : Option UserSession)
  | commit (c now seqNo : ℕ)
  | connect (c : ℕ)
  | invoke (c j : ℕ)
  | invokeFails (c : ℕ) (message : String)
  | deliver (c : ℕ)
  | returns (c : ℕ)
  | raises (c : ℕ)
  | conflicts (c : ℕ)

/-- One action, or `none` where it is not enabled. `maxRetries` is the configured
`max_create_session_retries`. -/
def step (maxRetries : ℕ) (s : State) : Act → Option State
  -- The controller draws a session id with `uuid()`, never one drawn before.
  | .create c session asyncConnect =>
    if s.procs c = .idle ∧ s.owner session.key = none ∧ session.status = .pending ∧
        session.stateCounter = 1 then
      some ({ s with owner := Function.update s.owner session.key (some session.userId) }.setProc c
        (.creating ⟨session, asyncConnect, 0⟩))
    else none
  | .delete c key => if s.procs c = .idle then some (s.setProc c (.loadingDelete key)) else none
  | .setFailed c key message pendingEvent =>
    if s.procs c = .idle then some (s.setProc c (.markingFailed key message pendingEvent)) else none
  | .read c now =>
    match (s.procs c).reads with
    | some key => some (s.setProc c ((s.procs c).read now key (s.db.sessions key)))
    | none => none
  | .findUser c row =>
    match s.procs c with
    | .userExists r =>
      if row ∈ s.userVersions r.session.userKey then
        match row with
        | some user =>
          if r.count < maxRetries then
            some (s.setProc c (.checking { r with count := r.count + 1 } user.sessionId))
          else some (s.setProc c .raised)
        | none => some (s.setProc c .raised)
      else none
    | _ => none
  | .commit c now seqNo =>
    match (s.procs c).op now seqNo with
    | some op =>
      match op.run s.db with
      | .ok db => some ((s.setDb db).setProc c ((s.procs c).committed now))
      | .error index => some (s.setProc c ((s.procs c).refused now index))
    | none => none
  -- `create_sfdc_session_from_session` returns.
  | .connect c =>
    match s.procs c with
    | .connecting session => some (s.setProc c (.committing session))
    | .finishing session tries => some (s.setProc c (.finishCommitting session tries))
    | _ => none
  | .invoke c j =>
    match s.procs c, s.procs j with
    | .invoking session, .idle => some ((s.setProc j (.inFlight session.key)).setProc c .returned)
    | _, _ => none
  | .invokeFails c message =>
    match s.procs c with
    | .invoking session => some (s.setProc c (.invokeFailed session message))
    | _ => none
  | .deliver c =>
    match s.procs c with
    | .inFlight key => some (s.setProc c (.loading key maxTries))
    | _ => none
  | .returns c =>
    match s.procs c with
    | .replaced _ => some (s.setProc c .returned)
    | _ => none
  | .raises c =>
    match s.procs c with
    | .idle | .inFlight _ | .returned | .raised => none
    | _ => some (s.setProc c .raised)
  | .conflicts c =>
    match s.procs c with
    | .loading key tries => some (s.setProc c (.again key tries))
    | .finishing session tries | .finishCommitting session tries =>
      some (s.setProc c (.again session.key tries))
    | _ => none

/-- Empty tables and no process. -/
def initial : State := ⟨Db.empty, fun _ => [none], fun _ => none, fun _ => .idle⟩

variable {maxRetries : ℕ} {s t : State} {a : Act} {xs : List Act} {d : ℕ}
  {ok : State → Act → Prop}

/-- What a step has found and where it leads, a constructor for each way through `step`. -/
inductive Effect (maxRetries : ℕ) (s : State) : Act → State → Prop where
  | create {c : ℕ} {session : Session} {asyncConnect : Bool} (hidle : s.procs c = .idle)
      (hfresh : s.owner session.key = none) (hstatus : session.status = .pending)
      (hcounter : session.stateCounter = 1) :
      Effect maxRetries s (.create c session asyncConnect)
        ({ s with owner := Function.update s.owner session.key (some session.userId) }.setProc c
          (.creating ⟨session, asyncConnect, 0⟩))
  | delete {c : ℕ} {key : SessionKey} (hidle : s.procs c = .idle) :
      Effect maxRetries s (.delete c key) (s.setProc c (.loadingDelete key))
  | setFailed {c : ℕ} {key : SessionKey} {message : String} {pendingEvent : Option ℕ}
      (hidle : s.procs c = .idle) :
      Effect maxRetries s (.setFailed c key message pendingEvent)
        (s.setProc c (.markingFailed key message pendingEvent))
  | read {c now : ℕ} {key : SessionKey} (hreads : (s.procs c).reads = some key) :
      Effect maxRetries s (.read c now) (s.setProc c ((s.procs c).read now key (s.db.sessions key)))
  | findUser {c : ℕ} {user : UserSession} {r : Request} (hc : s.procs c = .userExists r)
      (hread : some user ∈ s.userVersions r.session.userKey) (hcount : r.count < maxRetries) :
      Effect maxRetries s (.findUser c (some user))
        (s.setProc c (.checking { r with count := r.count + 1 } user.sessionId))
  | givesUp {c : ℕ} {row : Option UserSession} {r : Request} (hc : s.procs c = .userExists r)
      (hread : row ∈ s.userVersions r.session.userKey)
      (hcount : row.isSome → maxRetries ≤ r.count) :
      Effect maxRetries s (.findUser c row) (s.setProc c .raised)
  | committed {c now seqNo : ℕ} {op : Op} {db : Db} (hop : (s.procs c).op now seqNo = some op)
      (hrun : op.run s.db = .ok db) :
      Effect maxRetries s (.commit c now seqNo) ((s.setDb db).setProc c ((s.procs c).committed now))
  | refused {c now seqNo index : ℕ} {op : Op} (hop : (s.procs c).op now seqNo = some op)
      (hrun : op.run s.db = .error index) :
      Effect maxRetries s (.commit c now seqNo) (s.setProc c ((s.procs c).refused now index))
  | connect {c : ℕ} {session : Session} (hc : s.procs c = .connecting session) :
      Effect maxRetries s (.connect c) (s.setProc c (.committing session))
  | finish {c tries : ℕ} {session : Session} (hc : s.procs c = .finishing session tries) :
      Effect maxRetries s (.connect c) (s.setProc c (.finishCommitting session tries))
  | invoke {c j : ℕ} {session : Session} (hc : s.procs c = .invoking session)
      (hj : s.procs j = .idle) :
      Effect maxRetries s (.invoke c j) ((s.setProc j (.inFlight session.key)).setProc c .returned)
  | invokeFails {c : ℕ} {message : String} {session : Session}
      (hc : s.procs c = .invoking session) :
      Effect maxRetries s (.invokeFails c message) (s.setProc c (.invokeFailed session message))
  | deliver {c : ℕ} {key : SessionKey} (hc : s.procs c = .inFlight key) :
      Effect maxRetries s (.deliver c) (s.setProc c (.loading key maxTries))
  | returns {c : ℕ} {copy : Session} (hc : s.procs c = .replaced copy) :
      Effect maxRetries s (.returns c) (s.setProc c .returned)
  | raises {c : ℕ} : Effect maxRetries s (.raises c) (s.setProc c .raised)
  | conflicts {c tries : ℕ} {key : SessionKey} (hconnects : (s.procs c).connects = some key)
      (hlast : tries ≤ 1 → (s.procs c).lastTry = true) :
      Effect maxRetries s (.conflicts c) (s.setProc c (.again key tries))

theorem step_effect (h : step maxRetries s a = some t) : Effect maxRetries s a t := by
  cases a with
  | create c session asyncConnect =>
    simp only [step, Option.ite_none_right_eq_some] at h
    obtain ⟨⟨hidle, hfresh, hstatus, hcounter⟩, h⟩ := h
    obtain rfl := Option.some.inj h
    exact .create hidle hfresh hstatus hcounter
  | delete c key =>
    simp only [step, Option.ite_none_right_eq_some] at h
    obtain ⟨hidle, h⟩ := h
    obtain rfl := Option.some.inj h
    exact .delete hidle
  | setFailed c key message pendingEvent =>
    simp only [step, Option.ite_none_right_eq_some] at h
    obtain ⟨hidle, h⟩ := h
    obtain rfl := Option.some.inj h
    exact .setFailed hidle
  | read c =>
    simp only [step] at h
    split at h <;> cases h
    rename_i key hreads
    exact .read hreads
  | findUser c row =>
    simp only [step] at h
    split at h
    · rename_i r hc
      split at h
      · rename_i hread
        split at h
        · split at h <;> cases h <;> rename_i hcount
          · exact .findUser hc hread hcount
          · exact .givesUp hc hread fun _ => Nat.le_of_not_lt hcount
        · cases h
          exact .givesUp hc hread fun hsome => by cases hsome
      · cases h
    · cases h
  | commit c now seqNo =>
    simp only [step] at h
    split at h
    · rename_i op hop
      split at h <;> cases h <;> rename_i hrun
      · exact .committed hop hrun
      · exact .refused hop hrun
    · cases h
  | connect c =>
    simp only [step] at h
    split at h <;> cases h <;> rename_i hc
    · exact .connect hc
    · exact .finish hc
  | invoke c j =>
    simp only [step] at h
    split at h <;> cases h
    rename_i hc hj
    exact .invoke hc hj
  | invokeFails c message =>
    simp only [step] at h
    split at h <;> cases h
    rename_i hc
    exact .invokeFails hc
  | deliver c =>
    simp only [step] at h
    split at h <;> cases h
    rename_i hc
    exact .deliver hc
  | returns c =>
    simp only [step] at h
    split at h <;> cases h
    rename_i hc
    exact .returns hc
  | raises c =>
    simp only [step] at h
    split at h <;> cases h
    exact .raises
  | conflicts c =>
    simp only [step] at h
    split at h <;> cases h <;> rename_i hc
    all_goals exact .conflicts (by simp [hc, Proc.connects]) (by simp [hc, Proc.lastTry])

end ShimService.SessionManager
