import Mathlib.Data.Nat.Basic

/-! `Session` and the item the session table stores for it. -/
namespace ShimService

structure SessionKey where
  tenantId : ℕ
  sessionId : String
  deriving DecidableEq, Repr

/-- The key of a `UserSession` row. -/
structure UserKey where
  tenantId : ℕ
  userId : String
  deriving DecidableEq, Repr

inductive SessionStatus where
  | pending
  | active
  | failed
  deriving DecidableEq, Repr

inductive ContextType where
  | web
  | liveAgent
  | pushNotifier
  deriving DecidableEq, Repr

structure Session where
  key : SessionKey
  orgId : String
  timeCreated : ℕ
  userId : String
  instanceUrl : String
  accessToken : String
  fcmDeviceToken : Option String
  expirationSeconds : ℕ
  channelPlatformTypes : List String
  stateCounter : ℕ
  updateTime : ℕ
  status : SessionStatus
  failureMessage : Option String
  expirationTime : Option ℕ
  deriving DecidableEq, Repr

/-- A new session of one user with live-agent polling. -/
def sampleSession (sessionId : String) : Session where
  key := ⟨1, sessionId⟩
  orgId := "org"
  timeCreated := 0
  userId := "user"
  instanceUrl := "url"
  accessToken := "token"
  fcmDeviceToken := none
  expirationSeconds := 3600
  channelPlatformTypes := ["omni"]
  stateCounter := 1
  updateTime := 0
  status := .pending
  failureMessage := none
  expirationTime := none

def Session.userKey (s : Session) : UserKey := ⟨s.key.tenantId, s.userId⟩

def Session.setFailed (s : Session) (message : String) : Session :=
  { s with status := .failed, failureMessage := some message }

/-- Whether this session can be replaced with the new one. -/
def Session.canReplaceSession (s newSession : Session) : Bool :=
  s.key.tenantId = newSession.key.tenantId && s.userId = newSession.userId &&
    s.fcmDeviceToken = newSession.fcmDeviceToken

/-- Whether this session should be replaced with the new one. -/
def Session.shouldReplaceSession (s newSession : Session) : Bool :=
  s.accessToken != newSession.accessToken

/-- A stored session item: an attribute may be missing, and `expireTime` may be a stored null. -/
structure SessionItem where
  orgId : Option String := none
  timeCreated : Option ℕ := none
  userId : Option String := none
  instanceUrl : Option String := none
  accessToken : Option String := none
  fcmDeviceToken : Option String := none
  expSeconds : Option ℕ := none
  platformChannels : String → Bool := fun _ => false
  stateCounter : Option ℕ := none
  updateTime : Option ℕ := none
  sessionStatus : Option SessionStatus := none
  failureMessage : Option String := none
  expireTime : Option (Option ℕ) := none

/-- The lower-case names of the channels known to `platform_channels`. -/
def channels : List String := ["omni", "x1440"]

def Session.toRecord (s : Session) : SessionItem where
  orgId := some s.orgId
  timeCreated := some s.timeCreated
  userId := some s.userId
  instanceUrl := some s.instanceUrl
  accessToken := some s.accessToken
  fcmDeviceToken := s.fcmDeviceToken
  expSeconds := some s.expirationSeconds
  platformChannels := fun name => s.channelPlatformTypes.contains name
  stateCounter := some s.stateCounter
  updateTime := some s.updateTime
  sessionStatus := some s.status
  failureMessage := s.failureMessage
  expireTime := some s.expirationTime

/-- `time or default`: a 0 counts as missing. -/
def timeOr (time default : ℕ) : ℕ := if time = 0 then default else time

/-- `Session.from_record` at the clock `now`, or `none` for its `KeyError` on a missing attribute.
-/
def Session.fromRecord (now : ℕ) (key : SessionKey) (record : SessionItem) : Option Session := do
  let orgId ← record.orgId
  let timeCreated ← record.timeCreated
  let userId ← record.userId
  let instanceUrl ← record.instanceUrl
  let accessToken ← record.accessToken
  let expSeconds ← record.expSeconds
  let stateCounter ← record.stateCounter
  let updateTime ← record.updateTime
  let status ← record.sessionStatus
  return {
    key := key
    orgId := orgId
    timeCreated := timeOr timeCreated now
    userId := userId
    instanceUrl := instanceUrl
    accessToken := accessToken
    fcmDeviceToken := record.fcmDeviceToken
    expirationSeconds := expSeconds
    channelPlatformTypes := channels.filter record.platformChannels
    stateCounter := stateCounter
    updateTime := timeOr updateTime (timeOr timeCreated now)
    status := status
    failureMessage := record.failureMessage
    expirationTime := record.expireTime.join }

/-- An update's `SET` of the attributes of `patch` in a stored item. -/
def SessionItem.set (stored patch : SessionItem) : SessionItem where
  orgId := patch.orgId <|> stored.orgId
  timeCreated := patch.timeCreated <|> stored.timeCreated
  userId := patch.userId <|> stored.userId
  instanceUrl := patch.instanceUrl <|> stored.instanceUrl
  accessToken := patch.accessToken <|> stored.accessToken
  fcmDeviceToken := patch.fcmDeviceToken <|> stored.fcmDeviceToken
  expSeconds := patch.expSeconds <|> stored.expSeconds
  platformChannels := fun name => patch.platformChannels name || stored.platformChannels name
  stateCounter := patch.stateCounter <|> stored.stateCounter
  updateTime := patch.updateTime <|> stored.updateTime
  sessionStatus := patch.sessionStatus <|> stored.sessionStatus
  failureMessage := patch.failureMessage <|> stored.failureMessage
  expireTime := patch.expireTime <|> stored.expireTime

/-- Every attribute that `from_record` subscripts is there. -/
structure SessionItem.Complete (r : SessionItem) : Prop where
  orgId : r.orgId.isSome
  timeCreated : r.timeCreated.isSome
  userId : r.userId.isSome
  instanceUrl : r.instanceUrl.isSome
  accessToken : r.accessToken.isSome
  expSeconds : r.expSeconds.isSome
  stateCounter : r.stateCounter.isSome
  updateTime : r.updateTime.isSome
  sessionStatus : r.sessionStatus.isSome

variable {s : Session} {now : ℕ} {key : SessionKey} {r patch : SessionItem}

theorem Session.fromRecord_isSome : (Session.fromRecord now key r).isSome ↔ r.Complete := by
  constructor
  · intro h
    obtain ⟨s, hs⟩ := Option.isSome_iff_exists.mp h
    simp only [Session.fromRecord, Option.pure_def, Option.bind_eq_bind,
      Option.bind_eq_some_iff] at hs
    obtain ⟨_, h1, _, h2, _, h3, _, h4, _, h5, _, h6, _, h7, _, h8, _, h9, _⟩ := hs
    constructor <;> simp [*]
  · rintro ⟨h1, h2, h3, h4, h5, h6, h7, h8, h9⟩
    simp only [Option.isSome_iff_exists] at h1 h2 h3 h4 h5 h6 h7 h8 h9
    obtain ⟨_, h1⟩ := h1
    obtain ⟨_, h2⟩ := h2
    obtain ⟨_, h3⟩ := h3
    obtain ⟨_, h4⟩ := h4
    obtain ⟨_, h5⟩ := h5
    obtain ⟨_, h6⟩ := h6
    obtain ⟨_, h7⟩ := h7
    obtain ⟨_, h8⟩ := h8
    obtain ⟨_, h9⟩ := h9
    simp [Session.fromRecord, h1, h2, h3, h4, h5, h6, h7, h8, h9]

theorem Session.toRecord_complete : s.toRecord.Complete := by
  constructor <;> rfl

theorem SessionItem.Complete.set (h : r.Complete) : (r.set patch).Complete := by
  constructor <;> simp [SessionItem.set, h.orgId, h.timeCreated, h.userId, h.instanceUrl,
    h.accessToken, h.expSeconds, h.stateCounter, h.updateTime, h.sessionStatus]

/-- What a session read back says of the item it was read from. -/
theorem Session.fromRecord_eq_some (h : Session.fromRecord now key r = some s) :
    s.key = key ∧ r.userId = some s.userId ∧ r.stateCounter = some s.stateCounter ∧
      r.sessionStatus = some s.status := by
  simp only [Session.fromRecord, Option.pure_def, Option.bind_eq_bind, Option.bind_eq_some_iff,
    Option.some.injEq] at h
  obtain ⟨_, _, _, _, u, hu, _, _, _, _, _, _, c, hc, _, _, st, hst, rfl⟩ := h
  exact ⟨rfl, hu, hc, hst⟩

end ShimService
