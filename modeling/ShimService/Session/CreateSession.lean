import ShimService.Session.Store

/-!
`AwsSessionsRepo.create_session` up to the exception it raises: the cancellation of its transaction
is decoded from one reason for each request, and what the user's row says is read once more.
-/
namespace ShimService

open CondTable Db

structure CancelReason where
  code : Option String
  deriving DecidableEq

/-- The service writes the text `None` where a request is not to blame. -/
def CancelReason.ofCode (code : String) : CancelReason :=
  ⟨if code = "None" then none else some code⟩

/-- One reason for each request, whose condition is judged on the state before them all. -/
def cancellationReasons (requests : List Write) (db : Db) : List CancelReason :=
  requests.map fun request =>
    .ofCode (if (request db).isSome then "None" else "ConditionalCheckFailed")

def transactWriteItems (requests : List Write) (db : Db) : Except (List CancelReason) Db :=
  (transact requests db).mapError fun _ => cancellationReasons requests db

/-- What `transact_write` returns or raises. -/
inductive TransactResult where
  | committed
  | badRequest (index : ℕ)
  | cancelled (reasons : List CancelReason)
  deriving DecidableEq

/-- The loop over the reasons returns the request at the place of the first one with a code. -/
def transactWrite (requests : List Write) (db : Db) : TransactResult :=
  match transactWriteItems requests db with
  | .ok _ => .committed
  | .error reasons =>
    match reasons.findIdx? fun reason => reason.code.isSome with
    | some index => .badRequest index
    | none => .cancelled reasons

/-- How `execute` fares with the slot of the event sequence around the transaction. -/
inductive Slot where
  | notTaken
  | taken (seqNo : ℕ) (released : Bool)
  deriving DecidableEq

inductive CreateOutcome where
  | created
  | userSessionExists (sessionId : String)
  | entityExists
  | transactionCancelled
  | optimisticLock
  deriving DecidableEq

/-- The place of `user_session_put` in the list of requests. -/
def userSessionPut : ℕ := 1

/-- `row` is what `find_by_session` reads after the cancellation. -/
def createSession (session : Session) (now : ℕ) (slot : Slot) (db : Db)
    (row : Option UserSession) : CreateOutcome :=
  match slot with
  -- The exception of the sequence replaces whatever the transaction has come to.
  | .notTaken | .taken _ false => .optimisticLock
  | .taken seqNo true =>
    match transactWrite (Op.createSession session now seqNo).requests db with
    | .committed => .created
    | .cancelled _ => .transactionCancelled
    | .badRequest index =>
      if index = userSessionPut then
        match row with
        | some user => .userSessionExists user.sessionId
        | none => .entityExists
      else .entityExists

variable {session : Session} {now seqNo : ℕ} {slot : Slot} {db : Db}
  {row held : Option UserSession}

/-- The three puts are to different tables, so the transaction fails on the first of them whose
key is taken. -/
theorem transactWrite_createSession :
    transactWrite (Op.createSession session now seqNo).requests db =
      if (db.sessions session.key).isSome then .badRequest 0
      else if (db.userSessions session.userKey).isSome then .badRequest userSessionPut
      else if (db.events (session.key.tenantId, seqNo)).isSome then .badRequest 2
      else .committed := by
  have hfailed : "ConditionalCheckFailed" ≠ "None" := by decide
  cases hs : db.sessions session.key <;> cases hu : db.userSessions session.userKey <;>
    cases he : db.events (session.key.tenantId, seqNo) <;>
    simp [transactWrite, transactWriteItems, Op.requests, transact, putSession, putUserSession,
      putEvent, Table.putNew, hs, hu, he, cancellationReasons, CancelReason.ofCode,
      Except.mapError, List.findIdx?_cons, hfailed, userSessionPut]

theorem createSession_taken : createSession session now (.taken seqNo true) db row =
    if (db.sessions session.key).isSome then .entityExists
    else if (db.userSessions session.userKey).isSome then
      row.elim .entityExists fun user => .userSessionExists user.sessionId
    else if (db.events (session.key.tenantId, seqNo)).isSome then .entityExists
    else .created := by
  simp only [createSession, transactWrite_createSession]
  split_ifs
  · rfl
  · cases row <;> rfl
  · rfl
  · rfl

/-- What an exception of `create_session` says is so: the session is in the store, or the session
that is named is the one in the user's row, which is `held` when it is read once more. -/
structure TrueCause (session : Session) (db : Db) (held : Option UserSession)
    (outcome : CreateOutcome) : Prop where
  entity : outcome = .entityExists → (db.sessions session.key).isSome
  user : ∀ sessionId, outcome = .userSessionExists sessionId →
    ∃ user, held = some user ∧ user.sessionId = sessionId

/-- The session is there; or the user's row is, and is read back as it is held; or nothing is in
the way. -/
def CauseKnown (session : Session) (db : Db) (seqNo : ℕ) (row held : Option UserSession) : Prop :=
  (db.sessions session.key).isSome ∨
    if (db.userSessions session.userKey).isSome then
      ∃ sessionId, row.map UserSession.sessionId = some sessionId ∧
        held.map UserSession.sessionId = some sessionId
    else (db.events (session.key.tenantId, seqNo)).isNone

theorem trueCause_entityExists :
    TrueCause session db held .entityExists ↔ (db.sessions session.key).isSome :=
  ⟨fun h => h.entity rfl, fun h => ⟨fun _ => h, nofun⟩⟩

theorem trueCause_userSessionExists {sessionId : String} :
    TrueCause session db held (.userSessionExists sessionId) ↔
      held.map UserSession.sessionId = some sessionId := by
  rw [Option.map_eq_some_iff]
  constructor
  · exact fun h => h.user sessionId rfl
  · refine fun h => ⟨nofun, fun id hid => ?_⟩
    cases hid
    exact h

/-- The fallback is the exception about the session, whatever else may have been in the way. -/
theorem createSession_trueCause_iff (session : Session) (now : ℕ) (slot : Slot) (db : Db)
    (row held : Option UserSession) :
    TrueCause session db held (createSession session now slot db row) ↔
      ∀ seqNo, slot = .taken seqNo true → CauseKnown session db seqNo row held := by
  have hlock : TrueCause session db held .optimisticLock := ⟨nofun, nofun⟩
  have hcreated : TrueCause session db held .created := ⟨nofun, nofun⟩
  match slot with
  | .notTaken => exact ⟨fun _ => nofun, fun _ => hlock⟩
  | .taken seqNo false => exact ⟨fun _ => nofun, fun _ => hlock⟩
  | .taken seqNo true =>
    have hslot : (∀ n, Slot.taken seqNo true = .taken n true →
        CauseKnown session db n row held) ↔ CauseKnown session db seqNo row held :=
      ⟨fun h => h seqNo rfl, fun h n hn => by cases hn; exact h⟩
    rw [hslot, createSession_taken, CauseKnown]
    cases hsession : (db.sessions session.key).isSome with
    | true => simp only [if_true, true_or, trueCause_entityExists, hsession]
    | false =>
      simp only [Bool.false_eq_true, if_false, false_or]
      cases huser : (db.userSessions session.userKey).isSome with
      | true =>
        cases row with
        | none => simp [trueCause_entityExists, hsession]
        | some user => simp [trueCause_userSessionExists]
      | false =>
        simp only [Bool.false_eq_true, if_false]
        cases hevent : db.events (session.key.tenantId, seqNo) with
        | some event => simp [trueCause_entityExists, hsession]
        | none => simp [hcreated]

/-- A user's row that is deleted before it is read once more. -/
theorem deleted_user_row_is_blamed_on_session :
    ¬ TrueCause (sampleSession "new")
      { Db.empty with userSessions := fun _ => some ⟨"old", none, 0, 0⟩ } none
      (createSession (sampleSession "new") 0 (.taken 1 true)
        { Db.empty with userSessions := fun _ => some ⟨"old", none, 0, 0⟩ } none) := by
  intro h
  exact absurd (h.entity rfl) (by decide)

end ShimService
