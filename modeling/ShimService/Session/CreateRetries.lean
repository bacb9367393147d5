import ShimService.Library.Program
import ShimService.Session.Store

/-!
The retries of `manager.create_session`: `__create_session` and `__check_replace_session` call each
other, and only the first counts.
-/
namespace ShimService.CreateRetries

open Program (raise read modify handle ends_bind ends_handle)

inductive Failure where
  | userSessionExists (sessionId : String)
  | badRequest (message errorCode : String)
  | other (description : String)
  deriving DecidableEq

/-- Why a call has not returned: an exception, or more nested calls than were given. -/
inductive Stop where
  | failure (ex : Failure)
  | outOfFuel
  deriving DecidableEq

structure RetryCounter where
  maxRetries : ℤ
  count : ℕ
  created : Bool

def RetryCounter.inc (self : RetryCounter) : Bool × RetryCounter :=
  if self.count < self.maxRetries then (true, { self with count := self.count + 1 })
  else (false, self)

/-- What somebody outside answers to a call, given a world that may have changed since the last one.
The session of the request may be written to. -/
abbrev Answer (ω α : Type) := Session → ω → Except Failure α × Session × ω

/-- The repositories and the services that one call of `create_session` talks to. `π` is a list of
presence statuses. -/
structure Services (ω π : Type) where
  findBySession : Answer ω (Option UserSession)
  verifyFcmDeviceToken : Option String → Answer ω (Option String)
  createSession : Answer ω Unit
  findSession : SessionKey → Answer ω (Option Session)
  touch : Session → Answer ω (Option ℕ)
  /-- The copy as the update leaves it, or `none` for `False`. -/
  updateSession : Session → Answer ω (Option Session)
  fixOrphanedSession : String → Answer ω Bool
  connectSessionAsync : Session → Answer ω Unit
  connectToSfdc : Answer ω π
  loadWithContext : Session → Answer ω (Option π)

/-- `attempts` counts the calls of the repository's `create_session`. -/
structure State (ω : Type) where
  session : Session
  world : ω
  retryCounter : RetryCounter
  attempts : ℕ

structure CreateResult (π : Type) where
  session : Session
  created : Bool
  presenceStatuses : Option π

variable {ω π α : Type}

abbrev Run (ω α : Type) := Program (State ω) Stop α

def ask (answer : Answer ω α) : Run ω α := fun s =>
  let (result, session, world) := answer s.session s.world
  (result.mapError .failure, { s with session, world })

/-- `retry_counter.inc()`. -/
def inc : Run ω Bool := fun s =>
  let (more, retryCounter) := s.retryCounter.inc
  (.ok more, { s with retryCounter })

/-- `createSession` is the call that the last line makes. -/
def checkReplaceSession (services : Services ω π) (createSession : Run ω Session)
    (existingSessionId : String) : Run ω Session := do
  let session ← read State.session
  match ← ask (services.findSession ⟨session.key.tenantId, existingSessionId⟩) with
  | none =>
    let _ ← ask (services.fixOrphanedSession existingSessionId)
    createSession
  | some current =>
    if current.status ≠ .failed then
      let session ← read State.session
      if !current.canReplaceSession session then
        raise (.failure (.userSessionExists existingSessionId))
      else if !current.shouldReplaceSession session then
        if session.updateTime < current.updateTime + 60 then return current
        -- `None` and zero are false.
        else if (← ask (services.touch current)).getD 0 ≠ 0 then return current
        else createSession
      else
        let sessionCopy := { session with
          stateCounter := current.stateCounter
          key := { session.key with sessionId := current.key.sessionId } }
        match ← ask (services.updateSession sessionCopy) with
        | some sessionCopy => return sessionCopy
        | none => createSession
    else
      let _ ← ask (services.fixOrphanedSession existingSessionId)
      createSession

/-- The call of the repository, with the session id of a `UserSessionExistsException`. -/
def attempt (services : Services ω π) : Run ω (Option String) := do
  modify fun s => { s with attempts := s.attempts + 1 }
  handle (do ask services.createSession; return none) fun
    | .failure (.userSessionExists sessionId) => pure (some sessionId)
    | stop => raise stop

/-- `__create_session`, with a bound for the depth of the calls. -/
def innerCreateSession (services : Services ω π) : ℕ → Run ω Session
  | 0 => raise .outOfFuel
  | fuel + 1 => do
    match ← attempt services with
    | none =>
      modify fun s => { s with retryCounter := { s.retryCounter with created := true } }
      read State.session
    | some sessionId =>
      if !(← inc) then raise (.failure (.userSessionExists sessionId))
      else checkReplaceSession services (innerCreateSession services fuel) sessionId

def checkFcmToken (services : Services ω π) : Run ω Unit := do
  let currentSession ← ask services.findBySession
  let session ← read State.session
  if currentSession.map UserSession.fcmDeviceToken = some session.fcmDeviceToken then return ()
  else
    match ← ask (services.verifyFcmDeviceToken session.fcmDeviceToken) with
    | some message =>
      raise (.failure (.badRequest ("FCM device token validation failed: " ++ message)
        "InvalidFcmDeviceToken"))
    | none => return ()

/-- `create_session` of the manager. -/
def createSession (services : Services ω π) (asyncConnect : Bool) (maxCreateSessionRetries : ℤ)
    (fuel : ℕ) : Run ω (CreateResult π) := do
  checkFcmToken services
  modify fun s => { s with retryCounter := ⟨maxCreateSessionRetries, 0, false⟩ }
  let resultSession ← innerCreateSession services fuel
  let counter ← read State.retryCounter
  if counter.created then
    if asyncConnect then
      ask (services.connectSessionAsync resultSession)
      return ⟨resultSession, counter.created, none⟩
    else
      let presenceStatuses ← ask services.connectToSfdc
      return ⟨resultSession, counter.created, some presenceStatuses⟩
  else if resultSession.status = .active then
    let presenceStatuses ← ask (services.loadWithContext resultSession)
    return ⟨resultSession, counter.created, presenceStatuses⟩
  else return ⟨resultSession, counter.created, none⟩

/-- The retries that a counter has left. -/
def RetryCounter.left (self : RetryCounter) : ℕ := (self.maxRetries - self.count).toNat

variable {services : Services ω π} {s : State ω} {answer : Answer ω α} {fuel : ℕ}
  {asyncConnect : Bool} {existingSessionId : String}

/-- A call has ended with a value or an exception, after so many more attempts at most. -/
def EndsWithin (n : ℕ) (x : Run ω α) (s : State ω) : Prop :=
  x.Ends s fun result t => result ≠ .error .outOfFuel ∧ t.attempts ≤ s.attempts + n

/-- An answer neither counts a retry nor uses up the fuel. -/
theorem ask_ends {post : Except Stop α → State ω → Prop}
    (h : ∀ result t, result ≠ .error .outOfFuel → t.retryCounter = s.retryCounter →
      t.attempts = s.attempts → post result t) : (ask answer).Ends s post := by
  unfold Program.Ends ask
  rcases hanswer : answer s.session s.world with ⟨ex | a, session, world⟩
  · exact h _ _ (by rintro ⟨⟩) rfl rfl
  · exact h _ _ (by rintro ⟨⟩) rfl rfl

/-- An exception of the answer ends the call, and a value is what it goes on with. -/
theorem ask_bind_ends {β : Type} {k : α → Run ω β} {post : Except Stop β → State ω → Prop}
    (hstop : ∀ result t, result ≠ .error .outOfFuel → t.attempts = s.attempts → post result t)
    (hvalue : ∀ a t, t.retryCounter = s.retryCounter → t.attempts = s.attempts →
      (k a).Ends t post) : (ask answer >>= k).Ends s post := by
  rw [ends_bind]
  refine ask_ends fun result t hresult hcounter hattempts => ?_
  cases result with
  | error stop => exact hstop _ t (fun heq => hresult (by cases heq; rfl)) hattempts
  | ok a => exact hvalue a t hcounter hattempts

theorem inc_ends {post : Except Stop Bool → State ω → Prop}
    (hmore : s.retryCounter.count < s.retryCounter.maxRetries →
      post (.ok true) { s with retryCounter :=
        { s.retryCounter with count := s.retryCounter.count + 1 } })
    (hdone : post (.ok false) s) : inc.Ends s post := by
  by_cases hcount : s.retryCounter.count < s.retryCounter.maxRetries
  · have hinc : s.retryCounter.inc =
        (true, { s.retryCounter with count := s.retryCounter.count + 1 }) := if_pos hcount
    simp only [Program.Ends, inc, hinc]
    exact hmore hcount
  · have hinc : s.retryCounter.inc = (false, s.retryCounter) := if_neg hcount
    simp only [Program.Ends, inc, hinc]
    exact hdone

theorem attempt_ends {post : Except Stop (Option String) → State ω → Prop}
    (h : ∀ result t, result ≠ .error .outOfFuel → t.retryCounter = s.retryCounter →
      t.attempts = s.attempts + 1 → post result t) : (attempt services).Ends s post := by
  rw [attempt, ends_bind, Program.ends_modify, ends_handle, ends_bind]
  refine ask_ends fun result t hresult hcounter hattempts => ?_
  rcases result with stop | _
  · rcases stop with ex | _
    · cases ex with
      | userSessionExists sessionId => exact h _ _ (by rintro ⟨⟩) hcounter hattempts
      | badRequest message errorCode => exact h _ _ (by rintro ⟨⟩) hcounter hattempts
      | other description => exact h _ _ (by rintro ⟨⟩) hcounter hattempts
    · exact absurd rfl hresult
  · exact h _ _ (by rintro ⟨⟩) hcounter hattempts

/-- However the current session is found, it is kept, replaced or tried again, with no retry
counted here. -/
theorem checkReplaceSession_ends {again : Run ω Session}
    {post : Except Stop Session → State ω → Prop}
    (hends : ∀ result t, result ≠ .error .outOfFuel → t.attempts = s.attempts → post result t)
    (hagain : ∀ t, t.retryCounter = s.retryCounter → t.attempts = s.attempts →
      again.Ends t post) :
    (checkReplaceSession services again existingSessionId).Ends s post := by
  rw [checkReplaceSession, Program.ends_bind_read]
  refine ask_bind_ends hends fun current t hcounter hattempts => ?_
  have hstop : ∀ result u, result ≠ .error .outOfFuel → u.attempts = t.attempts →
      post result u := fun result u hresult hu => hends result u hresult (hu.trans hattempts)
  have hretry : ∀ u, u.retryCounter = t.retryCounter → u.attempts = t.attempts →
      again.Ends u post := fun u hu hu' => hagain u (hu.trans hcounter) (hu'.trans hattempts)
  have hfix : (ask (services.fixOrphanedSession existingSessionId) >>= fun _ => again).Ends t
      post := ask_bind_ends hstop fun _ => hretry
  cases current with
  | none => exact hfix
  | some current =>
    dsimp only
    split
    · rw [Program.ends_bind_read]
      split
      · exact hstop _ t (by rintro ⟨⟩) rfl
      · split
        · split
          · exact hstop _ t (by rintro ⟨⟩) rfl
          · refine ask_bind_ends hstop fun touched u hcounter' hattempts' => ?_
            split
            · exact hstop _ u (by rintro ⟨⟩) hattempts'
            · exact hretry u hcounter' hattempts'
        · refine ask_bind_ends hstop fun sessionCopy u hcounter' hattempts' => ?_
          cases sessionCopy with
          | none => exact hretry u hcounter' hattempts'
          | some sessionCopy => exact hstop _ u (by rintro ⟨⟩) hattempts'
    · exact hfix

/-- By induction on the fuel: each further attempt takes one retry off the counter. -/
theorem innerCreateSession_ends (hfuel : s.retryCounter.left < fuel) :
    EndsWithin (s.retryCounter.left + 1) (innerCreateSession services fuel) s := by
  induction fuel generalizing s with
  | zero => omega
  | succ fuel ih =>
    rw [EndsWithin, innerCreateSession, ends_bind]
    refine attempt_ends fun result t hresult hcounter hattempts => ?_
    rcases result with stop | _ | sessionId
    · exact ⟨fun heq => hresult (by cases heq; rfl), by omega⟩
    · exact ⟨by rintro ⟨⟩, by change t.attempts ≤ _; omega⟩
    · dsimp only
      rw [ends_bind]
      refine inc_ends (fun hcount => ?_) ⟨by rintro ⟨⟩, by change t.attempts ≤ _; omega⟩
      refine checkReplaceSession_ends (fun result u hresult hattempts' => ⟨hresult, ?_⟩)
        fun u hcounter' hattempts' => ?_
      · change u.attempts = t.attempts at hattempts'
        omega
      · change u.attempts = t.attempts at hattempts'
        have hleft : u.retryCounter.left + 1 = s.retryCounter.left := by
          rw [hcounter', ← hcounter]
          simp only [RetryCounter.left]
          omega
        have hrest := ih (s := u) (by omega)
        exact hrest.mono fun result v ⟨hresult, hv⟩ => ⟨hresult, by omega⟩

theorem checkFcmToken_ends {post : Except Stop Unit → State ω → Prop}
    (h : ∀ result t, result ≠ .error .outOfFuel → t.attempts = s.attempts → post result t) :
    (checkFcmToken services).Ends s post := by
  rw [checkFcmToken]
  refine ask_bind_ends h fun currentSession t _ hattempts => ?_
  rw [Program.ends_bind_read]
  have hstop : ∀ result u, result ≠ .error .outOfFuel → u.attempts = t.attempts →
      post result u := fun result u hresult hu => h result u hresult (hu.trans hattempts)
  split
  · exact hstop _ t (by rintro ⟨⟩) rfl
  · refine ask_bind_ends hstop fun message u _ hattempts' => ?_
    cases message with
    | none => exact hstop _ u (by rintro ⟨⟩) hattempts'
    | some message => exact hstop _ u (by rintro ⟨⟩) hattempts'

/-- However the services answer, a call makes one attempt more than its retries at most and then
returns or raises, however deep its calls may be nested from there on. -/
theorem createSession_ends (services : Services ω π) (asyncConnect : Bool)
    (maxCreateSessionRetries : ℤ) (s : State ω) :
    ∃ depth, ∀ fuel, depth ≤ fuel →
      (createSession services asyncConnect maxCreateSessionRetries fuel).Ends s fun result t =>
        result ≠ .error .outOfFuel ∧
          t.attempts ≤ s.attempts + (maxCreateSessionRetries.toNat + 1) := by
  refine ⟨maxCreateSessionRetries.toNat + 1, fun fuel hfuel => ?_⟩
  rw [createSession, ends_bind]
  refine checkFcmToken_ends fun result t hresult hattempts => ?_
  cases result with
  | error stop => exact ⟨fun heq => hresult (by cases heq; rfl), by omega⟩
  | ok _ =>
    dsimp only
    rw [ends_bind, Program.ends_modify]
    dsimp only
    rw [ends_bind]
    refine (innerCreateSession_ends ?_).mono fun result u ⟨hresult, hu⟩ => ?_
    · simp only [RetryCounter.left]
      omega
    · have hbound : u.attempts ≤ s.attempts + (maxCreateSessionRetries.toNat + 1) := by
        simpa [RetryCounter.left, hattempts] using hu
      have hstop : ∀ (result : Except Stop (CreateResult π)) (v : State ω),
          result ≠ .error .outOfFuel → v.attempts = u.attempts → result ≠ .error .outOfFuel ∧
            v.attempts ≤ s.attempts + (maxCreateSessionRetries.toNat + 1) :=
        fun _ _ hresult hv => ⟨hresult, hv ▸ hbound⟩
      cases result with
      | error stop => exact hstop _ u (fun heq => hresult (by cases heq; rfl)) rfl
      | ok resultSession =>
        dsimp only
        rw [Program.ends_bind_read]
        split
        · split
          · exact ask_bind_ends hstop fun _ v _ hv => hstop _ v (by rintro ⟨⟩) hv
          · exact ask_bind_ends hstop fun _ v _ hv => hstop _ v (by rintro ⟨⟩) hv
        · split
          · exact ask_bind_ends hstop fun _ v _ hv => hstop _ v (by rintro ⟨⟩) hv
          · exact hstop _ u (by rintro ⟨⟩) rfl

end ShimService.CreateRetries
