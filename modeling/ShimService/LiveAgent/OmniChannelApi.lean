import ShimService.ResourceLock.MutualExclusion
import ShimService.Session.Session

/-!
The API requests of one session: `load_api` acquires the web-session lock and loads the WEB
context, each send attaches `X-Liveagent-Sequence`, and `__exit__` saves the settings and then
releases the lock, also where the save raises.
-/
namespace ShimService.OmniChannelApi

open CondTable

def lockName (key : SessionKey) : String :=
  "web-session/" ++ toString key.tenantId ++ "/" ++ key.sessionId

/-- `load_api` acquires the lock for one second at a time and never refreshes it. -/
def lockArgs (key : SessionKey) : ℕ → ResourceLockRepo.Args := fun _ => ⟨lockName key, 1⟩

/-- Where a request stands. `initial` is the `sequence` of its `initial_settings` and `sequence`
that of its `settings`; `lost` are the settings whose save has raised. -/
inductive Request where
  | acquiring
  | working (initial sequence : ℕ)
  | saving (initial sequence : ℕ)
  | releasing (lost : Option (ℕ × ℕ))
  | done (lost : Option (ℕ × ℕ))
  deriving DecidableEq, Repr

/-- The settings a request has changed and not saved: not yet, or not at all. -/
def Request.unsaved : Request → Option (ℕ × ℕ)
  | .acquiring => none
  | .working initial sequence => if sequence = initial then none else some (initial, sequence)
  | .saving initial sequence => some (initial, sequence)
  | .releasing lost => lost
  | .done lost => lost

/-- All the request still does is release its lock. -/
def Request.isReleasing : Request → Bool
  | .releasing _ => true
  | _ => false

def Request.isDone : Request → Bool
  | .done _ => true
  | _ => false

section

variable (lost : Option (ℕ × ℕ))

@[simp] theorem Request.unsaved_acquiring : Request.acquiring.unsaved = none := rfl
@[simp] theorem Request.unsaved_releasing : (Request.releasing lost).unsaved = lost := rfl
@[simp] theorem Request.unsaved_done : (Request.done lost).unsaved = lost := rfl

end

@[simp] theorem Request.unsaved_working (initial sequence : ℕ) :
    (Request.working initial sequence).unsaved =
      if sequence = initial then none else some (initial, sequence) := rfl

@[simp] theorem Request.unsaved_saving (initial sequence : ℕ) :
    (Request.saving initial sequence).unsaved = some (initial, sequence) := rfl

/-- `sequence` is what the WEB context stores, and `sent` every value attached, latest first. -/
structure State where
  locks : ResourceLockRepo.State
  sequence : Option ℕ
  requests : ℕ → Request
  sent : List ℕ

def State.setRequest (s : State) (c : ℕ) (request : Request) : State :=
  { s with requests := Function.update s.requests c request }

section

variable (s : State) (c d : ℕ) (request : Request)

@[simp] theorem State.setRequest_locks : (s.setRequest c request).locks = s.locks := rfl
@[simp] theorem State.setRequest_sequence : (s.setRequest c request).sequence = s.sequence := rfl
@[simp] theorem State.setRequest_sent : (s.setRequest c request).sent = s.sent := rfl

@[simp] theorem State.setRequest_requests :
    (s.setRequest c request).requests d = if d = c then request else s.requests d := by
  simp [State.setRequest, Function.update_apply]

end

inductive Act where
  | tick (millis : ℕ)
  | tryAcquire (c : ℕ)
  | next (c : ℕ)
  | load (c : ℕ) (raises : Bool)
  | send (c : ℕ)
  | exit (c : ℕ)
  | save (c : ℕ) (written : Bool)
  | release (c : ℕ)
  deriving DecidableEq, Repr

/-- The request an action is a step of. -/
def Act.request : Act → Option ℕ
  | .tick _ => none
  | .tryAcquire c | .next c | .load c _ | .send c | .exit c | .save c _ | .release c => some c

/-- A step of the lock table with nothing else. -/
def lockStep (key : SessionKey) (s : State) (a : ResourceLockRepo.Act) : Option State :=
  (ResourceLockRepo.step (lockArgs key) s.locks a).map fun locks => { s with locks := locks }

/-- One action of the requests on the session `key`, or `none` where it is not enabled. -/
def step (key : SessionKey) (s : State) : Act → Option State
  | .tick millis => lockStep key s (.tick millis)
  -- `acquire` calls `try_acquire` until it is given a handle.
  | .tryAcquire c => if s.requests c = .acquiring then lockStep key s (.acquire c) else none
  | .next c => if s.requests c = .acquiring then lockStep key s (.next c) else none
  | .load c raises =>
    match s.requests c, s.locks.clients c with
    | .acquiring, .held _ =>
      match raises, s.sequence with
      | false, some sequence => some (s.setRequest c (.working sequence sequence))
      | _, _ => some (s.setRequest c (.releasing none))
    | _, _ => none
  | .send c =>
    match s.requests c with
    | .working initial sequence =>
      some ({ s with sent := sequence :: s.sent }.setRequest c (.working initial (sequence + 1)))
    | _ => none
  | .exit c =>
    match s.requests c with
    | .working initial sequence =>
      some (s.setRequest c
        (if sequence = initial then .releasing none else .saving initial sequence))
    | _ => none
  -- `update_session_context` patches the row if it exists, whatever it holds. Where it raises and
  -- has written nothing, `finally` releases the lock all the same.
  | .save c written =>
    match s.requests c with
    | .saving initial sequence =>
      if written then
        let sequence := s.sequence.map fun _ => sequence
        some ({ s with sequence }.setRequest c (.releasing none))
      else some (s.setRequest c (.releasing (some (initial, sequence))))
    | _ => none
  | .release c =>
    match s.requests c with
    | .releasing lost => (lockStep key s (.release c)).map fun t => t.setRequest c (.done lost)
    | _ => none

/-- What a step has found and where it leads, a constructor for each way through `step`. -/
inductive Moves (key : SessionKey) (s : State) : Act → State → Prop where
  | ticked {millis : ℕ} {locks : ResourceLockRepo.State}
      (hlocks : ResourceLockRepo.step (lockArgs key) s.locks (.tick millis) = some locks) :
      Moves key s (.tick millis) { s with locks := locks }
  | tried {c : ℕ} {locks : ResourceLockRepo.State} (hc : s.requests c = .acquiring)
      (hlocks : ResourceLockRepo.step (lockArgs key) s.locks (.acquire c) = some locks) :
      Moves key s (.tryAcquire c) { s with locks := locks }
  | advanced {c : ℕ} {locks : ResourceLockRepo.State} (hc : s.requests c = .acquiring)
      (hlocks : ResourceLockRepo.step (lockArgs key) s.locks (.next c) = some locks) :
      Moves key s (.next c) { s with locks := locks }
  | loaded {c timeoutAt sequence : ℕ} (hc : s.requests c = .acquiring)
      (hheld : s.locks.clients c = .held timeoutAt) (hsequence : s.sequence = some sequence) :
      Moves key s (.load c false) (s.setRequest c (.working sequence sequence))
  | failed {c timeoutAt : ℕ} {raises : Bool} (hc : s.requests c = .acquiring)
      (hheld : s.locks.clients c = .held timeoutAt)
      (hraises : raises = true ∨ s.sequence = none) :
      Moves key s (.load c raises) (s.setRequest c (.releasing none))
  | sent {c initial sequence : ℕ} (hc : s.requests c = .working initial sequence) :
      Moves key s (.send c) ({ s with sent := sequence :: s.sent }.setRequest c
        (.working initial (sequence + 1)))
  | exited {c initial sequence : ℕ} (hc : s.requests c = .working initial sequence) :
      Moves key s (.exit c) (s.setRequest c
        (if sequence = initial then .releasing none else .saving initial sequence))
  | saved {c initial sequence : ℕ} (hc : s.requests c = .saving initial sequence) :
      Moves key s (.save c true)
        ({ s with sequence := s.sequence.map fun _ => sequence }.setRequest c (.releasing none))
  | lost {c initial sequence : ℕ} (hc : s.requests c = .saving initial sequence) :
      Moves key s (.save c false) (s.setRequest c (.releasing (some (initial, sequence))))
  | released {c : ℕ} {lost : Option (ℕ × ℕ)} {locks : ResourceLockRepo.State}
      (hc : s.requests c = .releasing lost)
      (hlocks : ResourceLockRepo.step (lockArgs key) s.locks (.release c) = some locks) :
      Moves key s (.release c) ({ s with locks := locks }.setRequest c (.done lost))

theorem lockStep_eq_some {key : SessionKey} {s t : State} {b : ResourceLockRepo.Act} :
    lockStep key s b = some t ↔
      ∃ locks, ResourceLockRepo.step (lockArgs key) s.locks b = some locks ∧
        t = { s with locks := locks } := by
  simp [lockStep, Option.map_eq_some_iff, @eq_comm _ t]

theorem step_moves {key : SessionKey} {s t : State} {a : Act} (h : step key s a = some t) :
    Moves key s a t := by
  cases a with
  | tick millis =>
    obtain ⟨locks, hlocks, rfl⟩ := lockStep_eq_some.mp h
    exact .ticked hlocks
  | tryAcquire c =>
    simp only [step, Option.ite_none_right_eq_some] at h
    obtain ⟨hc, h⟩ := h
    obtain ⟨locks, hlocks, rfl⟩ := lockStep_eq_some.mp h
    exact .tried hc hlocks
  | next c =>
    simp only [step, Option.ite_none_right_eq_some] at h
    obtain ⟨hc, h⟩ := h
    obtain ⟨locks, hlocks, rfl⟩ := lockStep_eq_some.mp h
    exact .advanced hc hlocks
  | load c raises =>
    simp only [step] at h
    split at h
    · rename_i hc hheld
      cases raises with
      | true =>
        cases h
        exact .failed hc hheld (.inl rfl)
      | false =>
        cases hsequence : s.sequence with
        | none =>
          simp only [hsequence] at h
          cases h
          exact .failed hc hheld (.inr hsequence)
        | some sequence =>
          simp only [hsequence] at h
          cases h
          exact .loaded hc hheld hsequence
    · cases h
  | send c =>
    simp only [step] at h
    split at h <;> cases h
    rename_i hc
    exact .sent hc
  | exit c =>
    simp only [step] at h
    split at h <;> cases h
    rename_i hc
    exact .exited hc
  | save c written =>
    simp only [step] at h
    split at h
    · rename_i hc
      cases written <;> cases h
      · exact .lost hc
      · exact .saved hc
    · cases h
  | release c =>
    simp only [step] at h
    split at h
    · rename_i hc
      obtain ⟨u, hu, rfl⟩ := Option.map_eq_some_iff.mp h
      obtain ⟨locks, hlocks, rfl⟩ := lockStep_eq_some.mp hu
      exact .released hc hlocks
    · cases h

/-- No request has begun; the lock table and the stored sequence are any. -/
def initial (clock : ℕ) (table : Table String ResourceLockRepo.LocalDto) (sequence : Option ℕ) :
    State :=
  ⟨ResourceLockRepo.initial clock table, sequence, fun _ => .acquiring, []⟩

end ShimService.OmniChannelApi
