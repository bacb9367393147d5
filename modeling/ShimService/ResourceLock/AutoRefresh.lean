import ShimService.Library.Transition
import ShimService.ResourceLock.TryAcquire

/-!
`_AutoRefreshLockImpl` over the lock of `AwsResourceLockRepo`: the refresh thread, calls of
`release` and calls of `check`, with the mutex, the signal and the flags they share. Anybody else
may change the table at any time.
-/
namespace ShimService.AutoRefreshLock

open CondTable AbstractAwsRepo
open ResourceLockRepo (LocalDto)

/-- The lock's name and its `refresh_seconds`. -/
structure Lock where
  name : String
  refreshSeconds : ℕ

/-- Where the refresh thread stands, named after what it does next. -/
inductive Worker where
  | testingFailed
  | waiting
  | blocked
  | testingReleased
  | acquiring
  | locked
  -- `source.refresh()`, with the requests of `__refresher`
  | refreshing
  | patching (target : ℕ)
  | creating (target : ℕ)
  | refreshed (result : Bool)
  | unlocking (breaks : Bool)
  | raising
  | handling
  | ended
  deriving DecidableEq

/-- Where a call of `release` stands. -/
inductive Release where
  | idle
  | testing
  | acquiring
  -- `source.release()`, with the request of `__releaser`
  | locked
  | deleting (timeoutAt : ℕ)
  | assigning (result : Bool)
  | unlocking
  | notifying
  | joining
  | returning
  | returned (result : Option Bool)
  | raising
  | raised
  deriving DecidableEq

/-- A call of `check` reads `failed` and then `released`. -/
inductive Check where
  | idle
  | notFailed
  | returned (result : Bool)
  deriving DecidableEq

inductive Party where
  | worker
  | release (r : ℕ)
  deriving DecidableEq

/-- What the refresh thread does to the underlying lock. -/
inductive RefreshEvent where
  | began
  | wrote (dto : LocalDto)
  | returned (result : Bool)
  | raised
  deriving DecidableEq

/-- `timeoutAt` and `releaseResult` are fields of the underlying lock. -/
structure State where
  clock : ℕ
  table : Table String LocalDto
  timeoutAt : ℕ
  releaseResult : Option Bool
  mutex : Option Party
  released : Option Bool
  failed : Bool
  signalled : Bool
  worker : Worker
  releases : ℕ → Release
  checks : ℕ → Check
  log : List RefreshEvent

/-- How a step goes: on, or where a wait may end or a request may fail, another way. -/
inductive Choice where
  | goes
  | timesOut
  | raises
  deriving DecidableEq

inductive Act where
  | tick (millis : ℕ)
  | others (table : Table String LocalDto)
  | worker (choice : Choice)
  | release (r : ℕ) (choice : Choice)
  | check (c : ℕ)

def State.setRelease (s : State) (r : ℕ) (p : Release) : State :=
  { s with releases := Function.update s.releases r p }

def State.setCheck (s : State) (c : ℕ) (p : Check) : State :=
  { s with checks := Function.update s.checks c p }

/-- The next step of `__worker`. -/
def workerStep (lock : Lock) (s : State) : Choice → Option State
  | .goes =>
    match s.worker with
    | .testingFailed => some { s with worker := if s.failed then .ended else .waiting }
    | .waiting => some { s with worker := if s.signalled then .ended else .blocked }
    | .blocked => if s.signalled then some { s with worker := .ended } else none
    | .testingReleased =>
      some { s with worker := if s.released.isNone then .acquiring else .ended }
    | .acquiring =>
      if s.mutex = none then some { s with worker := .locked, mutex := some .worker } else none
    | .locked =>
      if s.released.isSome then some { s with worker := .unlocking true }
      else some { s with worker := .refreshing, log := s.log ++ [.began] }
    | .refreshing =>
      -- "Already released"
      if s.releaseResult.isSome then
        some { s with worker := .raising, log := s.log ++ [.raised] }
      else
        some { s with worker := .patching (getEpochSecondsInFuture lock.refreshSeconds s.clock) }
    | .patching target =>
      match patchWithCondition s.table lock.name LocalDto.timeoutAt s.timeoutAt
          fun _ => ⟨target⟩ with
      | some table => some { s with
          table, timeoutAt := target, worker := .refreshed true
          log := s.log ++ [.wrote ⟨target⟩, .returned true] }
      | none => some { s with worker := .creating target }
    | .creating target =>
      match create s.table lock.name ⟨s.timeoutAt⟩ with
      | some table => some { s with
          table, timeoutAt := target, worker := .refreshed true
          log := s.log ++ [.wrote ⟨s.timeoutAt⟩, .returned true] }
      | none => some { s with worker := .refreshed false, log := s.log ++ [.returned false] }
    | .refreshed result =>
      some { s with worker := .unlocking false, failed := s.failed || !result }
    | .unlocking breaks =>
      some { s with worker := if breaks then .ended else .testingFailed, mutex := none }
    | .raising => some { s with worker := .handling, mutex := none }
    | .handling => some { s with worker := .testingFailed, failed := true }
    | .ended => none
  | .timesOut =>
    match s.worker with
    | .blocked => some { s with worker := .testingReleased }
    | _ => none
  | .raises =>
    match s.worker with
    | .refreshing | .patching _ | .creating _ =>
      some { s with worker := .raising, log := s.log ++ [.raised] }
    | _ => none

/-- The next step of a call of `release`. -/
def releaseStep (lock : Lock) (s : State) (r : ℕ) : Choice → Option State
  | .goes =>
    match s.releases r with
    | .idle => some (s.setRelease r .testing)
    | .testing => some (s.setRelease r (if s.released.isNone then .acquiring else .returning))
    | .acquiring =>
      if s.mutex = none then some ({ s with mutex := some (.release r) }.setRelease r .locked)
      else none
    | .locked =>
      match s.releaseResult with
      | some result => some (s.setRelease r (.assigning result))
      | none => some (s.setRelease r (.deleting s.timeoutAt))
    | .deleting timeoutAt =>
      match deleteWithCondition s.table lock.name LocalDto.timeoutAt timeoutAt with
      | some table =>
        some ({ s with table, releaseResult := some true }.setRelease r (.assigning true))
      | none => some ({ s with releaseResult := some false }.setRelease r (.assigning false))
    | .assigning result => some ({ s with released := some result }.setRelease r .unlocking)
    | .unlocking => some ({ s with mutex := none }.setRelease r .notifying)
    | .notifying => some ({ s with signalled := true }.setRelease r .joining)
    -- The join has a timeout.
    | .joining => some (s.setRelease r .returning)
    | .returning => some (s.setRelease r (.returned s.released))
    | .raising => some ({ s with mutex := none }.setRelease r .raised)
    | .returned _ | .raised => none
  | .timesOut => none
  | .raises =>
    match s.releases r with
    | .deleting _ => some (s.setRelease r .raising)
    | _ => none

def checkStep (s : State) (c : ℕ) : Option State :=
  match s.checks c with
  | .idle => some (s.setCheck c (if s.failed then .returned false else .notFailed))
  | .notFailed => some (s.setCheck c (.returned s.released.isNone))
  | .returned _ => none

def step (lock : Lock) (s : State) : Act → Option State
  | .tick millis => some { s with clock := s.clock + millis }
  | .others table => some { s with table }
  | .worker choice => workerStep lock s choice
  | .release r choice => releaseStep lock s r choice
  | .check c => checkStep s c

/-- The lock has just been acquired and the thread started. -/
def initial (clock : ℕ) (table : Table String LocalDto) (timeoutAt : ℕ) : State where
  clock := clock
  table := table
  timeoutAt := timeoutAt
  releaseResult := none
  mutex := none
  released := none
  failed := false
  signalled := false
  worker := .testingFailed
  releases := fun _ => .idle
  checks := fun _ => .idle
  log := []

section

variable (s : State) (r q : ℕ) (p : Release)

@[simp] theorem setRelease_releases :
    (s.setRelease r p).releases q = if q = r then p else s.releases q := by
  simp [State.setRelease, Function.update_apply]

@[simp] theorem setRelease_worker : (s.setRelease r p).worker = s.worker := rfl
@[simp] theorem setRelease_mutex : (s.setRelease r p).mutex = s.mutex := rfl
@[simp] theorem setRelease_released : (s.setRelease r p).released = s.released := rfl
@[simp] theorem setRelease_failed : (s.setRelease r p).failed = s.failed := rfl
@[simp] theorem setRelease_checks : (s.setRelease r p).checks = s.checks := rfl
@[simp] theorem setRelease_log : (s.setRelease r p).log = s.log := rfl

@[simp] theorem setRelease_releaseResult :
    (s.setRelease r p).releaseResult = s.releaseResult := rfl

variable (c d : ℕ) (k : Check)

@[simp] theorem setCheck_checks :
    (s.setCheck c k).checks d = if d = c then k else s.checks d := by
  simp [State.setCheck, Function.update_apply]

@[simp] theorem setCheck_worker : (s.setCheck c k).worker = s.worker := rfl
@[simp] theorem setCheck_mutex : (s.setCheck c k).mutex = s.mutex := rfl
@[simp] theorem setCheck_released : (s.setCheck c k).released = s.released := rfl
@[simp] theorem setCheck_failed : (s.setCheck c k).failed = s.failed := rfl
@[simp] theorem setCheck_releases : (s.setCheck c k).releases = s.releases := rfl
@[simp] theorem setCheck_log : (s.setCheck c k).log = s.log := rfl
@[simp] theorem setCheck_releaseResult : (s.setCheck c k).releaseResult = s.releaseResult := rfl

end

end ShimService.AutoRefreshLock
