import ShimService.Library.Transition
import ShimService.Paging.ResultSet

/-!
`AbstractProcessorGroup`: the loop of `collect` next to the workers that it starts. A call that may
raise is an `Option` here, `none` where it does.
-/
namespace ShimService.PollingGroup

open Paging

variable {ε : Type*}

/-- Where `collect` stands. In `adding` it is in the loop of `is_full` for the next event, which it
has been let in for in `starting`. -/
inductive Collector (ε : Type*) where
  | querying (nextToken : Option ℕ)
  | adding (event : ε) (rest : List ε) (nextToken : Option ℕ)
  | starting (event : ε) (rest : List ε) (nextToken : Option ℕ)
  | checking (nextToken : ℕ)
  | leaving (full : Bool) (nextToken : Option ℕ)
  | returned
  | raised
  deriving DecidableEq, Repr

/-- Where a worker stands. In `refused` it has yet to call `dec_submit_count`, in `beginning` to
enter the section that counts it as working. -/
inductive Pc where
  | locking
  | deciding
  | refused
  | beginning
  | polling
  | ended
  deriving DecidableEq, Repr

structure Worker (ε : Type*) where
  event : ε
  pc : Pc
  deriving DecidableEq, Repr

/-- `read` lists the pages with the tokens they were asked for with, and `invoked` tells whether
`collect` has called `invoke_again`. -/
structure State (ε : Type*) where
  submitCount : ℤ
  workingCount : ℤ
  workers : List (Worker ε)
  collector : Collector ε
  read : List (Option ℕ × QueryResult ε)
  invoked : Bool
  deriving DecidableEq, Repr

inductive Act (ε : Type*) where
  | queryEvents (result : Option (QueryResult ε))
  | isFull (timeLeft : Bool)
  | startThread
  | endCollect
  | tryLock (i : ℕ) (acquire updateActionTime : Option Bool) (release : Option Unit)
  | shouldPoll (i : ℕ) (found : Option Bool) (deleteEvent : Option Unit)
  | decSubmitCount (i : ℕ)
  | beginPoll (i : ℕ)
  | endPoll (i : ℕ)
  deriving DecidableEq, Repr

namespace State

def setPc (s : State ε) (i : ℕ) (event : ε) (pc : Pc) : State ε :=
  { s with workers := s.workers.set i ⟨event, pc⟩ }

def decSubmitCount (s : State ε) : State ε := { s with submitCount := s.submitCount - 1 }

/-- The section between `should_poll` and `poll`. -/
def beginPoll (s : State ε) : State ε :=
  { s with workingCount := s.workingCount + 1, submitCount := s.submitCount - 1 }

/-- One pass of the loop in `is_full`; `none` leads to another. -/
def isFull (max : ℕ) (s : State ε) (increment timeLeft : Bool) : Option Bool :=
  if !timeLeft then some true
  else if s.workingCount = max then some true
  else if s.workingCount + s.submitCount < max then some false
  else if increment then none
  else some false

end State

/-- The end of the loop's body where `full` is not set. -/
def afterRows : Option ℕ → Collector ε
  | none => .leaving false none
  | some nextToken => .checking nextToken

/-- A page without rows and without a token ends the loop as well. -/
def nextEvent : List ε → Option ℕ → Collector ε
  | [], nextToken => afterRows nextToken
  | event :: rest, nextToken => .adding event rest nextToken

/-- `__try_lock`; it releases on an exception too. -/
def tryLock (acquire updateActionTime : Option Bool) (release : Option Unit) : Option Bool := do
  if ← acquire then
    if ← updateActionTime then return true
    release
  return false

/-- `should_poll`, which deletes the event of what it does not find. -/
def shouldPoll (found : Option Bool) (deleteEvent : Option Unit) : Option Bool := do
  if ← found then return true
  deleteEvent
  return false

def collectorStep (max : ℕ) (s : State ε) : Act ε → Option (State ε)
  | .queryEvents result =>
    match s.collector, result with
    | .querying nextToken, some result =>
      some { s with
        collector := nextEvent result.rows result.nextToken
        read := s.read ++ [(nextToken, result)] }
    | .querying _, none => some { s with collector := .raised }
    | _, _ => none
  | .isFull timeLeft =>
    match s.collector with
    | .adding event rest nextToken =>
      match s.isFull max true timeLeft with
      | none => some s
      | some true => some { s with collector := .leaving true nextToken }
      | some false => some { s with
          submitCount := s.submitCount + 1
          collector := .starting event rest nextToken }
    | .checking nextToken =>
      if s.isFull max false timeLeft = some true then
        some { s with collector := .leaving false (some nextToken) }
      else some { s with collector := .querying (some nextToken) }
    | _ => none
  | .startThread =>
    match s.collector with
    | .starting event rest nextToken =>
      some { s with
        workers := s.workers ++ [⟨event, .locking⟩]
        collector := nextEvent rest nextToken }
    | _ => none
  | .endCollect =>
    match s.collector with
    | .leaving full nextToken =>
      some { s with collector := .returned, invoked := full || nextToken.isSome }
    | _ => none
  | _ => none

/-- `worker` catches whatever `__inner_worker` raises. -/
def workerStep (s : State ε) (a : Act ε) (i : ℕ) : Option (State ε) :=
  match s.workers[i]?, a with
  | some ⟨event, .locking⟩, .tryLock _ acquire updateActionTime release =>
    if tryLock acquire updateActionTime release = some true then some (s.setPc i event .deciding)
    else some (s.setPc i event .refused)
  | some ⟨event, .deciding⟩, .shouldPoll _ found deleteEvent =>
    match shouldPoll found deleteEvent with
    | some true => some (s.setPc i event .beginning)
    | some false => some (s.setPc i event .refused)
    | none => some (s.setPc i event .ended)
  | some ⟨event, .refused⟩, .decSubmitCount _ => some (s.decSubmitCount.setPc i event .ended)
  | some ⟨event, .beginning⟩, .beginPoll _ => some (s.beginPoll.setPc i event .polling)
  | some ⟨event, .polling⟩, .endPoll _ => some (s.setPc i event .ended)
  | _, _ => none

def step (max : ℕ) (s : State ε) : Act ε → Option (State ε)
  | a@(.tryLock i ..) | a@(.shouldPoll i ..) | a@(.decSubmitCount i) | a@(.beginPoll i)
  | a@(.endPoll i) => workerStep s a i
  | a => collectorStep max s a

theorem step_cases {max : ℕ} {s t : State ε} {a : Act ε} (h : step max s a = some t) :
    collectorStep max s a = some t ∨ ∃ i, workerStep s a i = some t := by
  cases a with
  | queryEvents | isFull | startThread | endCollect => exact .inl h
  | tryLock | shouldPoll | decSubmitCount | beginPoll | endPoll => exact .inr ⟨_, h⟩

def initial : State ε := ⟨0, 0, [], .querying none, [], false⟩

end ShimService.PollingGroup
