import Mathlib.Data.Int.Basic
import ShimService.Library.Transition

/-!
`Throttler`: callers add invocations and close it, and its one worker thread calls the caller.
Each section under the mutex, each operation of the event, each start and return of the caller and
the worker's own read of the shutdown flag is one step.
-/
namespace ShimService.Throttling

/-- `SignalEvent`. -/
structure SignalEvent where
  signalled : Bool
  manualReset : Bool
  deriving DecidableEq, Repr

def SignalEvent.notify (event : SignalEvent) (keepSignalled : Bool) : SignalEvent where
  signalled := true
  manualReset := event.manualReset || keepSignalled

/-- A wait returns at a signal or, at any time, because its timeout has run out. -/
def SignalEvent.wait (event : SignalEvent) (timedOut : Bool) : Option SignalEvent :=
  if timedOut then some event
  else if event.signalled then
    some (if event.manualReset then event else { event with signalled := false })
  else none

/-- The constructor's argument, which it asserts to be positive. -/
structure Throttler where
  throttleMillis : ℤ
  throttleMillis_pos : 0 < throttleMillis

/-- Where the worker stands: not started, at the wait, at its section, about to call the caller,
in the call, or at its read of the shutdown flag. -/
inductive Worker where
  | absent
  | waiting
  | deciding
  | calling
  | inCall
  | checking
  | ended
  deriving DecidableEq, Repr

/-- A thread is started where there is none. -/
def Worker.started (worker : Worker) : Worker :=
  if worker = .absent then .waiting else worker

/-- `startTime` is the worker's own variable. `unserved` is no field of the source: it says that an
invocation has been accepted since the caller was last called. -/
structure State where
  clock : ℤ
  event : SignalEvent
  anyWaiting : Bool
  shutdown : Bool
  worker : Worker
  startTime : Option ℤ
  unserved : Bool
  deriving DecidableEq, Repr

/-- What other threads do, the clock among them, and the steps of the worker. A caller that raises
returns like any other. -/
inductive Act where
  | clock (now : ℤ)
  | add
  | addRaises
  | close
  | wait (timedOut : Bool)
  | decide
  | call
  | returns
  | check
  deriving DecidableEq, Repr

/-- The worker's steps, and the return of the caller it calls. -/
def Act.OfWorker : Act → Prop
  | .wait _ | .decide | .call | .returns | .check => True
  | _ => False

def addInvocation (s : State) : Except String State :=
  if s.shutdown then .error "closed"
  else .ok { s with
    anyWaiting := true
    worker := s.worker.started
    event := s.event.notify false
    unserved := true }

/-- `close` up to its `join`, which changes nothing. -/
def close (s : State) : State :=
  if s.shutdown then s
  else { s with
    shutdown := true
    event := if s.worker = .absent then s.event else s.event.notify true }

/-- The end of the section when it has set `invoke`. -/
def State.invoke (s : State) : State :=
  { s with anyWaiting := false, startTime := none, worker := .calling }

namespace Throttler

variable (th : Throttler)

/-- The section of the worker's loop. -/
def decideInvoke (s : State) : State :=
  if s.anyWaiting then
    if s.shutdown then s.invoke
    else match s.startTime with
      | none => { s with startTime := some s.clock, worker := .checking }
      | some startTime =>
        if th.throttleMillis ≤ s.clock - startTime then s.invoke
        else { s with worker := .checking }
  else { s with worker := .checking }

def workerStep (s : State) : Act → Option State
  | .wait timedOut =>
    if s.worker = .waiting then
      (s.event.wait timedOut).map fun event => { s with event := event, worker := .deciding }
    else none
  | .decide => if s.worker = .deciding then some (th.decideInvoke s) else none
  | .call =>
    if s.worker = .calling then some { s with worker := .inCall, unserved := false } else none
  | .returns => if s.worker = .inCall then some { s with worker := .checking } else none
  | .check =>
    if s.worker = .checking then
      some { s with worker := if s.shutdown then .ended else .waiting }
    else none
  | _ => none

def step (s : State) : Act → Option State
  | .clock now => some { s with clock := now }
  | .add => (addInvocation s).toOption
  | .addRaises => if (addInvocation s).toOption = none then some s else none
  | .close => some (close s)
  | a => th.workerStep s a

end Throttler

def initial (now : ℤ) : State where
  clock := now
  event := ⟨false, false⟩
  anyWaiting := false
  shutdown := false
  worker := .absent
  startTime := none
  unserved := false

end ShimService.Throttling
