import ShimService.Threading.Throttler

/-!
`SignalEvent` over its `Condition`: any number of threads wait on one event, and others notify and
reset it. Each section that holds the condition is one step, and so is the end of a timeout.
-/
namespace ShimService.Throttling

/-- `__signalled = False`. -/
def SignalEvent.reset (event : SignalEvent) : SignalEvent := { event with signalled := false }

/-- What a successful `wait` does to the signal. -/
def SignalEvent.autoReset (event : SignalEvent) : SignalEvent :=
  if event.manualReset then event else event.reset

end ShimService.Throttling

namespace ShimService.Signalling

open Throttling (SignalEvent)

variable {τ : Type*}

/-- A thread in the condition's `wait`. -/
structure Waiter (τ : Type*) where
  thread : τ
  millis : Option ℤ
  timedOut : Bool
  deriving DecidableEq, Repr

/-- `waiters` is the queue of the condition. A notify takes a waiter off it into `released`, where
it stays until it has the condition again. The last three are no fields of the source: the calls of
`notify`, what the calls of `wait` have returned, the latest first, and whether one of the notifies
that have set the signal since it was last cleared has woken nobody. -/
structure State (τ : Type*) where
  event : SignalEvent
  waiters : List (Waiter τ)
  released : List (Waiter τ)
  notifyCalls : ℕ
  returned : List Bool
  unheard : Bool
  deriving DecidableEq, Repr

/-- The threads in a `wait` of the condition. -/
def State.threads (s : State τ) : List τ := (s.waiters ++ s.released).map Waiter.thread

inductive Act (τ : Type*) where
  | notify (keepSignalled : Bool)
  | reset
  | wait (thread : τ) (millis : Option ℤ)
  | timeOut (thread : τ)
  | resume (thread : τ)
  deriving DecidableEq, Repr

/-- `Condition.notify(n)`. It may take a thread off the queue that has given up waiting. -/
def State.wake (s : State τ) (n : ℕ) : State τ :=
  { s with
    waiters := s.waiters.drop n
    released := s.released ++ s.waiters.take n
    unheard := s.unheard || (s.waiters.take n).all Waiter.timedOut }

/-- The beginning of `notify`. -/
def State.signal (s : State τ) (keepSignalled : Bool) : State τ :=
  { s with event := s.event.notify keepSignalled, notifyCalls := s.notifyCalls + 1 }

def notify (keepSignalled : Bool) (s : State τ) : State τ :=
  if (s.signal keepSignalled).event.manualReset then
    (s.signal keepSignalled).wake s.waiters.length
  else (s.signal keepSignalled).wake 1

def reset (s : State τ) : State τ := { s with event := s.event.reset, unheard := false }

/-- The rest of `wait`, from its test on. -/
def State.finish (s : State τ) (woken : Bool) : State τ :=
  if woken then { s with
    event := s.event.autoReset
    returned := true :: s.returned
    unheard := s.event.manualReset && s.unheard }
  else { s with returned := false :: s.returned }

variable [DecidableEq τ]

/-- `wait` up to the release of the condition. A thread makes one call at a time. -/
def wait (thread : τ) (millis : Option ℤ) (s : State τ) : Option (State τ) :=
  if thread ∈ s.threads then none
  else if s.event.signalled then some (s.finish true)
  else some { s with waiters := s.waiters ++ [⟨thread, millis, false⟩] }

/-- The timeout of a thread that has one runs out before it is notified. -/
def timeOut (thread : τ) (s : State τ) : Option (State τ) :=
  if s.waiters.any fun w => w.thread = thread ∧ w.millis.isSome then
    some { s with waiters := s.waiters.map fun w =>
      if w.thread = thread then { w with timedOut := true } else w }
  else none

/-- A thread has the condition again, notified or timed out. In the second case it takes itself off
the queue where no notify has done so. -/
def resume (thread : τ) (s : State τ) : Option (State τ) :=
  match s.released.find? fun w => w.thread = thread with
  | some w => some ({ s with released := s.released.erase w }.finish !w.timedOut)
  | none =>
    match s.waiters.find? fun w => w.thread = thread ∧ w.timedOut with
    | some w => some ({ s with waiters := s.waiters.erase w }.finish false)
    | none => none

def step (s : State τ) : Act τ → Option (State τ)
  | .notify keepSignalled => some (notify keepSignalled s)
  | .reset => some (reset s)
  | .wait thread millis => wait thread millis s
  | .timeOut thread => timeOut thread s
  | .resume thread => resume thread s

/-- `SignalEvent()`. -/
def initial : State τ := ⟨⟨false, false⟩, [], [], 0, [], false⟩

end ShimService.Signalling
