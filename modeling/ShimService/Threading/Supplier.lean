import Mathlib.Logic.Function.Basic
import ShimService.Library.Once

/-!
`MemoizedSupplier` of `utils.supplier`: any number of threads that call `get`, each read and write
of a field a step of its own. A getter does not call the `get` of its own supplier.
-/
namespace ShimService.MemoizedSupplier

open Transition Once

/-- Where a call of `get` stands, named after what it does next. -/
inductive Pc (ν : Type*) where
  | idle
  | testing
  | readingMutex
  | acquiring
  | testingAgain
  | calling
  | assigning (v : Option ν)
  | setting
  | deleting
  | callingBack
  | clearing
  | leaving (raised : Bool)
  | reading
  deriving DecidableEq, Repr

namespace Pc

variable {ν : Type*}

/-- In the section of the mutex. -/
def inside : Pc ν → Bool
  | testingAgain | calling | assigning _ | setting | deleting | callingBack | clearing
  | leaving _ => true
  | _ => false

/-- What is known of `__value_set` at a place. -/
def known : Pc ν → Option Bool
  | calling | assigning _ | setting => some false
  | deleting | callingBack | clearing | leaving false | reading => some true
  | _ => none

/-- The value that the getter has returned to a thread at a place, until `__value_set` is set. -/
def pending (value : Option ν) : Pc ν → Option (Option ν)
  | assigning v => some v
  | setting => some value
  | _ => none

end Pc

/-- `mutex` and `getter` tell whether these fields are still there. A value is an `Option`, since a
getter may return `None`. `callback` is an argument of each call, and `log` is no field. -/
structure State (τ ν : Type*) where
  valueSet : Bool
  mutex : Bool
  holder : Option τ
  value : Option ν
  getter : Bool
  pc : τ → Pc ν
  callback : τ → Bool
  log : List (CellEvent (Option ν))

/-- How a step goes: on, or into a new call, or as the getter or the callback has it. -/
inductive Choice (ν : Type*) where
  | begins (callback : Bool)
  | goes
  | returns (v : Option ν)
  | raises
  deriving DecidableEq, Repr

variable {τ ν : Type*}

/-- `MemoizedSupplier(getter)`. -/
def initial : State τ ν := ⟨false, true, none, none, true, fun _ => .idle, fun _ => false, []⟩

variable [DecidableEq τ]

def State.goto (s : State τ ν) (t : τ) (p : Pc ν) : State τ ν :=
  { s with pc := Function.update s.pc t p }

/-- The next step of a thread. -/
def next (s : State τ ν) (t : τ) (choice : Choice ν) : Option (State τ ν) :=
  match s.pc t, choice with
  | .idle, .begins callback =>
    some ({ s with callback := Function.update s.callback t callback }.goto t .testing)
  | .testing, .goes => some (s.goto t (if s.valueSet then .reading else .readingMutex))
  | .readingMutex, .goes => some (s.goto t (if s.mutex then .acquiring else .reading))
  | .acquiring, .goes =>
    if s.holder.isNone then some ({ s with holder := some t }.goto t .testingAgain) else none
  | .testingAgain, .goes => some (s.goto t (if s.valueSet then .leaving false else .calling))
  | .calling, .returns v =>
    if s.getter then some ({ s with log := s.log ++ [CellEvent.loaded v] }.goto t (.assigning v))
    else none
  | .calling, .raises =>
    if s.getter then some ({ s with log := s.log ++ [CellEvent.failed] }.goto t (.leaving true))
    else none
  -- `AttributeError`
  | .calling, .goes => if s.getter then none else some (s.goto t (.leaving true))
  | .assigning v, .goes => some ({ s with value := v }.goto t .setting)
  | .setting, .goes => some ({ s with valueSet := true }.goto t .deleting)
  | .deleting, .goes =>
    some ({ s with getter := false }.goto t (if s.callback t then .callingBack else .clearing))
  | .callingBack, .goes => some (s.goto t .clearing)
  | .callingBack, .raises => some (s.goto t (.leaving true))
  | .clearing, .goes => some ({ s with mutex := false }.goto t (.leaving false))
  | .leaving raised, .goes =>
    some ({ s with holder := none }.goto t (if raised then .idle else .reading))
  | .reading, .goes => some ({ s with log := s.log ++ [CellEvent.returned s.value] }.goto t .idle)
  | _, _ => none

def step (s : State τ ν) (act : τ × Choice ν) : Option (State τ ν) := next s act.1 act.2

/-- The value that the getter has returned, from then on. -/
def State.cell (s : State τ ν) : Option (Option ν) :=
  if s.valueSet then some s.value else s.holder.bind fun t => (s.pc t).pending s.value

end ShimService.MemoizedSupplier
