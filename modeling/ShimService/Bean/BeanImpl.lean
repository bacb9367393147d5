import Mathlib.Logic.Function.Basic
import ShimService.Library.Once
import ShimService.Library.RLock

/-!
`_BeanImpl` of `bean.beans`: any number of threads that get instances of any number of beans, each
read and write of a field a step of its own. An initializer gets instances of other beans, in any
order and as often as it likes, before it returns or raises.
-/
namespace ShimService.BeanImpl

open Transition Once

/-- Where a call of `get_instance` stands, named after what it does next. -/
inductive Pc (ν : Type*) where
  | testing
  -- `__execute_with_lock`
  | readingMutex
  | acquiringGlobal
  | testingMutex
  | testingInitialized
  | creatingMutex
  | rereadingMutex
  | leavingGlobal (returns : Bool)
  | entering
  | testingCleared
  -- `init`
  | testingAgain
  -- `__initialize`
  | asserting
  | marking
  | calling
  | assigning (v : Option ν)
  | finishing
  | unmarking (raised : Bool)
  | clearing
  | leaving (raised : Bool)
  | reading
  deriving DecidableEq, Repr

/-- A call of `get_instance`, with its variable `m`. -/
structure Frame (β ν : Type*) where
  bean : β
  m : Option ℕ
  pc : Pc ν
  deriving DecidableEq, Repr

/-- The fields of a bean. A mutex is told by its number among those created for the bean. `created`
and `log` are no fields of the source. -/
structure Bean (ν : Type*) where
  initialized : Bool
  value : Option ν
  mutex : Option ℕ
  initInProgress : Bool
  created : ℕ
  log : List (CellEvent (Option ν))

/-- The exceptions that leave a `get_instance`: the `BeanInitializationException`, the one of the
assertion in `__initialize`, and the one of a `with` whose `m` is `None`. -/
inductive Fault where
  | initialization
  | inProgress
  | noMutex
  deriving DecidableEq, Repr

/-- `faults` tells which call has raised which exception, the latest last. -/
structure State (τ β ν : Type*) where
  bean : β → Bean ν
  locks : β → ℕ → RLock τ
  globalMutex : Option τ
  stack : τ → List (Frame β ν)
  faults : List (τ × β × Fault)

/-- What `is_resettable()` tells, which beans are disabled, and of which beans the initializer of a
bean gets instances. -/
structure Setup (β : Type*) where
  resettable : Bool
  disabled : β → Bool
  needs : β → List β

/-- How a step goes: into a call of `get_instance`, on, or as the initializer has it. -/
inductive Choice (β ν : Type*) where
  | gets (bean : β)
  | goes
  | returns (v : Option ν)
  | raises
  deriving DecidableEq, Repr

variable {τ β ν : Type*}

/-- `_BeanImpl(initializer)`. -/
def Bean.new : Bean ν := ⟨false, none, none, false, 0, []⟩

def initial : State τ β ν := ⟨fun _ => .new, fun _ _ => none, none, fun _ => [], []⟩

variable [DecidableEq τ] [DecidableEq β]

namespace State

variable (s : State τ β ν) (t : τ) (f : Frame β ν) (rest : List (Frame β ν))

def setStack (frames : List (Frame β ν)) : State τ β ν :=
  { s with stack := Function.update s.stack t frames }

def goto (p : Pc ν) : State τ β ν := s.setStack t ({ f with pc := p } :: rest)

def setBean (b : β) (x : Bean ν) : State τ β ν := { s with bean := Function.update s.bean b x }

def setLock (b : β) (m : ℕ) (l : RLock τ) : State τ β ν :=
  { s with locks := Function.update s.locks b (Function.update (s.locks b) m l) }

def addFault (b : β) (fault : Fault) : State τ β ν :=
  { s with faults := s.faults ++ [(t, b, fault)] }

end State

/-- The next step of the call on top of a thread's stack. -/
def nextFrame (setup : Setup β) (s : State τ β ν) (t : τ) (f : Frame β ν)
    (rest : List (Frame β ν)) (choice : Choice β ν) : Option (State τ β ν) :=
  let x := s.bean f.bean
  let set := s.setBean f.bean
  match f.pc, choice with
  | .testing, .goes => some (s.goto t f rest (if x.initialized then .reading else .readingMutex))
  | .readingMutex, .goes =>
    some (s.goto t { f with m := x.mutex } rest
      (if x.mutex.isNone then .acquiringGlobal else .entering))
  | .acquiringGlobal, .goes =>
    if s.globalMutex.isNone then some ({ s with globalMutex := some t }.goto t f rest .testingMutex)
    else none
  | .testingMutex, .goes =>
    some (s.goto t f rest (if x.mutex.isNone then .testingInitialized else .rereadingMutex))
  | .testingInitialized, .goes =>
    some (s.goto t f rest (if x.initialized then .leavingGlobal true else .creatingMutex))
  | .creatingMutex, .goes =>
    some ((set { x with mutex := some x.created, created := x.created + 1 }).goto t f rest
      .rereadingMutex)
  | .rereadingMutex, .goes => some (s.goto t { f with m := x.mutex } rest (.leavingGlobal false))
  | .leavingGlobal returns, .goes =>
    some ({ s with globalMutex := none }.goto t f rest (if returns then .reading else .entering))
  | .entering, .goes =>
    match f.m with
    | none => some ((s.addFault t f.bean .noMutex).setStack t rest)
    | some m =>
      (RLock.acquire (s.locks f.bean m) t).map fun l =>
        (s.setLock f.bean m l).goto t f rest .testingCleared
  | .testingCleared, .goes =>
    some (s.goto t f rest (if x.mutex.isSome then .testingAgain else .leaving false))
  | .testingAgain, .goes =>
    some (s.goto t f rest (if x.initialized then .clearing else .asserting))
  | .asserting, .goes =>
    if x.initInProgress then
      some ((s.addFault t f.bean .inProgress).goto t f rest (.leaving true))
    else some (s.goto t f rest .marking)
  | .marking, .goes => some ((set { x with initInProgress := true }).goto t f rest .calling)
  | .calling, .returns v =>
    if setup.disabled f.bean then none
    else some ((set { x with log := x.log ++ [CellEvent.loaded v] }).goto t f rest (.assigning v))
  | .calling, .raises =>
    some ((set { x with log := x.log ++ [CellEvent.failed] }).goto t f rest (.unmarking true))
  | .assigning v, .goes => some ((set { x with value := v }).goto t f rest .finishing)
  | .finishing, .goes =>
    some ((set { x with initialized := true }).goto t f rest (.unmarking false))
  | .unmarking false, .goes =>
    some ((set { x with initInProgress := false }).goto t f rest .clearing)
  | .unmarking true, .goes =>
    some (((set { x with initInProgress := false }).addFault t f.bean .initialization).goto
      t f rest (.leaving true))
  | .clearing, .goes =>
    if setup.resettable then some (s.goto t f rest (.leaving false))
    else some ((set { x with mutex := none }).goto t f rest (.leaving false))
  | .leaving raised, .goes =>
    f.m.map fun m =>
      let released := s.setLock f.bean m (RLock.release (s.locks f.bean m))
      if raised then released.setStack t rest else released.goto t f rest .reading
  | .reading, .goes =>
    some ((set { x with log := x.log ++ [CellEvent.returned x.value] }).setStack t rest)
  | _, _ => none

/-- Whether a thread may call `get_instance` of a bean: it is in no such call, or in an initializer
that needs the bean. -/
def mayGet (setup : Setup β) (b : β) : List (Frame β ν) → Bool
  | [] => true
  | f :: _ =>
    match f.pc with
    | .calling => !setup.disabled f.bean && decide (b ∈ setup.needs f.bean)
    | _ => false

/-- The next step of a thread. -/
def next (setup : Setup β) (s : State τ β ν) (t : τ) :
    Choice β ν → Option (State τ β ν)
  | .gets b =>
    if mayGet setup b (s.stack t) then some (s.setStack t (⟨b, none, .testing⟩ :: s.stack t))
    else none
  | choice =>
    match s.stack t with
    | [] => none
    | f :: rest => nextFrame setup s t f rest choice

def step (setup : Setup β) (s : State τ β ν) (act : τ × Choice β ν) : Option (State τ β ν) :=
  next setup s act.1 act.2

end ShimService.BeanImpl
