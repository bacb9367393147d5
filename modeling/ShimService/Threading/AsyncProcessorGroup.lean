import Mathlib.Data.List.Basic
import ShimService.Library.Transition

/-!
`AsyncProcessorGroup` over its `BufferedList`: the producer adds objects and then joins once
without a timeout, while the worker threads it starts take batches from a bounded queue.
-/
namespace ShimService.Threading

variable {α : Type*}

/-- The arguments that the constructor asserts to be positive. -/
structure Group where
  maxThreads : ℕ
  partitionSize : ℕ
  maxQueueSize : ℕ
  maxThreads_pos : 0 < maxThreads
  partitionSize_pos : 0 < partitionSize
  maxQueueSize_pos : 0 < maxQueueSize

/-- A call of `add`, or one of `add_all` with a list; other iterables are added one by one. -/
inductive Add (α : Type*) where
  | add (obj : α)
  | addAll (objs : List α)
  deriving DecidableEq, Repr

def Add.objects : Add α → List α
  | .add obj => [obj]
  | .addAll objs => objs

/-- The objects of some calls in order. -/
def objects (adds : List (Add α)) : List α := adds.flatMap Add.objects

/-- Where the producer stands: in its adds, in the `__submit` of a full buffer, or in `join`. -/
inductive Producer (α : Type*) where
  | adding (todo : List (Add α)) (source : List α)
  | submitting (todo : List (Add α)) (source : List α)
  | starting (todo : List (Add α)) (source : List α)
  | putting (todo : List (Add α)) (source : List α)
  | executing (batch : List α)
  | marking (left : ℕ)
  | waiting (joined : ℕ)
  | returned
  deriving DecidableEq, Repr

inductive Worker (α : Type*) where
  | getting
  | took (batch : List α)
  | executing (batch : List α)
  | ended
  deriving DecidableEq, Repr

/-- `queue` holds batches and the end marker `none`. Until the first submit there is neither a
queue nor a thread, which is as good as empty ones. `processed` lists the batches passed to the
processor and `errors` those it raised on. -/
structure State (α : Type*) where
  producer : Producer α
  queue : List (Option (List α))
  workers : List (Worker α)
  processed : List (List α)
  errors : List (List α)
  deriving DecidableEq, Repr

def State.setWorker (s : State α) (i : ℕ) (w : Worker α) : State α :=
  { s with workers := s.workers.set i w }

/-- `__execute` up to its call of the processor. -/
def State.process (s : State α) (batch : List α) : State α :=
  { s with processed := s.processed ++ [batch] }

/-- The rest of it. -/
def State.processorDone (s : State α) (batch : List α) (raises : Bool) : State α :=
  if raises then { s with errors := s.errors ++ [batch] } else s

inductive Act where
  | producer (raises : Bool)
  | worker (i : ℕ) (raises : Bool)
  deriving DecidableEq, Repr

def workerStep (s : State α) (i : ℕ) (raises : Bool) : Option (State α) :=
  match s.workers[i]? with
  | some .getting =>
    match s.queue with
    | [] => none
    | some batch :: queue => some ({ s with queue := queue }.setWorker i (.took batch))
    | none :: queue => some ({ s with queue := queue }.setWorker i .ended)
  | some (.took batch) => some ((s.process batch).setWorker i (.executing batch))
  | some (.executing batch) => some ((s.processorDone batch raises).setWorker i .getting)
  | some .ended | none => none

namespace Group

variable (g : Group)

def producerStep (s : State α) (raises : Bool) : Option (State α) :=
  match s.producer with
  | .adding (.add obj :: todo) source =>
    if source.length = g.partitionSize then
      some { s with producer := .submitting (.add obj :: todo) source }
    else some { s with producer := .adding todo (source ++ [obj]) }
  | .adding (.addAll objs :: todo) source =>
    if objs = [] then some { s with producer := .adding todo source }
    else if source.length = g.partitionSize then
      some { s with producer := .submitting (.addAll objs :: todo) source }
    else
      let count := min objs.length (g.partitionSize - source.length)
      some { s with
        producer := .adding (.addAll (objs.drop count) :: todo) (source ++ objs.take count) }
  | .submitting todo source =>
    if s.workers.length = 0 ∨ (0 < s.queue.length ∧ s.workers.length < g.maxThreads) then
      some { s with producer := .starting todo source }
    else some { s with producer := .putting todo source }
  | .starting todo source =>
    some { s with workers := s.workers ++ [.getting], producer := .putting todo source }
  | .putting todo source =>
    if s.queue.length < g.maxQueueSize then
      some { s with queue := s.queue ++ [some source], producer := .adding todo [] }
    else none
  -- `join`, whose thread processes what is left in the buffer.
  | .adding [] source =>
    if source = [] then some { s with producer := .marking s.workers.length }
    else some ({ s with producer := .executing source }.process source)
  | .executing batch =>
    some ({ s with producer := .marking s.workers.length }.processorDone batch raises)
  | .marking (left + 1) =>
    if s.queue.length < g.maxQueueSize then
      some { s with queue := s.queue ++ [none], producer := .marking left }
    else none
  | .marking 0 => some { s with producer := .waiting 0 }
  | .waiting joined =>
    match s.workers[joined]? with
    | some .ended => some { s with producer := .waiting (joined + 1) }
    | some _ => none
    | none => some { s with producer := .returned }
  | .returned => none

def step (s : State α) : Act → Option (State α)
  | .producer raises => g.producerStep s raises
  | .worker i raises => workerStep s i raises

end Group

/-- Nothing has been added yet. -/
def initial (adds : List (Add α)) : State α := ⟨.adding adds [], [], [], [], []⟩

end ShimService.Threading
