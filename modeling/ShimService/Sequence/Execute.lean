import ShimService.Library.Transition
import ShimService.Repo

/-!
`AwsSequenceRepo.execute`: any number of calls, each a consistent find, a write that takes the
slot, the caller's work and a write that frees the slot, with any other steps in between.
-/
namespace ShimService.SequenceRepo

open CondTable AbstractAwsRepo

/-- The hash key of the sequence table: `tenantId` and `sequenceName`. -/
abbrev SeqKey := ℕ × String

/-- The `Sequence` record beside its key. -/
structure Sequence where
  nextValue : ℕ
  timeoutAt : ℕ
  deriving DecidableEq, Repr

/-- The arguments of one `execute` call. -/
structure Args where
  tenantId : ℕ
  name : String
  maxLockSeconds : ℕ
  deriving DecidableEq, Repr

def Args.key (a : Args) : SeqKey := (a.tenantId, a.name)

/-- Where one `execute` call stands. `tries` counts the attempts the retry decorator has left. -/
inductive Call where
  | start (tries : ℕ)
  | found (tries : ℕ) (current : Option Sequence)
  | stamped (tries : ℕ) (current : Option Sequence) (nextTimeout : ℕ)
  | ready (tries : ℕ) (current : Option Sequence) (nextTimeout : ℕ)
  | running (held : Sequence)
  | releasing (held : Sequence) (returned : Bool)
  | returned (seqNo : ℕ)
  | raised (seqNo : Option ℕ)
  deriving DecidableEq, Repr

/-- The decorator's `tries` on `__get_current_sequence`. -/
def maxTries : ℕ := 20

/-- An `OptimisticLockException` inside `__get_current_sequence` uses up one attempt. -/
def Call.retry (tries : ℕ) : Call :=
  if tries ≤ 1 then .raised none else .start (tries - 1)

/-- The number handed to a caller whose callback runs or has run. -/
@[simp] def Call.seqNo : Call → Option ℕ
  | .running held | .releasing held _ => some held.nextValue
  | .returned n => some n
  | .raised n => n
  | .start _ | .found _ _ | .stamped _ _ _ | .ready _ _ _ => none

theorem Call.seqNo_retry (tries : ℕ) : (Call.retry tries).seqNo = none := by
  unfold Call.retry
  split <;> rfl

/-- The slot a call holds between its take and its release. -/
@[simp] def Call.held : Call → Option Sequence
  | .running held | .releasing held _ => some held
  | _ => none

/-- The test of `__get_current_sequence` on the row it found, at a clock in milliseconds. -/
def slotBusy (current : Sequence) (clock : ℕ) : Bool :=
  0 < current.timeoutAt && getSystemTimeInSeconds clock < current.timeoutAt

/-- The write of `__get_current_sequence`, with the slot it hands to the caller. The patch is
conditional on the stored `timeoutAt` only. -/
def takeSlot (table : Table SeqKey Sequence) (key : SeqKey) (current : Option Sequence)
    (nextTimeout : ℕ) (autoIncrement : Bool) : Option (Table SeqKey Sequence × Sequence) :=
  match current with
  | none =>
    (create table key ⟨2, nextTimeout⟩).map fun t =>
      (t, ⟨if autoIncrement then 1 else 0, nextTimeout⟩)
  | some cur =>
    (patchWithCondition table key Sequence.timeoutAt cur.timeoutAt fun row =>
      { row with
        timeoutAt := nextTimeout
        nextValue := if autoIncrement then cur.nextValue + 1 else row.nextValue }).map fun t =>
      (t, ⟨cur.nextValue, nextTimeout⟩)

/-- The write in the `finally` of `execute`: it frees the slot if it is still the caller's. -/
def releaseSlot (table : Table SeqKey Sequence) (key : SeqKey) (held : Sequence) :
    Option (Table SeqKey Sequence) :=
  patchWithCondition table key Sequence.timeoutAt held.timeoutAt fun row =>
    { row with timeoutAt := 0 }

structure State where
  clock : ℕ
  table : Table SeqKey Sequence
  calls : ℕ → Call

def State.setCall (s : State) (c : ℕ) (call : Call) : State :=
  { s with calls := Function.update s.calls c call }

@[simp] theorem State.setCall_clock (s : State) (c : ℕ) (call : Call) :
    (s.setCall c call).clock = s.clock := rfl

@[simp] theorem State.setCall_table (s : State) (c : ℕ) (call : Call) :
    (s.setCall c call).table = s.table := rfl

@[simp] theorem State.setCall_calls (s : State) (c d : ℕ) (call : Call) :
    (s.setCall c call).calls d = if d = c then call else s.calls d := by
  simp [State.setCall, Function.update_apply]

/-- Calls are numbered; a store step is one action, and any time may pass between two actions. -/
inductive Act where
  | tick (millis : ℕ)
  | find (c : ℕ)
  | stamp (c : ℕ)
  | check (c : ℕ)
  | take (c : ℕ)
  | callback (c : ℕ) (returned : Bool)
  | release (c : ℕ)
  deriving DecidableEq, Repr

/-- One action of the calls with arguments `args`, or `none` where it is not enabled. -/
def step (args : ℕ → Args) (s : State) : Act → Option State
  | .tick millis => some { s with clock := s.clock + millis }
  | .find c =>
    match s.calls c with
    | .start tries => some (s.setCall c (.found tries (find s.table (args c).key)))
    | _ => none
  | .stamp c =>
    match s.calls c with
    | .found tries current =>
      some (s.setCall c (.stamped tries current
        (getEpochSecondsInFuture (args c).maxLockSeconds s.clock)))
    | _ => none
  | .check c =>
    match s.calls c with
    | .stamped tries current nextTimeout =>
      if current.any (slotBusy · s.clock) then some (s.setCall c (.retry tries))
      else some (s.setCall c (.ready tries current nextTimeout))
    | _ => none
  | .take c =>
    match s.calls c with
    | .ready tries current nextTimeout =>
      match takeSlot s.table (args c).key current nextTimeout true with
      | some (table, held) => some ({ s with table := table }.setCall c (.running held))
      | none => some (s.setCall c (.retry tries))
    | _ => none
  | .callback c returned =>
    match s.calls c with
    | .running held => some (s.setCall c (.releasing held returned))
    | _ => none
  | .release c =>
    match s.calls c with
    | .releasing held returned =>
      match releaseSlot s.table (args c).key held with
      | some table => some ({ s with table := table }.setCall c
          (if returned then .returned held.nextValue else .raised (some held.nextValue)))
      | none => some (s.setCall c (.raised (some held.nextValue)))
    | _ => none

/-- No call has begun; the table is any. -/
def initial (clock : ℕ) (table : Table SeqKey Sequence) : State :=
  ⟨clock, table, fun _ => .start maxTries⟩

end ShimService.SequenceRepo
