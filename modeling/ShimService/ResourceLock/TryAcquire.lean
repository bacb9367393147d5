import ShimService.Library.Transition
import ShimService.Repo

/-!
`AwsResourceLockRepo`: `try_acquire`, `refresh` and `release`, one DynamoDB request or clock
reading to a step. A client is one caller of `try_acquire` with the handle it is given.
-/
namespace ShimService.ResourceLockRepo

open CondTable AbstractAwsRepo

/-- The attribute of a lock record beside its `resourceName`. -/
structure LocalDto where
  timeoutAt : ℕ
  deriving DecidableEq, Repr

/-- The arguments of `try_acquire`; a refresh uses the same number of seconds. -/
structure Args where
  name : String
  expireSeconds : ℕ
  deriving DecidableEq, Repr

/-- Where a client stands. `tries` counts the attempts the retry decorator has left. -/
inductive Client where
  | idle
  | start (tries : ℕ)
  | stamped (tries now : ℕ)
  | creating (tries now target : ℕ)
  | finding (tries now target : ℕ)
  | recreating (target : ℕ)
  | takingOver (tries : ℕ) (current : LocalDto) (target : ℕ)
  | held (timeoutAt : ℕ)
  | refreshing (timeoutAt target : ℕ)
  | refreshCreating (timeoutAt target : ℕ)
  | released (result : Bool)
  | refused
  | raised
  deriving DecidableEq, Repr

/-- The decorator's `tries` on `try_acquire`. -/
def maxTries : ℕ := 10

/-- An `OptimisticLockException` inside `try_acquire` uses up one attempt. -/
def Client.retry (tries : ℕ) : Client := if tries ≤ 1 then .raised else .start (tries - 1)

/-- The `timeout_at` of a client's handle, while the handle is not released. -/
def Client.handle : Client → Option ℕ
  | .held timeoutAt | .refreshing timeoutAt _ | .refreshCreating timeoutAt _ => some timeoutAt
  | _ => none

/-- The lock table and the clients. `writer` is the client whose write each record is. -/
structure State where
  clock : ℕ
  table : Table String LocalDto
  clients : ℕ → Client
  writer : String → Option ℕ

def State.now (s : State) : ℕ := getSystemTimeInSeconds s.clock

def State.setClient (s : State) (c : ℕ) (client : Client) : State :=
  { s with clients := Function.update s.clients c client }

def State.setTable (s : State) (table : Table String LocalDto) : State := { s with table := table }

/-- The state after a write of client `c` to the record `name`. -/
def State.wrote (s : State) (c : ℕ) (name : String) (table : Table String LocalDto) : State :=
  { s with table := table, writer := Function.update s.writer name (some c) }

section

variable (s : State) (c d : ℕ) (client : Client) (name : String) (table : Table String LocalDto)

@[simp] theorem State.setClient_now : (s.setClient c client).now = s.now := rfl
@[simp] theorem State.setClient_table : (s.setClient c client).table = s.table := rfl
@[simp] theorem State.setClient_writer : (s.setClient c client).writer = s.writer := rfl

@[simp] theorem State.setClient_clients :
    (s.setClient c client).clients d = if d = c then client else s.clients d := by
  simp [State.setClient, Function.update_apply]

@[simp] theorem State.setTable_now : (s.setTable table).now = s.now := rfl
@[simp] theorem State.setTable_table : (s.setTable table).table = table := rfl
@[simp] theorem State.setTable_clients : (s.setTable table).clients = s.clients := rfl
@[simp] theorem State.setTable_writer : (s.setTable table).writer = s.writer := rfl

@[simp] theorem State.wrote_now : (s.wrote c name table).now = s.now := rfl
@[simp] theorem State.wrote_table : (s.wrote c name table).table = table := rfl
@[simp] theorem State.wrote_clients : (s.wrote c name table).clients = s.clients := rfl

@[simp] theorem State.wrote_writer :
    (s.wrote c name table).writer = Function.update s.writer name (some c) := rfl

end

/-- Time passes, a client begins `try_acquire`, takes its next step, begins `refresh` or calls
`release`. -/
inductive Act where
  | tick (millis : ℕ)
  | acquire (c : ℕ)
  | next (c : ℕ)
  | refresh (c : ℕ)
  | release (c : ℕ)
  deriving DecidableEq, Repr

/-- The client an action is a step of. -/
def Act.client : Act → Option ℕ
  | .tick _ => none
  | .acquire c | .next c | .refresh c | .release c => some c

/-- A put of `dto`, after which the client stands at `granted` or, where it is refused, at
`otherwise`. -/
def createStep (args : ℕ → Args) (s : State) (c : ℕ) (dto : LocalDto)
    (granted otherwise : Client) : State :=
  match create s.table (args c).name dto with
  | some table => (s.wrote c (args c).name table).setClient c granted
  | none => s.setClient c otherwise

/-- A patch of `expireAt` from the caller's value to `target`. -/
def patchStep (args : ℕ → Args) (s : State) (c : ℕ) (dto : LocalDto) (target : ℕ)
    (otherwise : Client) : State :=
  match patchWithCondition s.table (args c).name LocalDto.timeoutAt dto.timeoutAt
      fun _ => ⟨target⟩ with
  | some table => (s.wrote c (args c).name table).setClient c (.held target)
  | none => s.setClient c otherwise

/-- The next step of `try_acquire` or of `__refresher`. -/
def nextStep (args : ℕ → Args) (s : State) (c : ℕ) : Option State :=
  match s.clients c with
  | .start tries =>
    if 0 < (args c).expireSeconds ∧ (args c).expireSeconds < 880 then
      some (s.setClient c (.stamped tries s.now))
    else some (s.setClient c .raised)
  | .stamped tries now =>
    some (s.setClient c
      (.creating tries now (getEpochSecondsInFuture (args c).expireSeconds s.clock)))
  | .creating tries now target =>
    some (createStep args s c ⟨target⟩ (.held target) (.finding tries now target))
  | .finding tries now target =>
    match find s.table (args c).name with
    | none => some (s.setClient c (.recreating target))
    | some current =>
      if current.timeoutAt ≥ now then some (s.setClient c .refused)
      else some (s.setClient c (.takingOver tries current target))
  | .recreating target => some (createStep args s c ⟨target⟩ (.held target) .refused)
  | .takingOver tries current target => some (patchStep args s c current target (.retry tries))
  | .refreshing timeoutAt target =>
    some (patchStep args s c ⟨timeoutAt⟩ target (.refreshCreating timeoutAt target))
  -- The record put back here has the old expiry, and the handle gets the new one.
  | .refreshCreating timeoutAt target =>
    some (createStep args s c ⟨timeoutAt⟩ (.held target) (.held timeoutAt))
  | _ => none

def step (args : ℕ → Args) (s : State) : Act → Option State
  | .tick millis => some { s with clock := s.clock + millis }
  | .acquire c =>
    match s.clients c with
    | .idle | .refused | .raised => some (s.setClient c (.start maxTries))
    | _ => none
  | .next c => nextStep args s c
  | .refresh c =>
    match s.clients c with
    | .held timeoutAt =>
      some (s.setClient c
        (.refreshing timeoutAt (getEpochSecondsInFuture (args c).expireSeconds s.clock)))
    | _ => none
  | .release c =>
    match s.clients c with
    | .held timeoutAt =>
      match deleteWithCondition s.table (args c).name LocalDto.timeoutAt timeoutAt with
      | some table => some ((s.setTable table).setClient c (.released true))
      | none => some (s.setClient c (.released false))
    | _ => none

/-- No client has begun, and the table holds any records. -/
def initial (clock : ℕ) (table : Table String LocalDto) : State :=
  ⟨clock, table, fun _ => .idle, fun _ => none⟩

end ShimService.ResourceLockRepo
