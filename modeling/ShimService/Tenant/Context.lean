import ShimService.Library.Transition
import ShimService.Repo

/-!
`AwsTenantContextRepo` under any number of clients, each of which makes one store request at a
time. The one context type is X1440, so a tenant context is stored under its tenant.
-/
namespace ShimService.TenantContextRepo

open CondTable AbstractAwsRepo Transition

/-- What the serialized `data` of a context holds. -/
structure ContextSettings where
  replayId : Option (List ℕ) := none
  deriving DecidableEq, Repr

structure TenantContext where
  stateCounter : ℕ
  data : ContextSettings
  deriving DecidableEq, Repr

def findContext (table : Table ℕ TenantContext) (tenantId : ℕ) : Option TenantContext :=
  find table tenantId

/-- The context `should_poll` builds where none is found. -/
def defaultContext : TenantContext := ⟨0, {}⟩

/-- The first request of `update_or_create_context`. -/
def patchContext (table : Table ℕ TenantContext) (tenantId : ℕ) (context : TenantContext) :
    Option (Table ℕ TenantContext) :=
  patchWithCondition table tenantId (·.stateCounter) context.stateCounter
    ({ · with stateCounter := context.stateCounter + 1, data := context.data })

/-- The second, where the first is refused. -/
def createContext (table : Table ℕ TenantContext) (tenantId : ℕ) (context : TenantContext) :
    Option (Table ℕ TenantContext) :=
  create table tenantId context

/-- A client's context. `missing` is true of a default one that it has not stored, and `base`
counts the writes to the tenant's row that the context includes. -/
structure Copy where
  tenantId : ℕ
  context : TenantContext
  missing : Bool
  base : ℕ
  deriving DecidableEq, Repr

/-- `held` is the object a client has and `passed` the one it has called with. -/
inductive Client where
  | idle
  | holding (held : Copy)
  | creating (held passed : Copy)
  deriving DecidableEq, Repr

def Client.held : Client → Option Copy
  | .idle => none
  | .holding held | .creating held _ => some held

/-- `writes` lists, for each successful call on a tenant's row, the writes its copy included. -/
structure State where
  table : Table ℕ TenantContext
  clients : ℕ → Client
  writes : ℕ → List ℕ

def State.setClient (s : State) (c : ℕ) (client : Client) : State :=
  { s with clients := Function.update s.clients c client }

/-- A call with `passed` has written its row. -/
def State.wrote (s : State) (table : Table ℕ TenantContext) (passed : Copy) : State :=
  { s with
    table := table
    writes := Function.update s.writes passed.tenantId
      (s.writes passed.tenantId ++ [passed.base]) }

/-- `copied` calls go through `set_context_data`, which passes a copy of the client's context. -/
inductive Act where
  | find (c tenantId : ℕ)
  | patch (c : ℕ) (data : ContextSettings) (copied : Bool)
  | create (c : ℕ) (copied : Bool)
  deriving DecidableEq, Repr

/-- The copy that includes all writes and the client's own, which is `context` now. -/
def State.synced (s : State) (tenantId : ℕ) (context : TenantContext) : Copy :=
  ⟨tenantId, context, false, (s.writes tenantId).length⟩

def step (s : State) : Act → Option State
  | .find c tenantId =>
    match findContext s.table tenantId with
    | some context => some (s.setClient c (.holding (s.synced tenantId context)))
    | none => some (s.setClient c
        (.holding ⟨tenantId, defaultContext, true, (s.writes tenantId).length⟩))
  | .patch c data copied =>
    match s.clients c with
    | .holding held =>
      let passed := { held with context := { held.context with data := data } }
      match patchContext s.table held.tenantId passed.context with
      | some table =>
        let t := s.wrote table passed
        let updated := { passed.context with stateCounter := passed.context.stateCounter + 1 }
        some (t.setClient c (.holding (if copied then held else t.synced held.tenantId updated)))
      | none => some (s.setClient c (.creating (if copied then held else passed) passed))
    | _ => none
  | .create c copied =>
    match s.clients c with
    | .creating held passed =>
      match createContext s.table passed.tenantId passed.context with
      | some table =>
        let t := s.wrote table passed
        some (t.setClient c
          (.holding (if copied then held else t.synced passed.tenantId passed.context)))
      -- The `OptimisticLockException`.
      | none => some (s.setClient c (.holding held))
    | _ => none

/-- No client has called; the rows are any. -/
def initial (table : Table ℕ TenantContext) : State := ⟨table, fun _ => .idle, fun _ => []⟩

end ShimService.TenantContextRepo
