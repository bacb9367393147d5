import ShimService.Tenant.Poll

/-! A tenant with an ACTIVE x1440 session is scheduled, and the deletion that races with one. -/
namespace ShimService.TenantPoll

open CondTable Transition

variable {s t : State} {a : Act} {xs : List Act} {db db' : Db} {k : SessionKey} {op : Op}
  {tenantId c : ℕ} {i : Invocation}

/-- An unprocessed INSERT record of an x1440 session of the tenant is in flight. -/
def InFlight (s : State) (tenantId : ℕ) : Prop :=
  ∃ record session, (s.stream[record]?).bind newSession = some session ∧
    session.tenantId = tenantId ∧ s.unprocessed record = true

def Scheduled (s : State) (tenantId : ℕ) : Prop := s.events tenantId ≠ none ∨ InFlight s tenantId

/-- An x1440 session that is PENDING or ACTIVE. -/
def Polled (r : SessionItem) : Prop :=
  hasX1440Platform r = true ∧ (r.sessionStatus = some .pending ∨ r.sessionStatus = some .active)

def x1440Session (sessionId userId : String) : Session :=
  { sampleSession sessionId with userId := userId, channelPlatformTypes := ["omni", "x1440"] }

end ShimService.TenantPoll
