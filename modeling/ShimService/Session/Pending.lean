import ShimService.Session.Manager

/-! Every PENDING session has a connect outstanding, and the ends that strand one. -/
namespace ShimService.SessionManager

open CondTable Transition

variable {maxRetries : ℕ} {s t : State} {a : Act} {xs : List Act} {db db' : Db}
  {k : SessionKey} {p : Proc} {c : ℕ}

end ShimService.SessionManager
