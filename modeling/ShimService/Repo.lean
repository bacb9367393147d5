import ShimService.Library.CondTable

/-!
`AbstractAwsRepo` over typed rows, and the clock functions its callers use.
A row is stored under its primary key, and the key parts are not repeated in it.
`none` is the `OptimisticLockException` or the `False` of a refused condition.
-/
namespace ShimService

open CondTable

/-- `date_utils.get_system_time_in_seconds` at a clock of `millis` milliseconds. -/
def getSystemTimeInSeconds (millis : ℕ) : ℕ := millis / 1000

/-- `date_utils.get_epoch_seconds_in_future`, which rounds the clock where the former cuts it. -/
def getEpochSecondsInFuture (seconds millis : ℕ) : ℕ := (millis + 500) / 1000 + seconds

theorem system_time_mono {m n : ℕ} (h : m ≤ n) :
    getSystemTimeInSeconds m ≤ getSystemTimeInSeconds n := Nat.div_le_div_right h

namespace AbstractAwsRepo

variable {κ ρ ν : Type*} [DecidableEq κ] [DecidableEq ν]

/-- `find` with a consistent read. -/
def find (t : Table κ ρ) (k : κ) : Option ρ := t k

/-- `create`: the put is refused where the key is taken. -/
def create (t : Table κ ρ) (k : κ) (entry : ρ) : Option (Table κ ρ) := t.putNew k entry

/-- `patch`: `update_item` merges `attribute_exists` of the key into its condition. -/
def patch (t : Table κ ρ) (k : κ) (patches : ρ → ρ) : Option (Table κ ρ) :=
  t.patchIf k (fun _ => true) patches

/-- `patch_with_condition`: the stored property must equal the one of the caller's entry. -/
def patchWithCondition (t : Table κ ρ) (k : κ) (conditionProperty : ρ → ν) (currentValue : ν)
    (patches : ρ → ρ) : Option (Table κ ρ) :=
  t.patchIf k (fun r => conditionProperty r = currentValue) patches

/-- `delete_with_condition`. -/
def deleteWithCondition (t : Table κ ρ) (k : κ) (conditionProperty : ρ → ν)
    (conditionValue : ν) : Option (Table κ ρ) :=
  t.removeIf k (fun r => conditionProperty r = conditionValue)

variable {t t' : Table κ ρ} {k : κ} {r : ρ}

theorem create_eq_some : create t k r = some t' ↔
    t k = none ∧ t' = Function.update t k (some r) := Table.putNew_eq_some

theorem patch_eq_some {f : ρ → ρ} : patch t k f = some t' ↔
    ∃ r, t k = some r ∧ t' = Function.update t k (some (f r)) := by
  simp [patch, Table.patchIf_eq_some]

theorem patchWithCondition_eq_some {p : ρ → ν} {v : ν} {f : ρ → ρ} :
    patchWithCondition t k p v f = some t' ↔
      ∃ r, t k = some r ∧ p r = v ∧ t' = Function.update t k (some (f r)) := by
  simp [patchWithCondition, Table.patchIf_eq_some]

theorem deleteWithCondition_eq_some {p : ρ → ν} {v : ν} :
    deleteWithCondition t k p v = some t' ↔
      ∃ r, t k = some r ∧ p r = v ∧ t' = Function.update t k none := by
  simp [deleteWithCondition, Table.removeIf_eq_some]

end AbstractAwsRepo

end ShimService
