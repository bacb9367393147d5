import Mathlib.Data.Nat.Basic
import Mathlib.Logic.Function.Basic

/-!
Tables of items under conditional single-item writes and all-or-nothing transactions.
A refused write is `none`; a refused transaction names the first write that was refused.
-/
namespace CondTable

/-- A table holds at most one item under each key. -/
abbrev Table (κ ρ : Type*) := κ → Option ρ

namespace Table

variable {κ ρ : Type*} [DecidableEq κ] {t t' : Table κ ρ} {k j : κ} {r : ρ}

/-- Writes an item on condition that the key is free. -/
def putNew (t : Table κ ρ) (k : κ) (r : ρ) : Option (Table κ ρ) :=
  if (t k).isNone then some (Function.update t k (some r)) else none

/-- Changes an item on condition that it exists and meets `cond`. -/
def patchIf (t : Table κ ρ) (k : κ) (cond : ρ → Bool) (patch : ρ → ρ) : Option (Table κ ρ) :=
  match t k with
  | some r => if cond r then some (Function.update t k (some (patch r))) else none
  | none => none

/-- Changes the item, or one made from nothing where the key is free. -/
def upsert (t : Table κ ρ) (k : κ) (fresh : ρ) (patch : ρ → ρ) : Table κ ρ :=
  Function.update t k (some (patch ((t k).getD fresh)))

/-- Deletes an item on condition that it exists and meets `cond`. -/
def removeIf (t : Table κ ρ) (k : κ) (cond : ρ → Bool) : Option (Table κ ρ) :=
  match t k with
  | some r => if cond r then some (Function.update t k none) else none
  | none => none

/-- Deletes whatever the key holds. -/
def remove (t : Table κ ρ) (k : κ) : Table κ ρ := Function.update t k none

theorem putNew_eq_some : t.putNew k r = some t' ↔
    t k = none ∧ t' = Function.update t k (some r) := by
  unfold putNew
  cases h : t k <;> simp [@eq_comm _ t']

theorem patchIf_eq_some {cond : ρ → Bool} {patch : ρ → ρ} : t.patchIf k cond patch = some t' ↔
    ∃ r, t k = some r ∧ cond r = true ∧ t' = Function.update t k (some (patch r)) := by
  unfold patchIf
  cases h : t k with
  | none => simp
  | some r => cases hc : cond r <;> simp [hc, @eq_comm _ t']

theorem removeIf_eq_some {cond : ρ → Bool} : t.removeIf k cond = some t' ↔
    ∃ r, t k = some r ∧ cond r = true ∧ t' = Function.update t k none := by
  unfold removeIf
  cases h : t k with
  | none => simp
  | some r => cases hc : cond r <;> simp [hc, @eq_comm _ t']

/-- What stands under a key after a write of one item. -/
theorem update_eq_some {r' : ρ} : Function.update t k (some r) j = some r' ↔
    j = k ∧ r = r' ∨ j ≠ k ∧ t j = some r' := by
  by_cases hj : j = k <;> simp [hj]

theorem update_none_eq_some {r' : ρ} : Function.update t k none j = some r' ↔
    j ≠ k ∧ t j = some r' := by
  by_cases hj : j = k <;> simp [hj]

@[simp] theorem remove_apply : t.remove k j = if j = k then none else t j := by
  simp [remove, Function.update_apply]

@[simp] theorem upsert_apply {fresh : ρ} {patch : ρ → ρ} : t.upsert k fresh patch j =
    if j = k then some (patch ((t k).getD fresh)) else t j := by
  simp [upsert, Function.update_apply]

end Table

variable {σ τ : Type*} {s u : σ} {w : σ → Option σ} {ws vs : List (σ → Option σ)}

/-- Applies every write or none. The writes of one transaction are on different items, so
testing each condition after the writes before it is testing it on the state before them all. -/
def transact : List (σ → Option σ) → σ → Except ℕ σ
  | [], s => .ok s
  | w :: ws, s =>
    match w s with
    | none => .error 0
    | some t => (transact ws t).mapError (· + 1)

theorem transact_cons_ok :
    transact (w :: ws) s = .ok u ↔ ∃ t, w s = some t ∧ transact ws t = .ok u := by
  cases hw : w s with
  | none => simp [transact, hw]
  | some t => cases ht : transact ws t <;> simp [transact, hw, ht, Except.mapError]

@[simp] theorem transact_nil_ok : transact [] s = .ok u ↔ s = u := by
  simp [transact]

theorem transact_append : transact (ws ++ vs) s = .ok u ↔
    ∃ t, transact ws s = .ok t ∧ transact vs t = .ok u := by
  induction ws generalizing s with
  | nil => simp
  | cons w ws ih => simp only [List.cons_append, transact_cons_ok, ih]; grind

/-- What no write of a transaction changes, the transaction does not change. -/
theorem transact_keeps {f : σ → τ} (hw : ∀ w ∈ ws, ∀ s t, w s = some t → f t = f s)
    (h : transact ws s = .ok u) : f u = f s := by
  induction ws generalizing s with
  | nil => rw [transact_nil_ok.mp h]
  | cons w ws ih =>
    obtain ⟨t, ht, hrest⟩ := transact_cons_ok.mp h
    exact (ih (fun w hmem => hw w (List.mem_cons_of_mem _ hmem)) hrest).trans
      (hw w List.mem_cons_self s t ht)

end CondTable
