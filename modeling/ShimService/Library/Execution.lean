import ShimService.Library.Transition
import Mathlib.Order.Basic
import Mathlib.Data.Nat.Find

/-! Infinite runs of a deterministic step function, one action at each index, and what a fair one
leads to. -/
namespace Transition

variable {σ α : Type*} {step : σ → α → Option σ} {ok : σ → α → Prop}

structure Execution (step : σ → α → Option σ) where
  state : ℕ → σ
  act : ℕ → α
  steps : ∀ n, step (state n) (act n) = some (state (n + 1))

namespace Execution

variable {E : Execution step} {m n : ℕ}

/-- Every step from index `m` on that is taken before `n` keeps the fact. -/
theorem stays {P : ℕ → Prop} (hmn : m ≤ n) (hm : P m)
    (hkeep : ∀ k, m ≤ k → k < n → P k → P (k + 1)) : P n := by
  induction n, hmn using Nat.le_induction with
  | base => exact hm
  | succ n hmn ih =>
    have hn : P n := ih fun k hmk hkn => hkeep k hmk (Nat.lt_succ_of_lt hkn)
    exact hkeep n hmn (Nat.lt_succ_self n) hn

theorem invariant {I : σ → Prop} (hI : ∀ s a t, step s a = some t → I s → I t) (hmn : m ≤ n)
    (hm : I (E.state m)) : I (E.state n) :=
  stays hmn hm fun k _ _ => hI _ _ _ (E.steps k)

/-- The actions up to an index are a finite run. -/
theorem run (E : Execution step) (hok : ∀ k < n, ok (E.state k) (E.act k)) :
    Run step ok (E.state 0) ((List.range n).map E.act) (E.state n) := by
  induction n with
  | zero => exact .refl
  | succ n ih =>
    rw [List.range_succ, List.map_append]
    have hprefix := ih fun k hk => hok k (Nat.lt_succ_of_lt hk)
    exact hprefix.append (.cons (hok n (Nat.lt_succ_self n)) (E.steps n) .refl)

/-- Where only helpful actions end a fact and one is taken later, one is taken while it lasts. -/
theorem first_helpful {P : σ → Prop} {helpful : α → Prop}
    (hkeep : ∀ s a t, step s a = some t → ¬ helpful a → P s → P t) (hm : P (E.state m))
    (hfair : ∃ n, m ≤ n ∧ helpful (E.act n)) :
    ∃ n, m ≤ n ∧ helpful (E.act n) ∧ P (E.state n) := by
  classical
  obtain ⟨hmn, hn⟩ := Nat.find_spec hfair
  refine ⟨Nat.find hfair, hmn, hn, ?_⟩
  refine stays (P := fun k => P (E.state k)) hmn hm fun k hmk hkn => ?_
  have hnot : ¬ helpful (E.act k) := fun hk => Nat.find_min hfair hkn ⟨hmk, hk⟩
  exact hkeep _ _ _ (E.steps k) hnot

end Execution

end Transition
