import Mathlib.Data.Nat.Notation
import Mathlib.Data.Option.Basic

/-! A reentrant lock. -/

/-- The holder of the lock, and how often it has taken it again. -/
abbrev RLock (τ : Type*) := Option (τ × ℕ)

namespace RLock

variable {τ : Type*} [DecidableEq τ] {l l' : RLock τ} {t u : τ}

/-- Nothing where the thread has to wait. -/
def acquire (l : RLock τ) (t : τ) : Option (RLock τ) :=
  match l with
  | none => some (some (t, 0))
  | some (u, n) => if u = t then some (some (u, n + 1)) else none

def release : RLock τ → RLock τ
  | some (t, n + 1) => some (t, n)
  | _ => none

/-- How often a thread has to release the lock. -/
def level (l : RLock τ) (t : τ) : ℕ :=
  match l with
  | none => 0
  | some (u, n) => if u = t then n + 1 else 0

@[simp] theorem level_none (t : τ) : level none t = 0 := rfl

theorem level_acquire (h : acquire l t = some l') (u : τ) :
    level l' u = level l u + if t = u then 1 else 0 := by
  cases l with
  | none =>
    obtain rfl := Option.some.inj h
    simp [level]
  | some holder =>
    obtain ⟨w, n⟩ := holder
    obtain ⟨rfl, hl⟩ := Option.ite_none_right_eq_some.mp h
    obtain rfl := Option.some.inj hl
    by_cases hu : w = u <;> simp [level, hu]

theorem level_release (h : 0 < level l t) (u : τ) :
    level l u = level (release l) u + if t = u then 1 else 0 := by
  cases l with
  | none => simp at h
  | some holder =>
    obtain ⟨w, n⟩ := holder
    have hw : w = t := by
      by_contra hne
      simp [level, hne] at h
    subst hw
    cases n <;> by_cases hu : w = u <;> simp [level, release, hu]

/-- One thread holds the lock at a time. -/
theorem eq_of_level_pos (ht : 0 < level l t) (hu : 0 < level l u) : t = u := by
  cases l with
  | none => simp at ht
  | some holder =>
    obtain ⟨w, n⟩ := holder
    by_cases hwt : w = t
    · by_cases hwu : w = u
      · exact hwt.symm.trans hwu
      · simp [level, hwu] at hu
    · simp [level, hwt] at ht

/-- A thread waits for another one that holds the lock. -/
theorem acquire_eq_none (h : acquire l t = none) : ∃ u, u ≠ t ∧ 0 < level l u := by
  cases l with
  | none => cases h
  | some holder =>
    obtain ⟨w, n⟩ := holder
    have hne : w ≠ t := by
      rintro rfl
      simp [acquire] at h
    exact ⟨w, hne, by simp [level]⟩

end RLock
