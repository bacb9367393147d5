import Mathlib.Data.List.TakeWhile
import Mathlib.Data.List.Infix

/-! Runs of one element in a list: at its two ends, inside it, and where two lists meet. -/
namespace Runs

variable {α : Type*} [DecidableEq α] {c a : α} {l m : List α} {n : ℕ}

/-- How often the list repeats the element at its beginning. -/
def leading (c : α) (l : List α) : ℕ := (l.takeWhile (· = c)).length

def trailing (c : α) (l : List α) : ℕ := leading c l.reverse

@[simp] theorem leading_nil : leading c [] = 0 := rfl

@[simp] theorem trailing_nil : trailing c [] = 0 := rfl

@[simp] theorem leading_cons_self : leading c (c :: l) = leading c l + 1 := by
  simp [leading]

theorem leading_cons_of_ne (h : a ≠ c) : leading c (a :: l) = 0 := by
  simp [leading, h]

theorem replicate_isPrefix_iff : List.replicate n c <+: l ↔ n ≤ leading c l := by
  induction l generalizing n with
  | nil => simp [List.replicate_eq_nil_iff]
  | cons a l ih =>
    cases n with
    | zero => simp
    | succ n =>
      rw [List.replicate_succ, List.cons_prefix_cons, ih]
      by_cases ha : a = c
      · subst ha
        simp
      · simp [leading_cons_of_ne ha, Ne.symm ha]

theorem replicate_isSuffix_iff : List.replicate n c <:+ l ↔ n ≤ trailing c l := by
  rw [← List.reverse_prefix, List.reverse_replicate, replicate_isPrefix_iff, trailing]

/-- A run in two lists put together is in one of them, or it is made of what they have where they
meet. -/
theorem replicate_isInfix_append_iff : List.replicate n c <:+: l ++ m ↔
    List.replicate n c <:+: l ∨ List.replicate n c <:+: m ∨ n ≤ trailing c l + leading c m := by
  rw [List.infix_append_iff]
  refine or_congr_right (or_congr_right ⟨?_, fun h => ?_⟩)
  · rintro ⟨front, back, heq, hfront, hback⟩
    obtain ⟨hlength, hfronts, hbacks⟩ := List.append_eq_replicate_iff.mp heq.symm
    rw [hfronts, replicate_isSuffix_iff] at hfront
    rw [hbacks, replicate_isPrefix_iff] at hback
    omega
  · refine ⟨List.replicate (min n (trailing c l)) c, List.replicate (n - trailing c l) c, ?_,
      replicate_isSuffix_iff.mpr (Nat.min_le_right _ _), replicate_isPrefix_iff.mpr (by omega)⟩
    rw [List.replicate_append_replicate]
    congr 1
    omega

theorem leading_append_of_all (h : ∀ a ∈ l, a = c) :
    leading c (l ++ m) = l.length + leading c m := by
  rw [leading, List.takeWhile_append_of_pos (by simpa using h), List.length_append, leading]

theorem leading_append_of_mem (h : a ∈ l) (ha : a ≠ c) : leading c (l ++ m) = leading c l := by
  induction l with
  | nil => cases h
  | cons b l ih =>
    rw [List.cons_append]
    by_cases hb : b = c
    · subst hb
      rcases List.mem_cons.mp h with rfl | h
      · exact absurd rfl ha
      · rw [leading_cons_self, leading_cons_self, ih h]
    · rw [leading_cons_of_ne hb, leading_cons_of_ne hb]

theorem trailing_append_of_all (h : ∀ a ∈ m, a = c) :
    trailing c (l ++ m) = m.length + trailing c l := by
  rw [trailing, List.reverse_append, leading_append_of_all (by simpa using h),
    List.length_reverse, trailing]

theorem trailing_append_of_mem (h : a ∈ m) (ha : a ≠ c) : trailing c (l ++ m) = trailing c m := by
  rw [trailing, List.reverse_append, leading_append_of_mem (List.mem_reverse.mpr h) ha, trailing]

theorem trailing_pos_iff : 0 < trailing c l ↔ l.getLast? = some c := by
  rw [trailing, ← List.head?_reverse]
  cases l.reverse with
  | nil => simp
  | cons a l =>
    by_cases ha : a = c
    · subst ha
      simp
    · simp [leading_cons_of_ne ha, ha]

theorem leading_pos_iff : 0 < leading c l ↔ l.head? = some c := by
  cases l with
  | nil => simp
  | cons a l =>
    by_cases ha : a = c
    · subst ha
      simp
    · simp [leading_cons_of_ne ha, ha]

end Runs
