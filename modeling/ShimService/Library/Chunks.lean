import Mathlib.Data.List.Basic

/-! A list cut into pages of one size, of which only the last may be shorter. -/

variable {α : Type*} {n : ℕ} {xs page : List α} {pages pages' : List (List α)}

/-- The pages of a list, in order. -/
structure Chunks (n : ℕ) (xs : List α) (pages : List (List α)) : Prop where
  flatten : pages.flatten = xs
  nonempty : ∀ page ∈ pages, page ≠ []
  bounded : ∀ page ∈ pages, page.length ≤ n
  full : ∀ page ∈ pages.dropLast, page.length = n

namespace Chunks

theorem nil : Chunks n ([] : List α) [] where
  flatten := rfl
  nonempty := by simp
  bounded := by simp
  full := by simp

theorem single (hne : xs ≠ []) (hlen : xs.length ≤ n) : Chunks n xs [xs] where
  flatten := by simp
  nonempty := by simpa using hne
  bounded := by simpa using hlen
  full := by simp

/-- A full page in front of others. -/
theorem cons (h : Chunks n xs pages) (hn : 0 < n) (hpage : page.length = n) :
    Chunks n (page ++ xs) (page :: pages) where
  flatten := by rw [List.flatten_cons, h.flatten]
  nonempty := by
    intro p hp
    rcases List.mem_cons.mp hp with rfl | hp
    · exact List.ne_nil_of_length_pos (by omega)
    · exact h.nonempty p hp
  bounded := by
    intro p hp
    rcases List.mem_cons.mp hp with rfl | hp
    · exact Nat.le_of_eq hpage
    · exact h.bounded p hp
  full := by
    intro p hp
    cases pages with
    | nil => simp at hp
    | cons next pages =>
      rw [List.dropLast_cons_of_ne_nil (by simp)] at hp
      rcases List.mem_cons.mp hp with rfl | hp
      · exact hpage
      · exact h.full p hp

/-- Full pages in front of others. -/
theorem append (h : Chunks n xs pages) (hn : 0 < n) (hpages : ∀ p ∈ pages', p.length = n) :
    Chunks n (pages'.flatten ++ xs) (pages' ++ pages) := by
  induction pages' with
  | nil => exact h
  | cons page pages' ih =>
    have hrest := ih fun p hp => hpages p (List.mem_cons_of_mem _ hp)
    rw [List.flatten_cons, List.append_assoc, List.cons_append]
    exact hrest.cons hn (hpages page List.mem_cons_self)

theorem tail (h : Chunks n xs (page :: pages)) : Chunks n pages.flatten pages where
  flatten := rfl
  nonempty p hp := h.nonempty p (List.mem_cons_of_mem _ hp)
  bounded p hp := h.bounded p (List.mem_cons_of_mem _ hp)
  full p hp := by
    refine h.full p ?_
    cases pages with
    | nil => simp at hp
    | cons next pages =>
      rw [List.dropLast_cons_of_ne_nil (by simp)]
      exact List.mem_cons_of_mem _ hp

/-- The first page takes as many elements as it can. -/
theorem head_length (h : Chunks n xs (page :: pages)) : page.length = min n xs.length := by
  have hbound := h.bounded page List.mem_cons_self
  have hflatten := congrArg List.length h.flatten
  rw [List.flatten_cons, List.length_append] at hflatten
  cases pages with
  | nil =>
    rw [List.flatten_nil, List.length_nil] at hflatten
    omega
  | cons next pages =>
    have hfull := h.full page (by simp)
    omega

/-- There is only one way to cut a list. -/
theorem unique (h : Chunks n xs pages) (h' : Chunks n xs pages') : pages = pages' := by
  induction pages generalizing xs pages' with
  | nil =>
    obtain rfl : xs = [] := h.flatten.symm
    cases pages' with
    | nil => rfl
    | cons page' pages' =>
      have hnil : page' ++ pages'.flatten = [] := h'.flatten
      exact absurd (List.append_eq_nil_iff.mp hnil).1 (h'.nonempty page' List.mem_cons_self)
  | cons page pages ih =>
    cases pages' with
    | nil =>
      obtain rfl : xs = [] := h'.flatten.symm
      have hnil : page ++ pages.flatten = [] := h.flatten
      exact absurd (List.append_eq_nil_iff.mp hnil).1 (h.nonempty page List.mem_cons_self)
    | cons page' pages' =>
      have hlen := h.head_length.trans h'.head_length.symm
      have hflatten : page ++ pages.flatten = page' ++ pages'.flatten :=
        h.flatten.trans h'.flatten.symm
      obtain ⟨rfl, hrest⟩ := List.append_inj hflatten hlen
      rw [ih h.tail (hrest ▸ h'.tail)]

end Chunks
