import ShimService.Library.Chunks

/-! `partition`, which takes a list another way than any other iterable. -/
namespace ShimService.Collections

/-- What `isinstance(collection, list)` tells apart, with the elements in their order. -/
inductive Iterable (α : Type*)
  | list (elements : List α)
  | other (elements : List α)

variable {α : Type*}

def Iterable.elements : Iterable α → List α
  | .list elements => elements
  | .other elements => elements

/-- What becomes of an object, which stays without a transformer. -/
def transformed : Option (α → α) → α → α
  | some transformer, obj => transformer obj
  | none, obj => obj

/-- The loop over the objects, with the open page and the pages that are full. -/
def fillPages (partitionSize : ℕ) (transformer : Option (α → α)) :
    List α → (page : List α) → (pageList : List (List α)) → List (List α)
  | [], page, pageList => if 0 < page.length then pageList ++ [page] else pageList
  | obj :: collection, page, pageList =>
    if page.length = partitionSize then
      fillPages partitionSize transformer collection [transformed transformer obj]
        (pageList ++ [page])
    else
      fillPages partitionSize transformer collection (page ++ [transformed transformer obj])
        pageList

/-- `range(start, start + count * step, step)` and a slice at each of its numbers. -/
def slices (partitionSize : ℕ) (collection : List α) (start count : ℕ) : List (List α) :=
  (List.range' start count partitionSize).map fun i => (collection.drop i).take partitionSize

/-- `none` is the failed assertion. -/
def partition (collection : Iterable α) (partitionSize : ℕ) (transformer : Option (α → α)) :
    Option (List (List α)) :=
  if partitionSize = 0 then none
  else
    let pages := fillPages partitionSize transformer collection.elements [] []
    match collection with
    | .list elements =>
      if elements.length ≤ partitionSize then some [elements]
      else
        match transformer with
        | none => some (slices partitionSize elements 0
            ((elements.length + partitionSize - 1) / partitionSize))
        | some _ => some pages
    | .other _ => some pages

variable {n : ℕ} {f : Option (α → α)} {xs page : List α} {pages : List (List α)} {start count : ℕ}

/-- By induction on the objects: the full pages stay in front of what is made of the rest. -/
theorem fillPages_chunks (hn : 0 < n) (hpage : page.length ≤ n)
    (hpages : ∀ p ∈ pages, p.length = n) :
    Chunks n (pages.flatten ++ (page ++ xs.map (transformed f))) (fillPages n f xs page pages) := by
  induction xs generalizing page pages with
  | nil =>
    rw [List.map_nil, List.append_nil, fillPages]
    split
    · rename_i hpos
      exact (Chunks.single (List.ne_nil_of_length_pos hpos) hpage).append hn hpages
    · rename_i hempty
      obtain rfl : page = [] := List.length_eq_zero_iff.mp (by omega)
      simpa using Chunks.nil.append hn hpages
  | cons x xs ih =>
    rw [fillPages, List.map_cons]
    split
    · rename_i hfull
      have hfulls : ∀ p ∈ pages ++ [page], p.length = n := by
        intro p hp
        rcases List.mem_append.mp hp with hold | hnew
        · exact hpages p hold
        · rw [List.mem_singleton.mp hnew, hfull]
      have hone : [transformed f x].length ≤ n := hn
      simpa using ih hone hfulls
    · rename_i hroom
      have hlen : (page ++ [transformed f x]).length ≤ n := by
        rw [List.length_append, List.length_singleton]
        omega
      simpa using ih hlen hpages

/-- The last number of the range is the last one below the length. -/
theorem slices_chunks (hn : 0 < n) (hlt : start + count * n < xs.length)
    (hle : xs.length ≤ start + (count + 1) * n) :
    Chunks n (xs.drop start) (slices n xs start (count + 1)) := by
  induction count generalizing start with
  | zero =>
    have hall : (xs.drop start).take n = xs.drop start :=
      List.take_of_length_le (by rw [List.length_drop]; omega)
    have hne : xs.drop start ≠ [] := List.ne_nil_of_length_pos (by rw [List.length_drop]; omega)
    simp only [slices, List.range'_succ, List.range'_zero, List.map_cons, List.map_nil, hall]
    exact Chunks.single hne (by rw [List.length_drop]; omega)
  | succ count ih =>
    have hmul : (count + 1) * n = count * n + n := Nat.succ_mul count n
    have hmul' : (count + 1 + 1) * n = (count + 1) * n + n := Nat.succ_mul (count + 1) n
    have hrest : Chunks n (xs.drop (start + n)) (slices n xs (start + n) (count + 1)) :=
      ih (by omega) (by omega)
    have hlen : ((xs.drop start).take n).length = n := by
      rw [List.length_take, List.length_drop]
      omega
    have hcut := hrest.cons hn hlen
    rw [← List.drop_drop, List.take_append_drop] at hcut
    exact hcut

theorem map_transformed_eq : xs.map (transformed f) = xs ↔ ∀ x ∈ xs, transformed f x = x := by
  conv_lhs => rhs; rw [← List.map_id xs]
  exact List.map_inj_left

theorem partition_other (xs : List α) (f : Option (α → α)) (hn : 0 < n) :
    ∃ pages, partition (.other xs) n f = some pages ∧
      Chunks n (xs.map (transformed f)) pages := by
  refine ⟨fillPages n f xs [] [], ?_, ?_⟩
  · rw [partition, if_neg (by omega)]
    rfl
  · have hpages : ∀ p ∈ ([] : List (List α)), p.length = n := by simp
    have hpage : ([] : List α).length ≤ n := Nat.zero_le n
    simpa using fillPages_chunks hn hpage hpages

theorem partition_short (hn : 0 < n) (hshort : xs.length ≤ n) :
    partition (.list xs) n f = some [xs] := by
  rw [partition, if_neg (by omega)]
  exact if_pos hshort

theorem partition_long (hn : 0 < n) (hlong : n < xs.length) :
    ∃ pages, partition (.list xs) n f = some pages ∧ Chunks n (xs.map (transformed f)) pages := by
  cases f with
  | some f =>
    obtain ⟨pages, hpages, hchunks⟩ := partition_other xs (some f) hn
    refine ⟨pages, ?_, hchunks⟩
    rw [← hpages]
    simp only [partition, if_neg (Nat.not_le.mpr hlong), Iterable.elements]
  | none =>
    refine ⟨slices n xs 0 ((xs.length + n - 1) / n), ?_, ?_⟩
    · simp only [partition, if_neg (Nat.not_le.mpr hlong), if_neg (Nat.ne_of_gt hn)]
    · have hcount : (xs.length + n - 1) / n = (xs.length - 1) / n + 1 := by
        rw [show xs.length + n - 1 = xs.length - 1 + n by omega, Nat.add_div_right _ hn]
      have hlow := Nat.div_mul_le_self (xs.length - 1) n
      have hhigh := Nat.lt_div_mul_add (a := xs.length - 1) hn
      have hsucc := Nat.succ_mul ((xs.length - 1) / n) n
      have hmap : xs.map (transformed none) = xs := List.map_id xs
      rw [hcount, hmap]
      have hlow : 0 + (xs.length - 1) / n * n < xs.length := by omega
      have hhigh : xs.length ≤ 0 + ((xs.length - 1) / n + 1) * n := by
        rw [Nat.succ_eq_add_one] at hsucc
        omega
      simpa using slices_chunks hn hlow hhigh

/-- The pages hold what the transformer makes of the elements, and a list has the same pages as
any other iterable with its elements. -/
structure MappingPartition (c : Iterable α) (n : ℕ) (f : Option (α → α)) : Prop where
  pages : ∃ pages, partition c n f = some pages ∧
    Chunks n (c.elements.map (transformed f)) pages
  forms : partition (.list c.elements) n f = partition (.other c.elements) n f

/-- A list that is no longer than a page becomes one page as it is, even when it is empty. -/
theorem partition_iff (c : Iterable α) (n : ℕ) (f : Option (α → α)) (hn : 0 < n) :
    MappingPartition c n f ↔ n < c.elements.length ∨
      (c.elements ≠ [] ∧ ∀ x ∈ c.elements, transformed f x = x) := by
  obtain ⟨pages, hpages, hchunks⟩ := partition_other c.elements f hn
  constructor
  · intro h
    by_cases hshort : c.elements.length ≤ n
    · right
      have hone : pages = [c.elements] := by
        have hforms := h.forms
        rw [partition_short hn hshort, hpages] at hforms
        exact (Option.some.inj hforms).symm
      have hflatten := hchunks.flatten
      rw [hone, List.flatten_singleton] at hflatten
      refine ⟨hchunks.nonempty c.elements (by simp [hone]), ?_⟩
      exact map_transformed_eq.mp hflatten.symm
    · exact .inl (Nat.lt_of_not_le hshort)
  · intro h
    obtain ⟨pages', hpages', hchunks'⟩ : ∃ pages, partition (.list c.elements) n f = some pages ∧
        Chunks n (c.elements.map (transformed f)) pages := by
      by_cases hshort : c.elements.length ≤ n
      · obtain hlong | ⟨hne, hid⟩ := h
        · omega
        · refine ⟨_, partition_short hn hshort, ?_⟩
          rw [map_transformed_eq.mpr hid]
          exact .single hne hshort
      · exact partition_long hn (Nat.lt_of_not_le hshort)
    have hforms : partition (.list c.elements) n f = partition (.other c.elements) n f := by
      rw [hpages', hpages, hchunks'.unique hchunks]
    refine ⟨⟨pages, ?_, hchunks⟩, hforms⟩
    cases c with
    | list elements => exact hforms.trans hpages
    | other elements => exact hpages

theorem partition_successors :
    MappingPartition (.list [1, 2, 3]) 2 (some fun x : ℕ => x + 1) :=
  (partition_iff (.list [1, 2, 3]) 2 (some fun x : ℕ => x + 1) (by decide)).mpr
    (.inl (by decide))

/-- Two objects that fit on one page are not transformed. -/
theorem partition_forgets_transformer :
    ¬ MappingPartition (.list [1, 2]) 3 (some fun x : ℕ => x + 1) := by
  rintro ⟨⟨pages, hpages, hchunks⟩, -⟩
  have hshort : partition (.list [1, 2]) 3 (some fun x : ℕ => x + 1) = some [[1, 2]] :=
    partition_short (by decide) (by decide)
  rw [hshort, Option.some.injEq] at hpages
  have hflatten := hchunks.flatten
  rw [← hpages] at hflatten
  exact absurd hflatten (by decide)

end ShimService.Collections
