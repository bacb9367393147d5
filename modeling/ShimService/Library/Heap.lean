import Mathlib.Data.List.Basic

/-! Objects that are referred to: an allocation gives a new reference, and what is done through a
reference is seen there only. -/

abbrev Ref := ℕ

structure Heap (α : Type*) where
  cells : List α

namespace Heap

variable {α : Type*} {h : Heap α} {r q : Ref} {a b : α} {f : α → α}

def read (h : Heap α) (r : Ref) : Option α := h.cells[r]?

def next (h : Heap α) : Ref := h.cells.length

def alloc (h : Heap α) (a : α) : Ref × Heap α := (h.next, ⟨h.cells ++ [a]⟩)

def modify (h : Heap α) (r : Ref) (f : α → α) : Heap α := ⟨h.cells.modify r f⟩

@[simp] theorem read_alloc_self : (h.alloc a).2.read (h.alloc a).1 = some a := by
  simp [read, alloc, next]

/-- An allocation leaves every object as it is. -/
theorem read_alloc (hr : h.read r = some b) : (h.alloc a).2.read r = some b := by
  have hlt : r < h.cells.length := (List.getElem?_eq_some_iff.mp hr).1
  rw [read, alloc, List.getElem?_append_left hlt]
  exact hr

theorem ne_next (hr : h.read r = some b) : r ≠ h.next :=
  Nat.ne_of_lt (List.getElem?_eq_some_iff.mp hr).1

theorem read_modify_self (hr : h.read r = some a) : (h.modify r f).read r = some (f a) := by
  unfold read at hr
  simp [read, modify, hr]

theorem read_modify_ne (hne : q ≠ r) : (h.modify r f).read q = h.read q := by
  simp [read, modify, Ne.symm hne]

end Heap
