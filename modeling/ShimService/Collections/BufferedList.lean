import Mathlib.Data.PNat.Basic

/-! `BufferedList`: a list is added in slices that fit, anything else object by object. -/
namespace ShimService.Collections

/-- `flushed` lists what the flusher has been given. -/
@[ext] structure BufferedList (α : Type*) (maxSize : ℕ+) where
  source : List α
  flushed : List (List α)
  bounded : source.length ≤ maxSize

namespace BufferedList

variable {α : Type*} {maxSize : ℕ+}

def empty : BufferedList α maxSize := ⟨[], [], Nat.zero_le _⟩

def flush (b : BufferedList α maxSize) : BufferedList α maxSize :=
  if 0 < b.source.length then ⟨[], b.flushed ++ [b.source], Nat.zero_le _⟩ else b

/-- What comes before every change of the source. -/
def flushIfFull (b : BufferedList α maxSize) : BufferedList α maxSize :=
  if b.source.length = maxSize then b.flush else b

theorem flushIfFull_room (b : BufferedList α maxSize) : b.flushIfFull.source.length < maxSize := by
  have hpos := maxSize.pos
  have hbounded := b.bounded
  unfold flushIfFull
  split
  · rw [flush, if_pos (by omega)]
    exact hpos
  · omega

/-- `self.__source.extend(objs)`. -/
def extend (b : BufferedList α maxSize) (objs : List α)
    (h : b.source.length + objs.length ≤ maxSize) : BufferedList α maxSize where
  source := b.source ++ objs
  flushed := b.flushed
  bounded := by rwa [List.length_append]

def add (b : BufferedList α maxSize) (obj : α) : BufferedList α maxSize :=
  b.flushIfFull.extend [obj] b.flushIfFull_room

/-- The loop of `add_all`, with its counters. -/
def addSlices (objList : List α) (left start : ℕ) (b : BufferedList α maxSize) :
    BufferedList α maxSize :=
  if h : 0 < left then
    let count := min left (maxSize - b.flushIfFull.source.length)
    addSlices objList (left - count) (start + count)
      (b.flushIfFull.extend ((objList.drop start).take count) (by
        have hroom := b.flushIfFull_room
        rw [List.length_take]
        omega))
  else b
termination_by left
decreasing_by
  have hroom := b.flushIfFull_room
  omega

/-- `list` is what `isinstance(obj_list, list)` says. -/
def addAll (b : BufferedList α maxSize) (objList : List α) (list : Bool) :
    BufferedList α maxSize :=
  if list then addSlices objList objList.length 0 b else objList.foldl add b

inductive Op (α : Type*)
  | add (obj : α)
  | addAll (objList : List α) (list : Bool)
  | flush

def apply (b : BufferedList α maxSize) : Op α → BufferedList α maxSize
  | .add obj => b.add obj
  | .addAll objList list => b.addAll objList list
  | .flush => b.flush

def Op.objects : Op α → List α
  | .add obj => [obj]
  | .addAll objList _ => objList
  | .flush => []

/-- A buffer after some operations. -/
def after (maxSize : ℕ+) (ops : List (Op α)) : BufferedList α maxSize := ops.foldl apply empty

variable {b : BufferedList α maxSize} {objs : List α} {obj : α}

/-! ### A list is added as its objects are -/

@[simp] theorem flushIfFull_of_room (h : b.source.length < maxSize) : b.flushIfFull = b :=
  if_neg (Nat.ne_of_lt h)

@[simp] theorem flushIfFull_flushIfFull : b.flushIfFull.flushIfFull = b.flushIfFull :=
  flushIfFull_of_room b.flushIfFull_room

theorem add_flushIfFull : b.flushIfFull.add obj = b.add obj := by
  simp only [add, flushIfFull_flushIfFull]

theorem add_of_room (h : b.source.length + 1 ≤ maxSize) : b.add obj = b.extend [obj] h := by
  simp only [add, flushIfFull_of_room h]

/-- Objects for which there is room are appended one after the other. -/
theorem foldl_add_of_room (h : b.source.length + objs.length ≤ maxSize) :
    objs.foldl add b = b.extend objs h := by
  induction objs generalizing b with
  | nil => exact BufferedList.ext (List.append_nil _).symm rfl
  | cons obj objs ih =>
    rw [List.length_cons] at h
    have hroom : b.source.length + 1 ≤ maxSize := by omega
    have hrest : (b.extend [obj] hroom).source.length + objs.length ≤ maxSize := by
      simp only [extend, List.length_append, List.length_singleton]
      omega
    rw [List.foldl_cons, add_of_room hroom, ih hrest]
    exact BufferedList.ext (List.append_assoc ..) rfl

/-- A full buffer is flushed by the first of the objects. -/
theorem foldl_add_flushIfFull (hne : objs ≠ []) :
    objs.foldl add b = objs.foldl add b.flushIfFull := by
  obtain ⟨obj, objs, rfl⟩ := List.exists_cons_of_ne_nil hne
  rw [List.foldl_cons, List.foldl_cons, add_flushIfFull]

/-- By induction on what is left: each slice is what its objects come to. -/
theorem addSlices_eq_foldl_add (objList : List α) (left start : ℕ) (b : BufferedList α maxSize)
    (hleft : left = (objList.drop start).length) :
    addSlices objList left start b = (objList.drop start).foldl add b := by
  induction left, start, b using addSlices.induct objList with
  | case1 left start b hpos count ih =>
    have hfree := b.flushIfFull_room
    have hcount : count = min left (maxSize - b.flushIfFull.source.length) := rfl
    have hslice : ((objList.drop start).take count).length = count := by
      rw [List.length_take]
      omega
    have hroom : b.flushIfFull.source.length + ((objList.drop start).take count).length ≤
        maxSize := by omega
    have hne : (objList.drop start).take count ≠ [] :=
      List.ne_nil_of_length_pos (by omega)
    have hsplit : (objList.drop start).take count ++ objList.drop (start + count) =
        objList.drop start := by
      rw [← List.drop_drop, List.take_append_drop]
    have hrest : left - count = (objList.drop (start + count)).length := by
      rw [← List.drop_drop, List.length_drop, hleft]
    calc
      _ = addSlices objList (left - count) (start + count)
            (b.flushIfFull.extend ((objList.drop start).take count) hroom) := by
          rw [addSlices, dif_pos hpos]
      _ = (objList.drop (start + count)).foldl add
            (b.flushIfFull.extend ((objList.drop start).take count) hroom) := ih hrest
      _ = (objList.drop start).foldl add b := by
          rw [← foldl_add_of_room hroom, ← foldl_add_flushIfFull hne, ← List.foldl_append,
            hsplit]
  | case2 left start b hzero =>
    have hnil : objList.drop start = [] := List.length_eq_zero_iff.mp (by omega)
    rw [addSlices, dif_neg hzero, hnil]
    rfl

theorem addAll_eq_foldl_add {list : Bool} : b.addAll objs list = objs.foldl add b := by
  unfold addAll
  split
  · simpa using addSlices_eq_foldl_add objs objs.length 0 b (by simp)
  · rfl

/-! ### Nothing is lost -/

/-- The batches and what is left are the objects added so far. -/
structure Holds (b : BufferedList α maxSize) (objs : List α) : Prop where
  sized : ∀ batch ∈ b.flushed, 1 ≤ batch.length ∧ batch.length ≤ maxSize
  order : b.flushed.flatten ++ b.source = objs

theorem holds_flush (h : Holds b objs) : Holds b.flush objs := by
  unfold flush
  split
  · rename_i hpos
    refine ⟨fun batch hbatch => ?_, ?_⟩
    · rcases List.mem_append.mp hbatch with hold | hnew
      · exact h.sized batch hold
      · rw [List.mem_singleton.mp hnew]
        exact ⟨hpos, b.bounded⟩
    · simpa using h.order
  · exact h

theorem holds_add (obj : α) (h : Holds b objs) : Holds (b.add obj) (objs ++ [obj]) := by
  have hfull : Holds b.flushIfFull objs := by
    unfold flushIfFull
    split
    · exact holds_flush h
    · exact h
  refine ⟨hfull.sized, ?_⟩
  rw [add, extend, ← List.append_assoc, hfull.order]

theorem holds_foldl_add {added : List α} (h : Holds b added) :
    Holds (objs.foldl add b) (added ++ objs) := by
  induction objs generalizing b added with
  | nil => simpa using h
  | cons obj objs ih => simpa using ih (holds_add obj h)

theorem holds_apply (op : Op α) (h : Holds b objs) : Holds (b.apply op) (objs ++ op.objects) := by
  cases op with
  | add obj => exact holds_add obj h
  | addAll objList list =>
    rw [apply, addAll_eq_foldl_add]
    exact holds_foldl_add h
  | flush => simpa [apply, Op.objects] using holds_flush h

theorem holds_foldl_apply {ops : List (Op α)} (h : Holds b objs) :
    Holds (ops.foldl apply b) (objs ++ ops.flatMap Op.objects) := by
  induction ops generalizing b objs with
  | nil => simpa using h
  | cons op ops ih => simpa using ih (holds_apply op h)

/-- In every state that the operations lead to, adding a list comes to adding its objects; and
whatever was added is in the batches, which are neither empty nor too large, or still in the
buffer. -/
theorem addAll_eq_adds (maxSize : ℕ+) (ops : List (Op α)) :
    (∀ objList, (after maxSize ops).addAll objList true =
      objList.foldl add (after maxSize ops)) ∧
    (∀ batch ∈ (after maxSize ops).flushed, 1 ≤ batch.length ∧ batch.length ≤ maxSize) ∧
    (after maxSize ops).flushed.flatten ++ (after maxSize ops).source =
      ops.flatMap Op.objects := by
  have hempty : Holds (empty : BufferedList α maxSize) [] := ⟨by simp [empty], rfl⟩
  have hafter : Holds (after maxSize ops) (ops.flatMap Op.objects) := holds_foldl_apply hempty
  exact ⟨fun objList => addAll_eq_foldl_add, hafter.sized, hafter.order⟩

end BufferedList

end ShimService.Collections
