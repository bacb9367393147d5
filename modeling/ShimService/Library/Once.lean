import Mathlib.Data.List.Count
import ShimService.Library.Transition

/-! A cell that is filled once: what may be seen of one, however its users are interleaved. -/
namespace Once

open Transition

variable {ν : Type*}

/-- What is seen of a cell: a load that fills it, a load that fails, and what a user is given. -/
inductive CellEvent (ν : Type*) where
  | loaded (v : ν)
  | failed
  | returned (v : ν)
  deriving DecidableEq, Repr

variable [DecidableEq ν] {cell cell' : Option ν} {log : List (CellEvent ν)} {e : CellEvent ν}
  {v w : ν}

/-- Nothing is loaded into a filled cell, and only its content is given out. -/
def step : Option ν → CellEvent ν → Option (Option ν)
  | none, .loaded v => some (some v)
  | none, .failed => some none
  | some v, .returned w => if v = w then some (some v) else none
  | _, _ => none

/-- What the first load has put into the cell. -/
def content : List (CellEvent ν) → Option ν
  | [] => none
  | .loaded v :: _ => some v
  | _ :: log => content log

omit [DecidableEq ν] in
theorem content_append (log log' : List (CellEvent ν)) :
    content (log ++ log') = (content log).or (content log') := by
  induction log with
  | nil => rfl
  | cons e log ih => cases e <;> simp [content, ih]

/-- The events of a cell that starts empty and ends as told. -/
def Legal (log : List (CellEvent ν)) (cell : Option ν) : Prop := Run step Free none log cell

theorem Legal.nil : Legal ([] : List (CellEvent ν)) none := .refl

theorem Legal.snoc (h : Legal log cell) (he : step cell e = some cell') :
    Legal (log ++ [e]) cell' :=
  h.append (.cons trivial he .refl)

theorem Legal.loaded (h : Legal log none) (v : ν) : Legal (log ++ [.loaded v]) (some v) :=
  h.snoc rfl

theorem Legal.failed (h : Legal log none) : Legal (log ++ [.failed]) (none : Option ν) :=
  h.snoc rfl

theorem Legal.returned (h : Legal log (some v)) : Legal (log ++ [.returned v]) (some v) :=
  h.snoc (if_pos rfl)

theorem run_filled (h : Run step Free (some v) log cell) :
    cell = some v ∧ ∀ e ∈ log, e = .returned v := by
  induction log with
  | nil => cases h; simp
  | cons e log ih =>
    cases h with
    | cons _ hstep h =>
      cases e with
      | loaded w => simp [step] at hstep
      | failed => simp [step] at hstep
      | returned w =>
        simp only [step, Option.ite_none_right_eq_some, Option.some.injEq] at hstep
        obtain ⟨rfl, rfl⟩ := hstep
        obtain ⟨hcell, hall⟩ := ih h
        refine ⟨hcell, ?_⟩
        rintro e he
        rcases List.mem_cons.mp he with rfl | he
        · rfl
        · exact hall e he

/-- The events of a cell are failures, and once it is filled, the load and what is given out. -/
theorem Legal.shape (h : Legal log cell) :
    (cell = none ∧ ∀ e ∈ log, e = .failed) ∨ ∃ v before after, cell = some v ∧
      log = before ++ .loaded v :: after ∧ (∀ e ∈ before, e = .failed) ∧
      ∀ e ∈ after, e = .returned v := by
  unfold Legal at h
  induction log with
  | nil => cases h; exact .inl ⟨rfl, by simp⟩
  | cons e log ih =>
    cases h with
    | cons _ hstep h =>
      cases e with
      | loaded w =>
        obtain rfl := Option.some.inj hstep
        obtain ⟨rfl, hall⟩ := run_filled h
        exact .inr ⟨w, [], log, rfl, rfl, by simp, hall⟩
      | failed =>
        obtain rfl := Option.some.inj hstep
        rcases ih h with ⟨rfl, hall⟩ | ⟨v, before, after, rfl, rfl, hbefore, hafter⟩
        · exact .inl ⟨rfl, by simpa using hall⟩
        · exact .inr ⟨v, .failed :: before, after, rfl, rfl, by simpa using hbefore, hafter⟩
      | returned w => simp [step] at hstep

/-- A cell is filled by its only load. -/
theorem Legal.eq_of_loaded (h : Legal log cell) (hv : .loaded v ∈ log) : cell = some v := by
  rcases h.shape with ⟨-, hall⟩ | ⟨w, before, after, rfl, rfl, hbefore, hafter⟩
  · cases hall _ hv
  · simp only [List.mem_append, List.mem_cons] at hv
    rcases hv with hv | hv | hv
    · cases hbefore _ hv
    · cases hv; rfl
    · cases hafter _ hv

/-- What is given out is what the cell is filled with. -/
theorem Legal.eq_of_returned (h : Legal log cell) (hv : .returned v ∈ log) : cell = some v := by
  rcases h.shape with ⟨-, hall⟩ | ⟨w, before, after, rfl, rfl, hbefore, hafter⟩
  · cases hall _ hv
  · simp only [List.mem_append, List.mem_cons] at hv
    rcases hv with hv | hv | hv
    · cases hbefore _ hv
    · cases hv
    · cases hafter _ hv; rfl

end Once
