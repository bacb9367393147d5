import Mathlib.Logic.Basic

/-!
Folds over a list whose steps may raise: where such a fold stops, and rules for what holds of the
items it has taken and the state it has reached.
-/
namespace Folds

variable {α σ ε : Type*} {f : σ → α → Except ε σ} {s t : σ} {items : List α} {e : ε}

theorem foldlM_append_of_ok {rest : List α} (h : items.foldlM f s = .ok t) :
    (items ++ rest).foldlM f s = rest.foldlM f t := by
  rw [List.foldlM_append, h]
  rfl

theorem foldlM_append_of_error {rest : List α} (h : items.foldlM f s = .error e) :
    (items ++ rest).foldlM f s = .error e := by
  rw [List.foldlM_append, h]
  rfl

theorem foldlM_cons_of_ok {item : α} (h : f s item = .ok t) :
    (item :: items).foldlM f s = items.foldlM f t := by
  rw [List.foldlM_cons, h]
  rfl

theorem foldlM_cons_of_error {item : α} (h : f s item = .error e) :
    (item :: items).foldlM f s = .error e := by
  rw [List.foldlM_cons, h]
  rfl

theorem foldlM_flatMap {β : Type*} {g : β → List α} {l : List β} :
    (l.flatMap g).foldlM f s = l.foldlM (fun s x => (g x).foldlM f s) s := by
  induction l generalizing s with
  | nil => rfl
  | cons x l ih =>
    rw [List.flatMap_cons, List.foldlM_append, List.foldlM_cons]
    cases (g x).foldlM f s with
    | error e => rfl
    | ok t => exact ih

/-- A fold raises what its first raising step raises. -/
theorem foldlM_eq_error_iff : items.foldlM f s = .error e ↔
    ∃ before item after t, items = before ++ item :: after ∧ before.foldlM f s = .ok t ∧
      f t item = .error e := by
  constructor
  · intro h
    induction items generalizing s with
    | nil => cases h
    | cons item items ih =>
      cases hstep : f s item with
      | error e' =>
        rw [foldlM_cons_of_error hstep] at h
        exact ⟨[], item, items, s, rfl, rfl, hstep.trans h⟩
      | ok t =>
        rw [foldlM_cons_of_ok hstep] at h
        obtain ⟨before, next, after, u, rfl, hbefore, hnext⟩ := ih h
        exact ⟨item :: before, next, after, u, rfl, (foldlM_cons_of_ok hstep).trans hbefore,
          hnext⟩
  · rintro ⟨before, item, after, t, rfl, hbefore, hitem⟩
    rw [foldlM_append_of_ok hbefore, foldlM_cons_of_error hitem]

/-- What each step keeps holds at the end. -/
theorem foldlM_invariant {P : List α → σ → Prop} (hinit : P [] s)
    (hstep : ∀ done item t t', P done t → f t item = .ok t' → P (done ++ [item]) t')
    (h : items.foldlM f s = .ok t) : P items t := by
  have hrun : ∀ (rest done : List α) (u : σ), P done u → rest.foldlM f u = .ok t →
      P (done ++ rest) t := by
    intro rest
    induction rest with
    | nil =>
      rintro done u hdone ⟨⟩
      rwa [List.append_nil]
    | cons item rest ih =>
      intro done u hdone hrest
      cases hitem : f u item with
      | error e =>
        rw [foldlM_cons_of_error hitem] at hrest
        cases hrest
      | ok u' =>
        rw [foldlM_cons_of_ok hitem] at hrest
        have hnext := ih _ u' (hstep done item u u' hdone hitem) hrest
        rwa [List.append_assoc] at hnext
  exact hrun items [] s hinit h

/-- A fold whose every step goes on goes through. -/
theorem foldlM_progress {P : List α → σ → Prop} (hinit : P [] s)
    (hstep : ∀ done item rest t, items = done ++ item :: rest → P done t →
      ∃ t', f t item = .ok t' ∧ P (done ++ [item]) t') :
    ∃ t, items.foldlM f s = .ok t ∧ P items t := by
  have hrun : ∀ (rest done : List α) (u : σ), items = done ++ rest → P done u →
      ∃ t, rest.foldlM f u = .ok t ∧ P items t := by
    intro rest
    induction rest with
    | nil =>
      intro done u hitems hdone
      rw [List.append_nil] at hitems
      exact ⟨u, rfl, hitems ▸ hdone⟩
    | cons item rest ih =>
      intro done u hitems hdone
      obtain ⟨u', hitem, hnext⟩ := hstep done item rest u hitems hdone
      rw [foldlM_cons_of_ok hitem]
      exact ih _ u' (by rw [hitems, List.append_assoc, List.singleton_append]) hnext
  exact hrun items [] s rfl hinit

end Folds
