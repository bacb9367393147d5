import Mathlib.Logic.Basic
import Mathlib.Order.Basic

/-! Guarded finite runs of a deterministic step function, and the rules that carry facts along. -/
namespace Transition

variable {σ τ α β : Type*} {step : σ → α → Option σ} {ok ok' : σ → α → Prop}
  {s t u : σ} {a : α} {xs ys : List α}

/-- A finite run whose every step meets `ok` in the state it is taken from. -/
inductive Run (step : σ → α → Option σ) (ok : σ → α → Prop) : σ → List α → σ → Prop where
  | refl {s : σ} : Run step ok s [] s
  | cons {s t u : σ} {a : α} {xs : List α} :
      ok s a → step s a = some t → Run step ok t xs u → Run step ok s (a :: xs) u

/-- The guard that lets every step pass. -/
def Free : σ → α → Prop := fun _ _ => True

/-- A fact kept by every guarded step holds at the end of a run if it holds at its start. -/
theorem Run.invariant {I : σ → Prop} (h : Run step ok s xs t)
    (hI : ∀ s a t, ok s a → step s a = some t → I s → I t) (hs : I s) : I t := by
  induction h with
  | refl => exact hs
  | cons hok hstep _ ih => exact ih (hI _ _ _ hok hstep hs)

/-- A preorder respected by every guarded step from an invariant state relates the ends of a run. -/
theorem Run.rel {I : σ → Prop} {R : σ → σ → Prop} (h : Run step ok s xs t)
    (hrefl : ∀ s, R s s) (htrans : ∀ s t u, R s t → R t u → R s u)
    (hI : ∀ s a t, ok s a → step s a = some t → I s → I t)
    (hR : ∀ s a t, ok s a → step s a = some t → I s → R s t) (hs : I s) : R s t := by
  induction h with
  | refl => exact hrefl _
  | cons hok hstep _ ih =>
    exact htrans _ _ _ (hR _ _ _ hok hstep hs) (ih (hI _ _ _ hok hstep hs))

/-- Where each guarded step lowers a measure, a run is no longer than the measure at its start. -/
theorem Run.length_le {I : σ → Prop} {weight : σ → ℕ} (h : Run step ok s xs t)
    (hI : ∀ s a t, ok s a → step s a = some t → I s → I t)
    (hlower : ∀ s a t, ok s a → step s a = some t → I s → weight t < weight s) (hs : I s) :
    xs.length ≤ weight s := by
  induction h with
  | refl => exact Nat.zero_le _
  | cons hok hstep _ ih =>
    exact Nat.lt_of_le_of_lt (ih (hI _ _ _ hok hstep hs)) (hlower _ _ _ hok hstep hs)

theorem Run.mono (h : Run step ok s xs t) (himp : ∀ s a, ok s a → ok' s a) :
    Run step ok' s xs t := by
  induction h with
  | refl => exact .refl
  | cons hok hstep _ ih => exact .cons (himp _ _ hok) hstep ih

/-- A guard that an invariant turns into a stronger one may be replaced by it. -/
theorem Run.strengthen {I : σ → Prop} (h : Run step ok s xs t)
    (hI : ∀ s a t, ok s a → step s a = some t → I s → I t)
    (himp : ∀ s a, I s → ok s a → ok' s a) (hs : I s) : Run step ok' s xs t := by
  induction h with
  | refl => exact .refl
  | cons hok hstep _ ih => exact .cons (himp _ _ hs hok) hstep (ih (hI _ _ _ hok hstep hs))

theorem Run.append (h : Run step ok s xs t) (h' : Run step ok t ys u) :
    Run step ok s (xs ++ ys) u := by
  induction h with
  | refl => exact h'
  | cons hok hstep _ ih => exact .cons hok hstep (ih h')

theorem Run.free (h : Run step ok s xs t) : Run step Free s xs t :=
  h.mono fun _ _ _ => trivial

/-- A run is guarded throughout, or the damage of an unguarded step lasts to its end. -/
theorem Run.guarded_or {I B : σ → Prop} (h : Run step Free s xs t)
    (hI : ∀ s a t, step s a = some t → I s → I t)
    (hBad : ∀ s a t, step s a = some t → B s → B t)
    (hbreak : ∀ s a t, step s a = some t → I s → ¬ ok s a → B t) (hs : I s) :
    Run step ok s xs t ∨ B t := by
  induction h with
  | refl => exact .inl .refl
  | @cons s t u a xs _ hstep hrest ih =>
    by_cases hok : ok s a
    · exact (ih (hI _ _ _ hstep hs)).imp_left (.cons hok hstep)
    · have hbad := hbreak _ _ _ hstep hs hok
      exact .inr (hrest.invariant (fun _ _ _ _ => hBad _ _ _) hbad)

/-- Where guarded steps keep what is good and an unguarded one spoils it for ever, the end of a run
is good exactly when the run is guarded throughout. -/
theorem Run.good_iff_guarded {I G : σ → Prop} (h : Run step Free s xs t)
    (hI : ∀ s a t, step s a = some t → I s → I t)
    (hbad : ∀ s a t, step s a = some t → I s → ¬ G s → ¬ G t)
    (hgood : ∀ s a t, ok s a → step s a = some t → I s → G s → G t)
    (hbreak : ∀ s a t, step s a = some t → I s → ¬ ok s a → ¬ G t)
    (hs : I s) (hstart : G s) : G t ↔ Run step ok s xs t := by
  constructor
  · intro ht
    have hor : Run step ok s xs t ∨ (I t ∧ ¬ G t) :=
      h.guarded_or (B := fun s => I s ∧ ¬ G s) hI
        (fun _ _ _ hstep hs => ⟨hI _ _ _ hstep hs.1, hbad _ _ _ hstep hs.1 hs.2⟩)
        (fun _ _ _ hstep hs hok => ⟨hI _ _ _ hstep hs, hbreak _ _ _ hstep hs hok⟩) hs
    exact hor.resolve_right fun hspoilt => hspoilt.2 ht
  · intro hrun
    have hboth : I t ∧ G t := hrun.invariant (I := fun s => I s ∧ G s)
      (fun _ _ _ hok hstep hs => ⟨hI _ _ _ hstep hs.1, hgood _ _ _ hok hstep hs.1 hs.2⟩)
      ⟨hs, hstart⟩
    exact hboth.2

/-- A run from good states to a good one, told from its last state. -/
theorem Run.always_head {G : σ → Prop} (h : Run step (fun s _ => G s) s xs t) (ht : G t) : G s := by
  cases h with
  | refl => exact ht
  | cons hs _ _ => exact hs

/-- Where a step from a good state ends in a good one exactly when it is guarded, every state of a
run is good exactly when the run is guarded throughout. -/
theorem Run.always_iff {I G : σ → Prop} (h : Run step Free s xs t)
    (hI : ∀ s a t, step s a = some t → I s → I t)
    (hiff : ∀ s a t, step s a = some t → I s → G s → (G t ↔ ok s a)) (hs : I s) (hstart : G s) :
    Run step (fun s _ => G s) s xs t ∧ G t ↔ Run step ok s xs t := by
  induction h with
  | refl => exact ⟨fun _ => .refl, fun _ => ⟨.refl, hstart⟩⟩
  | @cons s t u a xs _ hstep _ ih =>
    have hhead := hiff _ _ _ hstep hs hstart
    have hrest := ih (hI _ _ _ hstep hs)
    constructor
    · rintro ⟨hrun, hu⟩
      cases hrun with
      | cons _ hstep' hrun =>
        obtain rfl := Option.some.inj (hstep.symm.trans hstep')
        have ht := hrun.always_head hu
        exact .cons (hhead.mp ht) hstep ((hrest ht).mp ⟨hrun, hu⟩)
    · intro hrun
      cases hrun with
      | cons hok hstep' hrun =>
        obtain rfl := Option.some.inj (hstep.symm.trans hstep')
        obtain ⟨hgood, hu⟩ := (hrest (hhead.mpr hok)).mpr hrun
        exact ⟨.cons hstart hstep hgood, hu⟩

/-- A map that sends each guarded step to a guarded step or to no step at all sends runs to runs. -/
theorem Run.project {step' : τ → β → Option τ} {ok₂ : τ → β → Prop} {f : σ → τ}
    (h : Run step ok s xs t)
    (hf : ∀ s a t, ok s a → step s a = some t →
      f t = f s ∨ ∃ b, ok₂ (f s) b ∧ step' (f s) b = some (f t)) :
    ∃ ys, Run step' ok₂ (f s) ys (f t) := by
  induction h with
  | refl => exact ⟨[], .refl⟩
  | cons hok hstep _ ih =>
    obtain ⟨ys, hys⟩ := ih
    rcases hf _ _ _ hok hstep with he | ⟨b, hb, hstep'⟩
    · exact ⟨ys, he ▸ hys⟩
    · exact ⟨b :: ys, .cons hb hstep' hys⟩

/-- Runs the actions in turn, stopping where an action is refused or the guard fails. -/
def exec (step : σ → α → Option σ) (ok : σ → α → Bool) : σ → List α → Option σ
  | s, [] => some s
  | s, a :: xs => if ok s a then (step s a).bind fun t => exec step ok t xs else none

theorem run_of_exec {okb : σ → α → Bool} (himp : ∀ s a, okb s a = true → ok s a)
    (h : exec step okb s xs = some t) : Run step ok s xs t := by
  induction xs generalizing s with
  | nil =>
    obtain rfl : s = t := by simpa [exec] using h
    exact .refl
  | cons a xs ih =>
    unfold exec at h
    split at h
    · rename_i hok
      obtain ⟨u, hu, hx⟩ := Option.bind_eq_some_iff.mp h
      exact .cons (himp _ _ hok) hu (ih hx)
    · cases h

theorem free_of_check (s : σ) (a : α) (_ : (fun _ _ => true : σ → α → Bool) s a = true) :
    Free s a := trivial

/-- An evaluated schedule that ends in a state with `p` is a run to such a state. -/
theorem exists_run_of_exec {okb : σ → α → Bool} (himp : ∀ s a, okb s a = true → ok s a)
    (step : σ → α → Option σ) (s : σ) (xs : List α) (p : σ → Bool)
    (h : (exec step okb s xs).any p = true) :
    ∃ t, Run step ok s xs t ∧ p t = true := by
  cases hx : exec step okb s xs with
  | none => simp [hx] at h
  | some t => exact ⟨t, run_of_exec himp hx, by simpa [hx] using h⟩

/-- Two evaluated schedules in a row. -/
theorem exists_runs_of_exec {okb : σ → α → Bool} (himp : ∀ s a, okb s a = true → ok s a)
    (step : σ → α → Option σ) (s : σ) (xs ys : List α) (p : σ → σ → Bool)
    (h : ((exec step okb s xs).any fun t => (exec step okb t ys).any (p t)) = true) :
    ∃ t u, Run step ok s xs t ∧ Run step ok t ys u ∧ p t u = true := by
  obtain ⟨t, ht, hp⟩ := exists_run_of_exec himp step s xs _ h
  obtain ⟨u, hu, hp⟩ := exists_run_of_exec himp step t ys _ hp
  exact ⟨t, u, ht, hu, hp⟩

end Transition
