import ShimService.Threading.Supplier

/-! A `MemoizedSupplier` is a cell that is filled once. -/
namespace ShimService.MemoizedSupplier

open Transition Once

variable {τ ν : Type*} {s s' : State τ ν} {t u : τ} {p : Pc ν} {choice : Choice ν}
  {xs : List (τ × Choice ν)}

theorem cell_of_set (h : s.valueSet = true) : s.cell = some s.value := if_pos h

theorem cell_of_not_set (h : s.valueSet = false) :
    s.cell = s.holder.bind fun t => (s.pc t).pending s.value := by simp [State.cell, h]

variable [DecidableEq ν]

structure Inv (s : State τ ν) : Prop where
  locked : ∀ u, s.holder = some u ↔ (s.pc u).inside = true
  known : ∀ u b, (s.pc u).known = some b → s.valueSet = b
  getter : s.getter = false → s.valueSet = true
  mutex : s.mutex = false → s.valueSet = true
  legal : Legal s.log s.cell

theorem inv_initial : Inv (initial : State τ ν) where
  locked u := by simp [initial, Pc.inside]
  known u b h := by simp [initial, Pc.known] at h
  getter h := by simp [initial] at h
  mutex h := by simp [initial] at h
  legal := .nil

/-- Two threads in the section are one. -/
theorem Inv.eq_of_inside (h : Inv s) (ht : (s.pc t).inside = true) (hu : (s.pc u).inside = true) :
    t = u :=
  Option.some.inj (((h.locked t).mpr ht).symm.trans ((h.locked u).mpr hu))

variable [DecidableEq τ]

section

omit [DecidableEq ν]

@[simp] theorem goto_pc_self (t : τ) (p : Pc ν) : (s.goto t p).pc t = p := by simp [State.goto]

theorem goto_pc_of_ne (h : u ≠ t) : (s.goto t p).pc u = s.pc u := by simp [State.goto, h]

@[simp] theorem goto_valueSet : (s.goto t p).valueSet = s.valueSet := rfl
@[simp] theorem goto_mutex : (s.goto t p).mutex = s.mutex := rfl
@[simp] theorem goto_holder : (s.goto t p).holder = s.holder := rfl
@[simp] theorem goto_value : (s.goto t p).value = s.value := rfl
@[simp] theorem goto_getter : (s.goto t p).getter = s.getter := rfl
@[simp] theorem goto_log : (s.goto t p).log = s.log := rfl

end

omit [DecidableEq ν] in
/-- Where one thread has moved on, what is known of the others is as before. -/
theorem known_goto (hother : ∀ u ≠ t, ∀ b, (s.pc u).known = some b → s.valueSet = b)
    (ht : ∀ b, p.known = some b → s.valueSet = b) (u : τ) (b : Bool)
    (hu : ((s.goto t p).pc u).known = some b) : s.valueSet = b := by
  by_cases hut : u = t
  · subst hut
    rw [goto_pc_self] at hu
    exact ht b hu
  · rw [goto_pc_of_ne hut] at hu
    exact hother u hut b hu

omit [DecidableEq ν] in
theorem locked_goto (hother : ∀ u ≠ t, s.holder = some u ↔ (s.pc u).inside = true)
    (ht : s.holder = some t ↔ p.inside = true) (u : τ) :
    (s.goto t p).holder = some u ↔ ((s.goto t p).pc u).inside = true := by
  by_cases hut : u = t
  · subst hut
    rw [goto_pc_self, goto_holder]
    exact ht
  · rw [goto_pc_of_ne hut, goto_holder]
    exact hother u hut

omit [DecidableEq ν] in
theorem cell_goto (h : p.pending s.value = (s.pc t).pending s.value) :
    (s.goto t p).cell = s.cell := by
  unfold State.cell
  rw [goto_valueSet, goto_value, goto_holder]
  congr 1
  cases s.holder with
  | none => rfl
  | some u =>
    by_cases hut : u = t
    · subst hut
      simpa using h
    · simp [goto_pc_of_ne hut]

/-- A step that changes no field. -/
theorem Inv.goto (h : Inv s) (hinside : p.inside = (s.pc t).inside)
    (hpending : p.pending s.value = (s.pc t).pending s.value)
    (hknown : ∀ b, p.known = some b → s.valueSet = b) : Inv (s.goto t p) where
  locked := locked_goto (fun u _ => h.locked u) (by rw [hinside]; exact h.locked t)
  known := known_goto (fun u _ => h.known u) hknown
  getter := h.getter
  mutex := h.mutex
  legal := by rw [cell_goto hpending]; exact h.legal

omit [DecidableEq τ] in
/-- A step in the section that sets fields: what is known elsewhere is known to hold still, since it
is said outside the section only of a `__value_set` that is true. -/
theorem Inv.known_of_ne (h : Inv s) (hin : (s.pc t).inside = true) {flag : Bool}
    (hflag : s.valueSet = true → flag = true) (u : τ) (hut : u ≠ t) (b : Bool)
    (hu : (s.pc u).known = some b) : flag = b := by
  have hset := h.known u b hu
  cases b with
  | true => exact hflag hset
  | false =>
    have hinside : (s.pc u).inside = true := by
      cases hpc : s.pc u <;> simp_all [Pc.known, Pc.inside]
    exact absurd (h.eq_of_inside hinside hin) hut

/-- A step in the section. -/
theorem Inv.inside_step {s₁ : State τ ν} (h : Inv s) (hpcs : s₁.pc = s.pc)
    (hholder : s₁.holder = s.holder) (hin : (s.pc t).inside = true) (hp : p.inside = true)
    (hflag : s.valueSet = true → s₁.valueSet = true)
    (hknown : ∀ b, p.known = some b → s₁.valueSet = b)
    (hgetter : s₁.getter = false → s₁.valueSet = true)
    (hmutex : s₁.mutex = false → s₁.valueSet = true)
    (hlegal : Legal s₁.log (if s₁.valueSet then some s₁.value else p.pending s₁.value)) :
    Inv (s₁.goto t p) where
  locked := by
    refine locked_goto (fun u _ => ?_) ?_
    · rw [hholder, hpcs]
      exact h.locked u
    · rw [hholder, hp]
      simpa [hin] using h.locked t
  known := by
    refine known_goto (fun u hut b hu => ?_) hknown
    rw [hpcs] at hu
    exact h.known_of_ne hin hflag u hut b hu
  getter := hgetter
  mutex := hmutex
  legal := by
    have hholder : s₁.holder = some t := hholder.trans ((h.locked t).mpr hin)
    simpa [State.cell, hholder] using hlegal

omit [DecidableEq τ] in
theorem Inv.not_set (h : Inv s) (hpc : s.pc t = p) (hknown : p.known = some false) :
    s.valueSet = false := h.known t false (hpc ▸ hknown)

omit [DecidableEq τ] in
theorem Inv.set (h : Inv s) (hpc : s.pc t = p) (hknown : p.known = some true) :
    s.valueSet = true := h.known t true (hpc ▸ hknown)

omit [DecidableEq τ] in
theorem Inv.has_getter (h : Inv s) (hset : s.valueSet = false) : s.getter = true := by
  by_contra hgetter
  simp [h.getter (by simpa using hgetter)] at hset

omit [DecidableEq τ] in
/-- The cell while a thread is in the section and `__value_set` is not set. -/
theorem Inv.cell_eq_pending (h : Inv s) (hpc : s.pc t = p) (hin : p.inside = true)
    (hset : s.valueSet = false) : s.cell = p.pending s.value := by
  have hholder : s.holder = some t := (h.locked t).mpr (hpc ▸ hin)
  rw [cell_of_not_set hset, hholder, Option.bind_some, hpc]

theorem inv_acquire (h : Inv s) (hfree : s.holder.isNone = true) :
    Inv ({ s with holder := some t }.goto t .testingAgain) where
  locked := by
    refine locked_goto (fun u hut => ?_) (by simp [Pc.inside])
    have hout : ¬ (s.pc u).inside = true := by
      rw [← h.locked u]
      simp [Option.isNone_iff_eq_none.mp hfree]
    simpa [hout] using Ne.symm hut
  known := known_goto (fun u _ => h.known u) (by simp [Pc.known])
  getter := h.getter
  mutex := h.mutex
  legal := by
    have hcell : ({ s with holder := some t }.goto t .testingAgain).cell = s.cell := by
      simp [State.cell, Option.isNone_iff_eq_none.mp hfree, Pc.pending]
    rw [hcell]
    exact h.legal

theorem inv_leave {raised : Bool} (h : Inv s) (hpc : s.pc t = .leaving raised) :
    Inv ({ s with holder := none }.goto t (if raised then .idle else .reading)) where
  locked := by
    refine locked_goto (fun u hut => ?_) (by cases raised <;> simp [Pc.inside])
    have hout : ¬ (s.pc u).inside = true := fun hu =>
      hut (h.eq_of_inside hu (by simp [hpc, Pc.inside]))
    simp [hout]
  known := by
    refine known_goto (fun u _ => h.known u) ?_
    cases raised with
    | true => simp [Pc.known]
    | false => simpa [Pc.known] using h.set hpc rfl
  getter := h.getter
  mutex := h.mutex
  legal := by
    have hcell : ({ s with holder := none }.goto t (if raised then .idle else .reading)).cell
        = s.cell := by
      by_cases hset : s.valueSet = true
      · rw [cell_of_set hset]
        exact cell_of_set hset
      · have hset : s.valueSet = false := by simpa using hset
        rw [h.cell_eq_pending hpc rfl hset]
        exact cell_of_not_set hset
    rw [hcell]
    exact h.legal

theorem inv_next (h : Inv s) (hs : next s t choice = some s') : Inv s' := by
  unfold next at hs
  split at hs
  case h_1 callback hpc =>
    obtain rfl := Option.some.inj hs
    have hcall : Inv { s with callback := Function.update s.callback t callback } :=
      ⟨h.locked, h.known, h.getter, h.mutex, h.legal⟩
    exact hcall.goto (by simp [hpc, Pc.inside]) (by simp [hpc, Pc.pending]) (by simp [Pc.known])
  case h_2 hpc =>
    obtain rfl := Option.some.inj hs
    cases hset : s.valueSet <;>
      exact h.goto (by simp [hpc, Pc.inside]) (by simp [hpc, Pc.pending]) (by simp [Pc.known, hset])
  case h_3 hpc =>
    obtain rfl := Option.some.inj hs
    cases hmutex : s.mutex
    · exact h.goto (by simp [hpc, Pc.inside]) (by simp [hpc, Pc.pending])
        (by simp [Pc.known, h.mutex hmutex])
    · exact h.goto (by simp [hpc, Pc.inside]) (by simp [hpc, Pc.pending]) (by simp [Pc.known])
  case h_4 hpc =>
    obtain ⟨hfree, hs⟩ := Option.ite_none_right_eq_some.mp hs
    obtain rfl := Option.some.inj hs
    exact inv_acquire h hfree
  case h_5 hpc =>
    obtain rfl := Option.some.inj hs
    cases hset : s.valueSet <;>
      exact h.goto (by simp [hpc, Pc.inside]) (by simp [hpc, Pc.pending]) (by simp [Pc.known, hset])
  case h_6 v hpc =>
    obtain ⟨-, hs⟩ := Option.ite_none_right_eq_some.mp hs
    obtain rfl := Option.some.inj hs
    have hset := h.not_set hpc rfl
    refine h.inside_step rfl rfl (by simp [hpc, Pc.inside]) rfl id (by simpa [Pc.known] using hset)
      h.getter h.mutex ?_
    have hempty : s.cell = none := h.cell_eq_pending hpc rfl hset
    have hlegal := h.legal
    rw [hempty] at hlegal
    simpa [hset, Pc.pending] using hlegal.loaded v
  case h_7 hpc =>
    obtain ⟨-, hs⟩ := Option.ite_none_right_eq_some.mp hs
    obtain rfl := Option.some.inj hs
    have hset := h.not_set hpc rfl
    refine h.inside_step rfl rfl (by simp [hpc, Pc.inside]) rfl id (by simp [Pc.known])
      h.getter h.mutex ?_
    have hempty : s.cell = none := h.cell_eq_pending hpc rfl hset
    have hlegal := h.legal
    rw [hempty] at hlegal
    simpa [hset, Pc.pending] using hlegal.failed
  case h_8 hpc =>
    have hgetter := h.has_getter (h.not_set hpc rfl)
    simp [hgetter] at hs
  case h_9 v hpc =>
    obtain rfl := Option.some.inj hs
    have hset := h.not_set hpc rfl
    refine h.inside_step rfl rfl (by simp [hpc, Pc.inside]) rfl id (by simpa [Pc.known] using hset)
      h.getter h.mutex ?_
    have hfilled : s.cell = some v := h.cell_eq_pending hpc rfl hset
    simpa [hset, Pc.pending, hfilled] using h.legal
  case h_10 hpc =>
    obtain rfl := Option.some.inj hs
    have hset := h.not_set hpc rfl
    refine h.inside_step rfl rfl (by simp [hpc, Pc.inside]) rfl (fun _ => rfl) (by simp [Pc.known])
      (fun _ => rfl) (fun _ => rfl) ?_
    have hfilled : s.cell = some s.value := h.cell_eq_pending hpc rfl hset
    simpa [hfilled] using h.legal
  case h_11 hpc =>
    obtain rfl := Option.some.inj hs
    have hset := h.set hpc rfl
    have hlegal : Legal s.log (some s.value) := cell_of_set hset ▸ h.legal
    refine h.inside_step rfl rfl (by simp [hpc, Pc.inside]) ?_ id ?_ (fun _ => hset) h.mutex ?_
    · cases s.callback t <;> rfl
    · cases s.callback t <;> simp [Pc.known, hset]
    · simpa [hset] using hlegal
  case h_12 hpc =>
    obtain rfl := Option.some.inj hs
    exact h.goto (by simp [hpc, Pc.inside]) (by simp [hpc, Pc.pending])
      (by simp [Pc.known, h.set hpc rfl])
  case h_13 hpc =>
    obtain rfl := Option.some.inj hs
    exact h.goto (by simp [hpc, Pc.inside]) (by simp [hpc, Pc.pending]) (by simp [Pc.known])
  case h_14 hpc =>
    obtain rfl := Option.some.inj hs
    have hset := h.set hpc rfl
    refine h.inside_step rfl rfl (by simp [hpc, Pc.inside]) rfl id (by simp [Pc.known, hset])
      h.getter (fun _ => hset) ?_
    simpa [hset, cell_of_set hset] using h.legal
  case h_15 raised hpc =>
    obtain rfl := Option.some.inj hs
    exact inv_leave h hpc
  case h_16 hpc =>
    obtain rfl := Option.some.inj hs
    have hset := h.set hpc rfl
    have hlegal : Legal s.log (some s.value) := cell_of_set hset ▸ h.legal
    have hlog : Inv { s with log := s.log ++ [CellEvent.returned s.value] } := by
      refine ⟨h.locked, h.known, h.getter, h.mutex, ?_⟩
      have hcell := hlegal.returned
      rwa [← cell_of_set hset] at hcell
    exact hlog.goto (by simp [hpc, Pc.inside]) (by simp [hpc, Pc.pending]) (by simp [Pc.known])
  case h_17 => cases hs

theorem inv_run (h : Run step Free initial xs s) : Inv s :=
  h.invariant (fun _ _ _ _ hs hi => inv_next hi hs) inv_initial

/-- A thread in a call has a next step, unless it waits for one in the section to leave it. -/
theorem Inv.next_isSome (h : Inv s) (hcall : s.pc t ≠ .idle) :
    (∃ choice, (next s t choice).isSome) ∨
      ∃ u, s.pc t = .acquiring ∧ (s.pc u).inside = true := by
  cases hpc : s.pc t with
  | idle => exact absurd hpc hcall
  | acquiring =>
    cases hholder : s.holder with
    | none => exact .inl ⟨.goes, by simp [next, hpc, hholder]⟩
    | some u => exact .inr ⟨u, rfl, (h.locked u).mp hholder⟩
  | calling =>
    have hgetter := h.has_getter (h.not_set hpc rfl)
    exact .inl ⟨.raises, by simp [next, hpc, hgetter]⟩
  | _ => exact .inl ⟨.goes, by simp [next, hpc]⟩

/-- However calls of `get` are interleaved, the getter returns once at most and is not called after
that, each `get` that returns gives what it returned, and while a call goes on, one can move. -/
theorem get_fills_once (h : Run step Free initial xs s) :
    Legal s.log s.cell ∧ (∀ t, s.pc t = .calling → s.getter = true ∧ s.cell = none) ∧
      (∀ t u, (s.pc t).inside = true → (s.pc u).inside = true → t = u) ∧
      ∀ t, s.pc t ≠ .idle → ∃ u choice, (step s (u, choice)).isSome := by
  have hi := inv_run h
  refine ⟨hi.legal, fun t hpc => ?_, fun t u => hi.eq_of_inside, fun t hcall => ?_⟩
  · have hset := hi.not_set hpc rfl
    exact ⟨hi.has_getter hset, hi.cell_eq_pending hpc rfl hset⟩
  · rcases hi.next_isSome hcall with hmoves | ⟨u, -, hu⟩
    · exact ⟨t, hmoves⟩
    · have hbusy : s.pc u ≠ .idle := by
        intro hidle
        simp [hidle, Pc.inside] at hu
      rcases hi.next_isSome hbusy with hmoves | ⟨_, hwaits, _⟩
      · exact ⟨u, hmoves⟩
      · simp [hwaits, Pc.inside] at hu

/-- A second call waits while the getter of the first one raises, and then calls it itself. -/
def twoCalls : List (Bool × Choice ℕ) :=
  [(false, .begins false), (false, .goes), (false, .goes), (false, .goes), (false, .goes),
    (true, .begins true), (true, .goes), (true, .goes), (false, .raises), (false, .goes),
    (true, .goes), (true, .goes), (true, .returns (some 7)), (true, .goes), (true, .goes),
    (true, .goes), (true, .goes), (true, .goes), (true, .goes), (true, .goes),
    (false, .begins false), (false, .goes), (false, .goes)]

theorem get_fills_once_twoCalls : ∃ s : State Bool ℕ, Run step Free initial twoCalls s ∧
    s.log = [.failed, .loaded (some 7), .returned (some 7), .returned (some 7)] ∧
    Legal s.log s.cell := by
  obtain ⟨s, hrun, hlog⟩ := exists_run_of_exec (free_of_check (σ := State Bool ℕ)) step initial
    twoCalls (fun s => s.log = [.failed, .loaded (some 7), .returned (some 7), .returned (some 7)])
    (by decide)
  exact ⟨s, hrun, by simpa using hlog, (get_fills_once hrun).1⟩

end ShimService.MemoizedSupplier
