import ShimService.Bean.Initialized

/-! What makes a `get_instance` raise. -/
namespace ShimService.BeanImpl

open Transition Once

variable {τ β ν : Type*} [DecidableEq τ] [DecidableEq β] [DecidableEq ν] {setup : Setup β}
  {s s' : State τ β ν} {t u : τ} {f g : Frame β ν} {rest frames : List (Frame β ν)} {b : β}
  {x x' : Bean ν} {p : Pc ν} {choice : Choice β ν} {xs : List (τ × Choice β ν)} {fault : Fault}

/-- The initializer has raised, or the bean needs itself. A mutex is missed only where beans are
not resettable, and after the bean has been initialized. -/
def Fault.Explained (setup : Setup β) (b : β) (x : Bean ν) : Fault → Prop
  | .initialization => CellEvent.failed ∈ x.log
  | .inProgress => Reaches setup b b
  | .noMutex => setup.resettable = false ∧ x.initialized = true

/-- A bean stays initialized, and nothing leaves its log. -/
structure Bean.Grows (x x' : Bean ν) : Prop where
  initialized : x.initialized = true → x'.initialized = true
  log : x.log ⊆ x'.log

omit [DecidableEq ν] in
theorem Bean.Grows.refl (x : Bean ν) : x.Grows x := ⟨id, fun _ => id⟩

omit [DecidableEq ν] [DecidableEq β] in
theorem Fault.Explained.mono (h : fault.Explained setup b x) (hx : x.Grows x') :
    fault.Explained setup b x' := by
  cases fault with
  | initialization => exact hx.log h
  | inProgress => exact h
  | noMutex => exact ⟨h.1, hx.initialized h.2⟩

omit [DecidableEq τ] [DecidableEq ν] in
theorem setBean_grows (hx : (s.bean b).Grows x) (c : β) :
    (s.bean c).Grows ((s.setBean b x).bean c) := by
  by_cases hc : c = b
  · subst hc
    rw [setBean_bean_self]
    exact hx
  · rw [setBean_bean_of_ne hc]
    exact .refl _

omit [DecidableEq ν] in
theorem nextFrame_grows (hnext : nextFrame setup s t f rest choice = some s') (c : β) :
    (s.bean c).Grows (s'.bean c) := by
  have hset : ∀ x, s'.bean = (s.setBean f.bean x).bean → (s.bean f.bean).Grows x →
      (s.bean c).Grows (s'.bean c) := fun x hs' hx => hs' ▸ setBean_grows hx c
  unfold nextFrame at hnext
  split at hnext
  case h_3 =>
    obtain ⟨-, hnext⟩ := Option.ite_none_right_eq_some.mp hnext
    obtain rfl := Option.some.inj hnext
    exact .refl _
  case h_9 =>
    split at hnext
    · obtain rfl := Option.some.inj hnext
      exact .refl _
    · obtain ⟨l, -, rfl⟩ := Option.map_eq_some_iff.mp hnext
      exact .refl _
  case h_12 =>
    dsimp only at hnext
    split at hnext <;> obtain rfl := Option.some.inj hnext <;> exact .refl _
  case h_14 =>
    obtain ⟨-, hnext⟩ := Option.ite_none_left_eq_some.mp hnext
    obtain rfl := Option.some.inj hnext
    exact hset _ rfl ⟨id, List.subset_append_left _ _⟩
  case h_20 =>
    split at hnext <;> obtain rfl := Option.some.inj hnext
    · exact .refl _
    · exact hset _ rfl ⟨id, fun _ => id⟩
  case h_21 raised _ =>
    obtain ⟨m, -, rfl⟩ := Option.map_eq_some_iff.mp hnext
    cases raised <;> exact .refl _
  case h_23 => cases hnext
  case h_15 =>
    obtain rfl := Option.some.inj hnext
    exact hset _ rfl ⟨id, List.subset_append_left _ _⟩
  case h_22 =>
    obtain rfl := Option.some.inj hnext
    exact hset _ rfl ⟨id, List.subset_append_left _ _⟩
  case h_17 =>
    obtain rfl := Option.some.inj hnext
    exact hset _ rfl ⟨fun _ => rfl, fun _ => id⟩
  all_goals
    obtain rfl := Option.some.inj hnext
    first
      | exact .refl _
      | exact hset _ rfl ⟨id, fun _ => id⟩

/-- A bean that is found in progress needs itself. -/
theorem Inv.reaches_of_busy (h : Inv setup s) (hneeded : Needed setup s)
    (hs : s.stack t = f :: rest) (hpc : f.pc = .asserting)
    (hbusy : (s.bean f.bean).initInProgress = true) : Reaches setup f.bean f.bean := by
  obtain ⟨u, g, hg, hb, hworking⟩ := h.busy f.bean hbusy
  obtain rfl : t = u :=
    h.eq_of_inside (by simp [hs]) hg (by simp [hpc, Pc.inside]) (inside_of_working hworking) hb
  have hbeans := hneeded t
  rw [hs] at hg hbeans
  rcases List.mem_cons.mp hg with rfl | hg
  · simp [hpc, Pc.working] at hworking
  · exact (List.pairwise_cons.mp hbeans).1 f.bean (hb ▸ List.mem_map_of_mem hg)

/-- A step raises nothing, or what has been raised is explained. -/
theorem nextFrame_faults (h : Inv setup s) (hneeded : Needed setup s)
    (hs : s.stack t = f :: rest) (hnext : nextFrame setup s t f rest choice = some s') :
    s'.faults = s.faults ∨ ∃ fault, s'.faults = s.faults ++ [(t, f.bean, fault)] ∧
      fault.Explained setup f.bean (s'.bean f.bean) := by
  have htop := h.top hs
  unfold nextFrame at hnext
  split at hnext
  case h_3 =>
    obtain ⟨-, hnext⟩ := Option.ite_none_right_eq_some.mp hnext
    obtain rfl := Option.some.inj hnext
    exact .inl rfl
  case h_9 hpc =>
    simp only [Frame.Ok, hpc] at htop
    split at hnext
    · rename_i hm
      obtain rfl := Option.some.inj hnext
      have hset := htop.2.1 hm
      exact .inr ⟨.noMutex, rfl, hset.2, hset.1⟩
    · obtain ⟨l, -, rfl⟩ := Option.map_eq_some_iff.mp hnext
      exact .inl rfl
  case h_12 hpc =>
    dsimp only at hnext
    split at hnext <;> obtain rfl := Option.some.inj hnext
    · rename_i hbusy
      exact .inr ⟨.inProgress, rfl, h.reaches_of_busy hneeded hs hpc hbusy⟩
    · exact .inl rfl
  case h_14 =>
    obtain ⟨-, hnext⟩ := Option.ite_none_left_eq_some.mp hnext
    obtain rfl := Option.some.inj hnext
    exact .inl rfl
  case h_19 hpc =>
    obtain rfl := Option.some.inj hnext
    simp only [Frame.Ok, hpc] at htop
    refine .inr ⟨.initialization, rfl, ?_⟩
    change CellEvent.failed ∈ ((s.setBean f.bean _).bean f.bean).log
    rw [setBean_bean_self]
    exact htop.2.2.2.2.2
  case h_20 =>
    split at hnext <;> obtain rfl := Option.some.inj hnext <;> exact .inl rfl
  case h_21 raised _ =>
    obtain ⟨m, -, rfl⟩ := Option.map_eq_some_iff.mp hnext
    cases raised <;> exact .inl rfl
  case h_23 => cases hnext
  all_goals
    obtain rfl := Option.some.inj hnext
    exact .inl rfl

def Explained (setup : Setup β) (s : State τ β ν) : Prop :=
  ∀ t b fault, (t, b, fault) ∈ s.faults → fault.Explained setup b (s.bean b)

theorem explained_next (h : Inv setup s) (hneeded : Needed setup s) (he : Explained setup s)
    (hnext : next setup s t choice = some s') : Explained setup s' := by
  unfold next at hnext
  split at hnext
  · obtain ⟨-, hnext⟩ := Option.ite_none_right_eq_some.mp hnext
    obtain rfl := Option.some.inj hnext
    exact he
  · split at hnext
    · cases hnext
    · rename_i f rest hs
      intro u b fault hfault
      rcases nextFrame_faults h hneeded hs hnext with hsame | ⟨new, hnew, hexplained⟩
      · rw [hsame] at hfault
        exact (he u b fault hfault).mono (nextFrame_grows hnext b)
      · rw [hnew, List.mem_append, List.mem_singleton] at hfault
        rcases hfault with hold | hlast
        · exact (he u b fault hold).mono (nextFrame_grows hnext b)
        · cases hlast
          exact hexplained

/-- A `get_instance` raises only where its initializer has raised or needs its own bean, or where
the mutex of a bean that has been initialized goes away between two looks at it. -/
theorem faults_explained (h : Run (step setup) Free (initial : State τ β ν) xs s) :
    ∀ t b fault, (t, b, fault) ∈ s.faults → fault.Explained setup b (s.bean b) := by
  have hall : Inv setup s ∧ Needed setup s ∧ Explained setup s :=
    h.invariant (I := fun s => Inv setup s ∧ Needed setup s ∧ Explained setup s)
      (fun _ _ _ _ hs hi => ⟨inv_next hi.1 hs, needed_next hi.2.1 hs,
        explained_next hi.1 hi.2.1 hi.2.2 hs⟩)
      ⟨inv_initial, fun t => by simp [initial], fun t b fault hf => by simp [initial] at hf⟩
  exact hall.2.2

/-- Of two threads that get a bean at the same time, one looks for the mutex after the other one has
created it and again after it has been cleared. -/
def lateLook : List (Bool × Choice Unit ℕ) :=
  [(false, .gets ()), (false, .goes), (false, .goes), (true, .gets ()), (true, .goes),
    (true, .goes), (false, .goes), (false, .goes), (false, .goes), (false, .goes), (false, .goes),
    (false, .goes), (true, .goes), (true, .goes), (false, .goes), (false, .goes), (false, .goes),
    (false, .goes), (false, .goes), (false, .returns (some 7)), (false, .goes), (false, .goes),
    (false, .goes), (false, .goes), (false, .goes), (false, .goes), (true, .goes), (true, .goes),
    (true, .goes)]

theorem faults_explained_lateLook : ∃ s : State Bool Unit ℕ,
    Run (step ⟨false, fun _ => false, fun _ => []⟩) Free initial lateLook s ∧
      s.faults = [(true, (), .noMutex)] ∧
      Fault.Explained ⟨false, fun _ => false, fun _ => []⟩ () (s.bean ()) .noMutex := by
  obtain ⟨s, hrun, hs⟩ := exists_run_of_exec (free_of_check (σ := State Bool Unit ℕ))
    (step ⟨false, fun _ => false, fun _ => []⟩) initial lateLook
    (fun s => decide (s.faults = [(true, (), .noMutex)])) (by decide)
  have hfaults : s.faults = [(true, (), .noMutex)] := of_decide_eq_true hs
  exact ⟨s, hrun, hfaults, faults_explained hrun true () .noMutex (by simp [hfaults])⟩

end ShimService.BeanImpl
