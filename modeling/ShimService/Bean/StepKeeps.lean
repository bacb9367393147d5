import ShimService.Bean.BeanSteps

/-! Every step of a thread keeps the invariant. -/
namespace ShimService.BeanImpl

open Transition Once

variable {τ β ν : Type*} [DecidableEq τ] [DecidableEq β] [DecidableEq ν] {setup : Setup β}
  {s s' : State τ β ν} {t u : τ} {f g : Frame β ν} {rest frames : List (Frame β ν)} {b : β}
  {p : Pc ν} {x : Bean ν} {choice : Choice β ν}

/-- What is busy while a call that is not working has something else on its place. -/
theorem Inv.busy_of_rest_cons (h : Inv setup s) (hs : s.stack t = f :: rest)
    (hf : f.pc.working = false) (b : β)
    (hb : (s.bean b).initInProgress = true) :
    (∃ f' ∈ g :: rest, f'.bean = b ∧ f'.pc.working = true) ∨
      ∃ u, u ≠ t ∧ ∃ f' ∈ s.stack u, f'.bean = b ∧ f'.pc.working = true := by
  rcases h.busy_of_rest hs (fun _ => hf) hb with ⟨f', hf', hrest⟩ | hother
  · exact .inl ⟨f', List.mem_cons_of_mem _ hf', hrest⟩
  · exact .inr hother

/-- A step that changes only where a call stands, and its `m`. -/
theorem Inv.goto (h : Inv setup s) (hs : s.stack t = f :: rest) {m : Option ℕ}
    (hglobal : p.inGlobal = f.pc.inGlobal) (hin : p.inside = f.pc.inside)
    (hworking : f.pc.working = false ∧ p.working = false)
    (hok : Frame.Ok setup.resettable (s.bean f.bean) ⟨f.bean, m, p⟩) :
    Inv setup (s.goto t { f with m := m } rest p) := by
  have hstack : StackOk (⟨f.bean, m, p⟩ :: rest) :=
    (h.stack_cons hs).cons rfl (by simp [hworking.2])
  refine h.of_stack rfl h.bean (fun u _ => h.frame u) ?_ hstack ?_ (fun _ _ => Iff.rfl) ?_
    (fun _ _ _ => rfl) (h.busy_of_rest_cons hs hworking.1)
  · intro g hg
    rcases List.mem_cons.mp hg with rfl | hg
    · exact hok
    · exact h.frame t g (by simp [hs, hg])
  · rw [exists_inGlobal_cons hstack, hglobal]
    exact h.global_iff hs
  · intro b
    have hlock := h.lock t b
    rw [hs, inSection_cons] at hlock
    rw [inSection_cons, hin]
    exact hlock

/-- A call in the section of its bean's mutex that changes the bean. -/
theorem Inv.change (h : Inv setup s) (hs : s.stack t = f :: rest) (hfin : f.pc.inside = true)
    (hpin : p.inside = true) (hbelow : ∀ g ∈ rest, g.bean ≠ f.bean)
    (hx : x.Ok setup.resettable) (hok : Frame.Ok setup.resettable x ⟨f.bean, f.m, p⟩)
    (hcreated : x.created = (s.bean f.bean).created)
    (hinitialized : (s.bean f.bean).initialized = true → x.initialized = true)
    (hmutex : (s.bean f.bean).mutex = none →
      x.mutex = none ∧ x.initialized = (s.bean f.bean).initialized)
    (hbusy : x.initInProgress = true → p.working = true) :
    Inv setup ((s.setBean f.bean x).goto t f rest p) := by
  have hglobal : p.inGlobal = false ∧ f.pc.inGlobal = false := by
    constructor
    · cases p <;> simp_all [Pc.inside, Pc.inGlobal]
    · cases hpc : f.pc <;> simp_all [Pc.inside, Pc.inGlobal]
  have hstack : StackOk (⟨f.bean, f.m, p⟩ :: rest) :=
    ⟨(h.stack_cons hs).below,
      List.pairwise_cons.mpr ⟨fun g hg _ => (hbelow g hg).symm, (h.stack_cons hs).tail.once⟩⟩
  refine h.of_stack rfl ?_ ?_ ?_ hstack ?_ (fun _ _ => Iff.rfl) ?_ (fun _ _ _ => rfl) ?_
  · intro b
    by_cases hb : b = f.bean
    · subst hb
      simpa using hx
    · simpa [setBean_bean_of_ne hb] using h.bean b
  · intro u hu g hg
    by_cases hb : g.bean = f.bean
    · have hout : g.pc.inside = false := by
        by_contra hgin
        exact hu (h.eq_of_inside (by simp [hs]) hg hfin (by simpa using hgin) hb).symm
      have hg' := h.frame u g hg
      rw [hb] at hg'
      simpa [hb] using hg'.of_outside hout hcreated hinitialized hmutex
    · simpa [setBean_bean_of_ne hb] using h.frame u g hg
  · intro g hg
    rcases List.mem_cons.mp hg with rfl | hg
    · simpa using hok
    · simpa [setBean_bean_of_ne (hbelow g hg)] using h.frame t g (by simp [hs, hg])
  · rw [exists_inGlobal_cons hstack, hglobal.1]
    have := h.global_iff hs
    rw [hglobal.2] at this
    exact this
  · intro b
    have hlock := h.lock t b
    rw [hs, inSection_cons, hfin] at hlock
    rw [inSection_cons, hpin]
    exact hlock
  · intro b hb
    by_cases hfb : f.bean = b
    · subst hfb
      rw [goto_bean, setBean_bean_self] at hb
      exact .inl ⟨_, List.mem_cons_self, rfl, hbusy hb⟩
    · rw [goto_bean, setBean_bean_of_ne (Ne.symm hfb)] at hb
      rcases h.busy_of_rest hs (fun he => absurd he hfb) hb with ⟨g, hg, hrest⟩ | hother
      · exact .inl ⟨g, List.mem_cons_of_mem _ hg, hrest⟩
      · exact .inr hother

/-- No call beneath is for the bean of one that is about to set up, initialize or clear it. -/
theorem Inv.below_ne (h : Inv setup s) (hs : s.stack t = f :: rest)
    (hpc : f.pc = .marking ∨ f.pc.working = true ∨ f.pc = .clearing) :
    ∀ g ∈ rest, g.bean ≠ f.bean := by
  intro g hg hb
  have htop := h.top hs
  have hcalling := (h.stack_cons hs).below g hg
  have hgok := h.frame t g (by simp [hs, hg])
  rw [hb] at hgok
  simp only [Frame.Ok, hcalling] at hgok
  rcases hpc with hpc | hpc | hpc
  · simp only [Frame.Ok, hpc] at htop
    simp_all
  · exact (List.pairwise_cons.mp (h.stack_cons hs).once).1 g hg hpc hb.symm
  · simp only [Frame.Ok, hpc] at htop
    simp_all

/-- A bean that a call is about to clear is not being initialized. -/
theorem Inv.idle_of_clearing (h : Inv setup s) (hs : s.stack t = f :: rest)
    (hpc : f.pc = .clearing) : (s.bean f.bean).initInProgress = false := by
  by_contra hbusy
  obtain ⟨u, g, hg, hb, hworking⟩ := h.busy f.bean (by simpa using hbusy)
  have hgin : g.pc.inside = true := by
    cases hgpc : g.pc <;> simp_all [Pc.working, Pc.inside]
  obtain rfl : t = u :=
    h.eq_of_inside (by simp [hs]) hg (by simp [hpc, Pc.inside]) hgin hb
  rw [hs] at hg
  rcases List.mem_cons.mp hg with rfl | hg
  · simp [hpc, Pc.working] at hworking
  · exact h.below_ne hs (.inr (.inr hpc)) g hg hb

omit [DecidableEq β] in
theorem Bean.Ok.created_eq {resettable : Bool} (h : x.Ok resettable) (hm : x.mutex = some 0) :
    x.created = 1 := by
  have hlt := h.mutex_lt 0 hm
  have hle := h.created_le
  omega

theorem inv_acquireGlobal (h : Inv setup s) (hs : s.stack t = f :: rest)
    (hpc : f.pc = .acquiringGlobal) (hfree : s.globalMutex.isNone = true) :
    Inv setup ({ s with globalMutex := some t }.goto t f rest .testingMutex) := by
  have hstack : StackOk (⟨f.bean, f.m, .testingMutex⟩ :: rest) :=
    (h.stack_cons hs).cons rfl (by simp [Pc.working])
  refine h.of_stack rfl h.bean (fun u _ => h.frame u) ?_ hstack ?_ ?_ ?_ (fun _ _ _ => rfl)
    (h.busy_of_rest_cons hs (by simp [hpc, Pc.working]))
  · intro g hg
    rcases List.mem_cons.mp hg with rfl | hg
    · trivial
    · exact h.frame t g (by simp [hs, hg])
  · rw [exists_inGlobal_cons hstack]
    simp [Pc.inGlobal]
  · intro u hu
    simpa [Option.isNone_iff_eq_none.mp hfree] using Ne.symm hu
  · intro b
    have hlock := h.lock t b
    rw [hs, inSection_cons, hpc] at hlock
    rw [inSection_cons]
    exact hlock

theorem inv_leaveGlobal (h : Inv setup s) (hs : s.stack t = f :: rest) {returns : Bool}
    (hpc : f.pc = .leavingGlobal returns) :
    Inv setup ({ s with globalMutex := none }.goto t f rest
      (if returns then .reading else .entering)) := by
  have hheld : s.globalMutex = some t := (h.global_iff hs).mpr (by simp [hpc, Pc.inGlobal])
  have hstack : StackOk (⟨f.bean, f.m, if returns then .reading else .entering⟩ :: rest) :=
    (h.stack_cons hs).cons rfl (by cases returns <;> simp [Pc.working])
  refine h.of_stack rfl h.bean (fun u _ => h.frame u) ?_ hstack ?_ ?_ ?_ (fun _ _ _ => rfl)
    (h.busy_of_rest_cons hs (by simp [hpc, Pc.working]))
  · intro g hg
    rcases List.mem_cons.mp hg with rfl | hg
    · have htop := h.top hs
      cases returns <;> simpa [Frame.Ok, hpc] using htop
    · exact h.frame t g (by simp [hs, hg])
  · rw [exists_inGlobal_cons hstack]
    cases returns <;> simp [Pc.inGlobal]
  · intro u hu
    simpa [hheld] using Ne.symm hu
  · intro b
    have hlock := h.lock t b
    rw [hs, inSection_cons, hpc] at hlock
    rw [inSection_cons]
    cases returns <;> exact hlock

/-- The first mutex of a bean, which is created while no call is in its section. -/
theorem inv_create (h : Inv setup s) (hs : s.stack t = f :: rest) (hpc : f.pc = .creatingMutex) :
    Inv setup ((s.setBean f.bean { s.bean f.bean with
      mutex := some (s.bean f.bean).created
      created := (s.bean f.bean).created + 1 }).goto t f rest .rereadingMutex) := by
  have htop := h.top hs
  simp only [Frame.Ok, hpc] at htop
  obtain ⟨hmutex, hinit⟩ := htop
  have hbean := h.bean f.bean
  have hnone : (s.bean f.bean).created = 0 := by
    have hle := hbean.created_le
    by_contra hne
    have hcleared := (hbean.cleared hmutex (by omega)).1
    simp [hinit] at hcleared
  have hidle := (hbean.untouched hnone).2
  have hstack : StackOk (⟨f.bean, f.m, .rereadingMutex⟩ :: rest) :=
    (h.stack_cons hs).cons rfl (by simp [Pc.working])
  -- what another call of this bean would know is that the mutex has been created
  have hkeeps : ∀ g : Frame β ν, g.pc.inGlobal = false → g.Ok setup.resettable (s.bean f.bean) →
      ∀ x : Bean ν, g.Ok setup.resettable x := by
    intro g hg hok x
    obtain ⟨b, m, pc⟩ := g
    cases pc <;> simp_all [Frame.Ok, Pc.inGlobal]
    case unmarking raised => cases raised <;> simp_all
    case leaving raised => cases raised <;> simp_all
  have hother : ∀ u, ∀ g ∈ s.stack u, g.pc.inGlobal = false → g.Ok setup.resettable
      ((s.setBean f.bean { s.bean f.bean with
        mutex := some (s.bean f.bean).created
        created := (s.bean f.bean).created + 1 }).bean g.bean) := by
    intro u g hg hglobal
    have hgok := h.frame u g hg
    by_cases hb : g.bean = f.bean
    · rw [hb] at hgok
      exact hkeeps g hglobal hgok _
    · rw [setBean_bean_of_ne hb]
      exact hgok
  refine h.of_stack rfl ?_ ?_ ?_ hstack ?_ (fun _ _ => Iff.rfl) ?_ (fun _ _ _ => rfl) ?_
  · intro b
    by_cases hb : b = f.bean
    · subst hb
      rw [goto_bean, setBean_bean_self]
      exact ⟨by simp [hnone], by simp [hnone], by simp, by simp, by simp [hinit], hbean.empty,
        hbean.legal⟩
    · simpa [setBean_bean_of_ne hb] using h.bean b
  · intro u hu g hg
    refine hother u g hg ?_
    by_contra hglobal
    have hheld := (h.global u).mpr ⟨g, hg, by simpa using hglobal⟩
    have hheld' := (h.global_iff hs).mpr (by simp [hpc, Pc.inGlobal])
    exact hu (Option.some.inj (hheld.symm.trans hheld'))
  · intro g hg
    rcases List.mem_cons.mp hg with rfl | hg
    · simp [Frame.Ok, hnone]
    · exact hother t g (by simp [hs, hg]) (not_inGlobal_below (h.stack_cons hs) hg)
  · rw [exists_inGlobal_cons hstack]
    have hheld := h.global_iff hs
    rw [hpc] at hheld
    exact hheld
  · intro b
    have hlock := h.lock t b
    rw [hs, inSection_cons, hpc] at hlock
    rw [inSection_cons]
    exact hlock
  · intro b hb
    have hbusy : (s.bean b).initInProgress = true := by
      by_cases hfb : b = f.bean
      · subst hfb
        rw [goto_bean, setBean_bean_self] at hb
        exact hb
      · rwa [goto_bean, setBean_bean_of_ne hfb] at hb
    exact h.busy_of_rest_cons hs (by simp [hpc, Pc.working]) b hbusy

omit [DecidableEq ν] in
theorem setLock_level (l : RLock τ) (c : β) (u : τ) :
    RLock.level ((s.setLock b 0 l).locks c 0) u =
      if c = b then RLock.level l u else RLock.level (s.locks c 0) u := by
  by_cases hc : c = b
  · subst hc
    simp [State.setLock]
  · simp [State.setLock, hc]

theorem inv_enter (h : Inv setup s) (hs : s.stack t = f :: rest) (hpc : f.pc = .entering)
    {l : RLock τ} (hm : f.m = some 0) (hl : RLock.acquire (s.locks f.bean 0) t = some l) :
    Inv setup ((s.setLock f.bean 0 l).goto t f rest .testingCleared) := by
  have htop := h.top hs
  simp only [Frame.Ok, hpc] at htop
  have hstack : StackOk (⟨f.bean, f.m, .testingCleared⟩ :: rest) :=
    (h.stack_cons hs).cons rfl (by simp [Pc.working])
  refine h.of_stack rfl h.bean (fun u _ => h.frame u) ?_ hstack ?_ (fun _ _ => Iff.rfl) ?_ ?_
    (h.busy_of_rest_cons hs (by simp [hpc, Pc.working]))
  · intro g hg
    rcases List.mem_cons.mp hg with rfl | hg
    · exact ⟨htop.1, hm⟩
    · exact h.frame t g (by simp [hs, hg])
  · rw [exists_inGlobal_cons hstack]
    have hheld := h.global_iff hs
    rw [hpc] at hheld
    exact hheld
  · intro b
    have hlock := h.lock t b
    rw [hs, inSection_cons, hpc] at hlock
    rw [goto_locks, setLock_level, inSection_cons]
    by_cases hb : b = f.bean
    · subst hb
      rw [if_pos rfl, RLock.level_acquire hl, hlock]
      simp [Pc.inside]
    · rw [if_neg hb, hlock]
      simp [Pc.inside, Ne.symm hb]
  · intro u hu b
    rw [goto_locks, setLock_level]
    by_cases hb : b = f.bean
    · subst hb
      rw [if_pos rfl, RLock.level_acquire hl, if_neg (Ne.symm hu)]
      rfl
    · exact if_neg hb

/-- The call leaves the section, and goes on to its `return` or raises. -/
theorem inv_leave (h : Inv setup s) (hs : s.stack t = f :: rest) {raised : Bool}
    (hpc : f.pc = .leaving raised) :
    Inv setup (let released := s.setLock f.bean 0 (RLock.release (s.locks f.bean 0))
      if raised then released.setStack t rest else released.goto t f rest .reading) := by
  have htop := h.top hs
  have hlock := h.lock t
  rw [hs] at hlock
  have hheld : 0 < RLock.level (s.locks f.bean 0) t := by
    rw [hlock]
    exact inSection_pos List.mem_cons_self (by simp [hpc, Pc.inside])
  have hsection : ∀ b, RLock.level ((s.setLock f.bean 0
      (RLock.release (s.locks f.bean 0))).locks b 0) t = inSection b rest := by
    intro b
    have hb := hlock b
    rw [inSection_cons, hpc] at hb
    rw [setLock_level]
    by_cases hne : b = f.bean
    · subst hne
      have hrelease := RLock.level_release hheld t
      simp only [Pc.inside, and_self, if_true] at hb hrelease ⊢
      omega
    · simpa [Pc.inside, hne, Ne.symm hne] using hb
  have hlocks : ∀ u ≠ t, ∀ b, RLock.level ((s.setLock f.bean 0
      (RLock.release (s.locks f.bean 0))).locks b 0) u = RLock.level (s.locks b 0) u := by
    intro u hu b
    rw [setLock_level]
    by_cases hne : b = f.bean
    · subst hne
      have hrelease := RLock.level_release hheld u
      rw [if_neg (Ne.symm hu)] at hrelease
      simpa using hrelease.symm
    · exact if_neg hne
  have hglobal := h.global_iff hs
  rw [hpc] at hglobal
  have hrest := (h.stack_cons hs).tail
  cases raised with
  | true =>
    refine h.of_stack rfl h.bean (fun u _ => h.frame u) (fun g hg => h.frame t g (by simp [hs, hg]))
      hrest ?_ (fun _ _ => Iff.rfl) hsection hlocks
      fun b hb => h.busy_of_rest hs (by simp [hpc, Pc.working]) hb
    have hnone : ¬ ∃ g ∈ rest, g.pc.inGlobal = true := by
      rintro ⟨g, hg, hin⟩
      simp [not_inGlobal_below (h.stack_cons hs) hg] at hin
    exact iff_of_false (fun hheld => Bool.false_ne_true (hglobal.mp hheld)) hnone
  | false =>
    have hstack : StackOk (⟨f.bean, f.m, .reading⟩ :: rest) :=
      (h.stack_cons hs).cons rfl (by simp [Pc.working])
    refine h.of_stack rfl h.bean (fun u _ => h.frame u) ?_ hstack ?_ (fun _ _ => Iff.rfl) ?_ hlocks
      (h.busy_of_rest_cons hs (by simp [hpc, Pc.working]))
    · intro g hg
      rcases List.mem_cons.mp hg with rfl | hg
      · simp only [Frame.Ok, hpc] at htop
        exact htop.2.2
      · exact h.frame t g (by simp [hs, hg])
    · rw [exists_inGlobal_cons hstack]
      exact hglobal
    · intro b
      rw [inSection_cons]
      simpa [Pc.inside] using hsection b

/-- A call outside both sections ends. -/
theorem Inv.pop (h : Inv setup s) (hs : s.stack t = f :: rest) (hglobal : f.pc.inGlobal = false)
    (hin : f.pc.inside = false) : Inv setup (s.setStack t rest) := by
  have hworking : f.pc.working = false := by
    cases hpc : f.pc <;> simp_all [Pc.working, Pc.inside]
  refine h.of_stack rfl h.bean (fun u _ => h.frame u) (fun g hg => h.frame t g (by simp [hs, hg]))
    (h.stack_cons hs).tail ?_ (fun _ _ => Iff.rfl) ?_ (fun _ _ _ => rfl)
    fun b hb => h.busy_of_rest hs (fun _ => hworking) hb
  · have hnone : ¬ ∃ g ∈ rest, g.pc.inGlobal = true := by
      rintro ⟨g, hg, hin⟩
      simp [not_inGlobal_below (h.stack_cons hs) hg] at hin
    have hheld := h.global_iff hs
    rw [hglobal] at hheld
    exact iff_of_false (fun ht => Bool.false_ne_true (hheld.mp ht)) hnone
  · intro b
    have hlock := h.lock t b
    rw [hs, inSection_cons, hin] at hlock
    simpa using hlock

/-- What has been given out is added to the log of the bean. -/
theorem Inv.give (h : Inv setup s) (hset : (s.bean b).initialized = true) :
    Inv setup (s.setBean b { s.bean b with
      log := (s.bean b).log ++ [CellEvent.returned (s.bean b).value] }) := by
  have hb := h.bean b
  have hfilled := hb.filled hset
  have hlog : content ((s.bean b).log ++ [CellEvent.returned (s.bean b).value]) =
      content (s.bean b).log := by simp [content_append, content]
  refine ⟨fun c => ?_, fun t g hg => ?_, h.stack, h.global, h.lock, fun c hc => h.busy c ?_⟩
  · by_cases hc : c = b
    · subst hc
      rw [setBean_bean_self]
      refine ⟨hb.created_le, hb.mutex_lt, hb.cleared, hb.untouched, ?_, ?_, ?_⟩
      · exact fun _ => hlog.trans hfilled
      · intro hno
        simp [hset] at hno
      · have hlegal := hb.legal
        rw [hfilled] at hlegal
        have hgiven := hlegal.returned
        rwa [← hfilled, ← hlog] at hgiven
    · rw [setBean_bean_of_ne hc]
      exact h.bean c
  · have hg := h.frame t g hg
    by_cases hgb : g.bean = b
    · rw [hgb] at hg ⊢
      rw [setBean_bean_self]
      exact hg.of_log hlog
    · rw [setBean_bean_of_ne hgb]
      exact hg
  · by_cases hcb : c = b
    · subst hcb
      rw [setBean_bean_self] at hc
      exact hc
    · rwa [setBean_bean_of_ne hcb] at hc

theorem Inv.addFault (h : Inv setup s) (fault : Fault) : Inv setup (s.addFault t b fault) :=
  ⟨h.bean, h.frame, h.stack, h.global, h.lock, h.busy⟩

theorem inv_gets (h : Inv setup s) (hmay : mayGet setup b (s.stack t) = true) :
    Inv setup (s.setStack t (⟨b, none, .testing⟩ :: s.stack t)) := by
  have hcalling : ∀ f ∈ s.stack t, f.pc = .calling := by
    have hstack := h.stack t
    cases hs : s.stack t with
    | nil => simp
    | cons f rest =>
      rw [hs] at hmay hstack
      intro g hg
      rcases List.mem_cons.mp hg with rfl | hg
      · cases hpc : g.pc <;> simp [mayGet, hpc] at hmay ⊢
      · exact hstack.below g hg
  have hstack : StackOk (⟨b, none, .testing⟩ :: s.stack t) :=
    ⟨hcalling, List.pairwise_cons.mpr ⟨by simp [Pc.working], (h.stack t).once⟩⟩
  refine h.of_stack rfl h.bean (fun u _ => h.frame u) ?_ hstack ?_ (fun _ _ => Iff.rfl) ?_
    (fun _ _ _ => rfl) ?_
  · intro g hg
    rcases List.mem_cons.mp hg with rfl | hg
    · trivial
    · exact h.frame t g hg
  · have hnone : ¬ ∃ g ∈ s.stack t, g.pc.inGlobal = true := by
      rintro ⟨g, hg, hin⟩
      simp [hcalling g hg, Pc.inGlobal] at hin
    rw [exists_inGlobal_cons hstack, setStack_globalMutex, h.global t]
    exact iff_of_false hnone Bool.false_ne_true
  · intro c
    rw [inSection_cons]
    simpa [Pc.inside] using h.lock t c
  · intro c hc
    obtain ⟨u, f, hf, hbusy⟩ := h.busy c hc
    by_cases hu : u = t
    · subst hu
      exact .inl ⟨f, List.mem_cons_of_mem _ hf, hbusy⟩
    · exact .inr ⟨u, hu, f, hf, hbusy⟩

theorem inv_nextFrame (h : Inv setup s) (hs : s.stack t = f :: rest)
    (hnext : nextFrame setup s t f rest choice = some s') : Inv setup s' := by
  have htop := h.top hs
  have hbean := h.bean f.bean
  unfold nextFrame at hnext
  split at hnext
  case h_1 hpc =>
    obtain rfl := Option.some.inj hnext
    cases hset : (s.bean f.bean).initialized <;>
      exact h.goto hs (by simp [hpc, Pc.inGlobal]) (by simp [hpc, Pc.inside])
        (by simp [hpc, Pc.working])
        (by simp [Frame.Ok, hset])
  case h_2 hpc =>
    obtain rfl := Option.some.inj hnext
    cases hmutex : (s.bean f.bean).mutex with
    | none =>
      exact h.goto hs (by simp [hpc, Pc.inGlobal]) (by simp [hpc, Pc.inside])
        (by simp [hpc, Pc.working])
        (by simp [Frame.Ok])
    | some m =>
      have hlt := hbean.mutex_lt m hmutex
      have hle := hbean.created_le
      have hm : m = 0 := by omega
      have hcreated : (s.bean f.bean).created = 1 := by omega
      exact h.goto hs (by simp [hpc, Pc.inGlobal]) (by simp [hpc, Pc.inside])
        (by simp [hpc, Pc.working])
        (by simp [Frame.Ok, hm, hcreated])
  case h_3 hpc =>
    obtain ⟨hfree, hnext⟩ := Option.ite_none_right_eq_some.mp hnext
    obtain rfl := Option.some.inj hnext
    exact inv_acquireGlobal h hs hpc hfree
  case h_4 hpc =>
    obtain rfl := Option.some.inj hnext
    cases hmutex : (s.bean f.bean).mutex with
    | none =>
      exact h.goto hs (by simp [hpc, Pc.inGlobal]) (by simp [hpc, Pc.inside])
        (by simp [hpc, Pc.working])
        (by simp [Frame.Ok, hmutex])
    | some m =>
      have hlt := hbean.mutex_lt m hmutex
      have hle := hbean.created_le
      have hcreated : (s.bean f.bean).created = 1 := by omega
      exact h.goto hs (by simp [hpc, Pc.inGlobal]) (by simp [hpc, Pc.inside])
        (by simp [hpc, Pc.working])
        (by simp [Frame.Ok, hcreated])
  case h_5 hpc =>
    obtain rfl := Option.some.inj hnext
    simp only [Frame.Ok, hpc] at htop
    cases hset : (s.bean f.bean).initialized <;>
      exact h.goto hs (by simp [hpc, Pc.inGlobal]) (by simp [hpc, Pc.inside])
        (by simp [hpc, Pc.working])
        (by simp [Frame.Ok, hset, htop])
  case h_6 hpc =>
    obtain rfl := Option.some.inj hnext
    exact inv_create h hs hpc
  case h_7 hpc =>
    obtain rfl := Option.some.inj hnext
    simp only [Frame.Ok, hpc] at htop
    refine h.goto hs (by simp [hpc, Pc.inGlobal]) (by simp [hpc, Pc.inside])
        (by simp [hpc, Pc.working])
      ⟨htop, fun hmutex => hbean.cleared hmutex htop, fun m hmutex => ?_⟩
    have hlt := hbean.mutex_lt m hmutex
    omega
  case h_8 returns hpc =>
    obtain rfl := Option.some.inj hnext
    exact inv_leaveGlobal h hs hpc
  case h_9 hpc =>
    simp only [Frame.Ok, hpc] at htop
    cases hm : f.m with
    | none =>
      rw [hm] at hnext
      obtain rfl := Option.some.inj hnext
      exact (h.pop hs (by simp [hpc, Pc.inGlobal]) (by simp [hpc, Pc.inside])).addFault _
    | some m =>
      obtain rfl := htop.2.2 m hm
      rw [hm] at hnext
      obtain ⟨l, hl, rfl⟩ := Option.map_eq_some_iff.mp hnext
      exact inv_enter h hs hpc hm hl
  case h_10 hpc =>
    obtain rfl := Option.some.inj hnext
    simp only [Frame.Ok, hpc] at htop
    cases hmutex : (s.bean f.bean).mutex with
    | none =>
      exact h.goto hs (by simp [hpc, Pc.inGlobal]) (by simp [hpc, Pc.inside])
        (by simp [hpc, Pc.working])
        ⟨htop.2, htop.1, (hbean.cleared hmutex htop.1).1⟩
    | some m =>
      have hlt := hbean.mutex_lt m hmutex
      have hm : m = 0 := by omega
      exact h.goto hs (by simp [hpc, Pc.inGlobal]) (by simp [hpc, Pc.inside])
        (by simp [hpc, Pc.working])
        ⟨htop.2, hm ▸ hmutex⟩
  case h_11 hpc =>
    obtain rfl := Option.some.inj hnext
    simp only [Frame.Ok, hpc] at htop
    cases hset : (s.bean f.bean).initialized <;>
      exact h.goto hs (by simp [hpc, Pc.inGlobal]) (by simp [hpc, Pc.inside])
        (by simp [hpc, Pc.working])
        ⟨htop.1, htop.2, hset⟩
  case h_12 hpc =>
    simp only [Frame.Ok, hpc] at htop
    dsimp only at hnext
    split at hnext
    · obtain rfl := Option.some.inj hnext
      have hcreated := hbean.created_eq htop.2.1
      have hraises : Inv setup (s.goto t f rest (.leaving true)) :=
        h.goto hs (by simp [hpc, Pc.inGlobal]) (by simp [hpc, Pc.inside])
        (by simp [hpc, Pc.working])
          ⟨htop.1, hcreated⟩
      exact hraises.addFault _
    · rename_i hidle
      obtain rfl := Option.some.inj hnext
      exact h.goto hs (by simp [hpc, Pc.inGlobal]) (by simp [hpc, Pc.inside])
        (by simp [hpc, Pc.working])
        ⟨htop.1, htop.2.1, htop.2.2, by simpa using hidle⟩
  case h_13 hpc =>
    obtain rfl := Option.some.inj hnext
    have hbelow := h.below_ne hs (.inl hpc)
    simp only [Frame.Ok, hpc] at htop
    obtain ⟨hm, hmutex, hinit, hidle⟩ := htop
    have hempty := hbean.empty hinit hidle
    exact h.change hs (by simp [hpc, Pc.inside]) rfl hbelow
      ⟨hbean.created_le, hbean.mutex_lt, hbean.cleared,
        fun hzero => by simp [hbean.created_eq hmutex] at hzero, hbean.filled, by simp, hbean.legal⟩
      ⟨hm, hmutex, hinit, rfl, hempty⟩ rfl id (fun hnone => ⟨hnone, rfl⟩) fun _ => rfl
  case h_14 v hpc =>
    obtain ⟨-, hnext⟩ := Option.ite_none_left_eq_some.mp hnext
    obtain rfl := Option.some.inj hnext
    have hbelow := h.below_ne hs (.inr (.inl (by simp [hpc, Pc.working])))
    simp only [Frame.Ok, hpc] at htop
    obtain ⟨hm, hmutex, hinit, hbusy, hempty⟩ := htop
    have hcontent : content ((s.bean f.bean).log ++ [CellEvent.loaded v]) = some v := by
      simp [content_append, content, hempty]
    have hlegal := hbean.legal
    rw [hempty] at hlegal
    exact h.change hs (by simp [hpc, Pc.inside]) rfl hbelow
      ⟨hbean.created_le, hbean.mutex_lt, hbean.cleared, hbean.untouched, by simp [hinit],
        by simp [hbusy], hcontent ▸ hlegal.loaded v⟩
      ⟨hm, hmutex, hinit, hbusy, hcontent⟩ rfl id (fun hnone => ⟨hnone, rfl⟩) fun _ => rfl
  case h_15 hpc =>
    obtain rfl := Option.some.inj hnext
    have hbelow := h.below_ne hs (.inr (.inl (by simp [hpc, Pc.working])))
    simp only [Frame.Ok, hpc] at htop
    obtain ⟨hm, hmutex, hinit, hbusy, hempty⟩ := htop
    have hcontent : content ((s.bean f.bean).log ++ [CellEvent.failed]) = none := by
      simp [content_append, content, hempty]
    have hlegal := hbean.legal
    rw [hempty] at hlegal
    exact h.change hs (by simp [hpc, Pc.inside]) rfl hbelow
      ⟨hbean.created_le, hbean.mutex_lt, hbean.cleared, hbean.untouched, by simp [hinit],
        by simp [hbusy], hcontent ▸ hlegal.failed⟩
      ⟨hm, hmutex, hinit, hbusy, hcontent, by simp⟩ rfl id (fun hnone => ⟨hnone, rfl⟩) fun _ => rfl
  case h_16 v hpc =>
    obtain rfl := Option.some.inj hnext
    have hbelow := h.below_ne hs (.inr (.inl (by simp [hpc, Pc.working])))
    simp only [Frame.Ok, hpc] at htop
    obtain ⟨hm, hmutex, hinit, hbusy, hfilled⟩ := htop
    exact h.change hs (by simp [hpc, Pc.inside]) rfl hbelow
      ⟨hbean.created_le, hbean.mutex_lt, hbean.cleared, hbean.untouched, by simp [hinit],
        hbean.empty, hbean.legal⟩
      ⟨hm, hmutex, hinit, hbusy, hfilled⟩ rfl id (fun hnone => ⟨hnone, rfl⟩) fun _ => rfl
  case h_17 hpc =>
    obtain rfl := Option.some.inj hnext
    have hbelow := h.below_ne hs (.inr (.inl (by simp [hpc, Pc.working])))
    simp only [Frame.Ok, hpc] at htop
    obtain ⟨hm, hmutex, hinit, hbusy, hfilled⟩ := htop
    exact h.change hs (by simp [hpc, Pc.inside]) rfl hbelow
      ⟨hbean.created_le, hbean.mutex_lt, by simp [hmutex],
        fun hzero => by simp [hbean.created_eq hmutex] at hzero, fun _ => hfilled, by simp,
        hbean.legal⟩
      ⟨hm, hmutex, rfl, hbusy⟩ rfl (fun _ => rfl) (by simp [hmutex]) fun _ => rfl
  case h_18 hpc =>
    obtain rfl := Option.some.inj hnext
    have hbelow := h.below_ne hs (.inr (.inl (by simp [hpc, Pc.working])))
    simp only [Frame.Ok, hpc] at htop
    obtain ⟨hm, hmutex, hinit, -⟩ := htop
    exact h.change hs (by simp [hpc, Pc.inside]) rfl hbelow
      ⟨hbean.created_le, hbean.mutex_lt, hbean.cleared,
        fun hzero => by simp [hbean.created_eq hmutex] at hzero, hbean.filled, by simp [hinit],
        hbean.legal⟩
      ⟨hm, hmutex, hinit⟩ rfl id (fun hnone => ⟨hnone, rfl⟩) (by simp)
  case h_19 hpc =>
    obtain rfl := Option.some.inj hnext
    have hbelow := h.below_ne hs (.inr (.inl (by simp [hpc, Pc.working])))
    simp only [Frame.Ok, hpc] at htop
    obtain ⟨hm, hmutex, hinit, -, hempty, -⟩ := htop
    have hraises : Inv setup ((s.setBean f.bean { s.bean f.bean with
        initInProgress := false }).goto t f rest (.leaving true)) :=
      h.change hs (by simp [hpc, Pc.inside]) rfl hbelow
        ⟨hbean.created_le, hbean.mutex_lt, hbean.cleared,
          fun hzero => by simp [hbean.created_eq hmutex] at hzero, hbean.filled, fun _ _ => hempty,
          hbean.legal⟩
        ⟨hm, hbean.created_eq hmutex⟩ rfl id (fun hnone => ⟨hnone, rfl⟩) (by simp)
    exact hraises.addFault _
  case h_20 hpc =>
    have hbelow := h.below_ne hs (.inr (.inr hpc))
    simp only [Frame.Ok, hpc] at htop
    obtain ⟨hm, hmutex, hinit⟩ := htop
    have hcreated := hbean.created_eq hmutex
    split at hnext
    · obtain rfl := Option.some.inj hnext
      exact h.goto hs (by simp [hpc, Pc.inGlobal]) (by simp [hpc, Pc.inside])
        (by simp [hpc, Pc.working])
        ⟨hm, hcreated, hinit⟩
    · rename_i hkeeps
      obtain rfl := Option.some.inj hnext
      exact h.change hs (by simp [hpc, Pc.inside]) rfl hbelow
        ⟨hbean.created_le, by simp, fun _ _ => ⟨hinit, by simpa using hkeeps⟩,
          fun hzero => by simp [hcreated] at hzero, hbean.filled, hbean.empty, hbean.legal⟩
        ⟨hm, hcreated, hinit⟩ rfl id (by simp [hmutex]) 
          fun hb => absurd hb (by simp [h.idle_of_clearing hs hpc])
  case h_21 raised hpc =>
    have hm : f.m = some 0 := by
      simp only [Frame.Ok, hpc] at htop
      cases raised <;> exact htop.1
    rw [hm] at hnext
    obtain rfl := Option.some.inj hnext
    exact inv_leave h hs hpc
  case h_22 hpc =>
    obtain rfl := Option.some.inj hnext
    simp only [Frame.Ok, hpc] at htop
    exact (h.give htop).pop hs (by simp [hpc, Pc.inGlobal]) (by simp [hpc, Pc.inside])
  case h_23 => cases hnext

theorem inv_next (h : Inv setup s) (hnext : next setup s t choice = some s') : Inv setup s' := by
  unfold next at hnext
  split at hnext
  · obtain ⟨hmay, hnext⟩ := Option.ite_none_right_eq_some.mp hnext
    obtain rfl := Option.some.inj hnext
    exact inv_gets h hmay
  · split at hnext
    · cases hnext
    · rename_i hs
      exact inv_nextFrame h hs hnext

theorem inv_initial : Inv setup (initial : State τ β ν) where
  bean b := ⟨by simp [initial, Bean.new], by simp [initial, Bean.new], by simp [initial, Bean.new],
    by simp [initial, Bean.new], by simp [initial, Bean.new], by simp [initial, Bean.new, content],
    .nil⟩
  frame t f hf := by simp [initial] at hf
  stack t := ⟨by simp [initial], by simp [initial]⟩
  global t := by simp [initial]
  lock t b := by simp [initial, inSection]
  busy b hb := by simp [initial, Bean.new] at hb

theorem inv_run {xs : List (τ × Choice β ν)} (h : Run (step setup) Free initial xs s) :
    Inv setup s :=
  h.invariant (fun _ _ _ _ hs hi => inv_next hi hs) inv_initial

end ShimService.BeanImpl
