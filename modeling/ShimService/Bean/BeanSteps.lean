import Mathlib.Data.List.Count
import ShimService.Bean.BeanImpl

/-! What holds of the beans and of the calls of `get_instance` in any state that is reached. -/
namespace ShimService.BeanImpl

open Transition Once

variable {τ β ν : Type*}

/-- In the section of the global mutex. -/
def Pc.inGlobal : Pc ν → Bool
  | testingMutex | testingInitialized | creatingMutex | rereadingMutex | leavingGlobal _ => true
  | _ => false

/-- In the section of the bean's mutex. -/
def Pc.inside : Pc ν → Bool
  | testingCleared | testingAgain | asserting | marking | calling | assigning _ | finishing
  | unmarking _ | clearing | leaving _ => true
  | _ => false

/-- Where `__init_in_progress` has been set by the call. -/
def Pc.working : Pc ν → Bool
  | calling | assigning _ | finishing | unmarking _ => true
  | _ => false

variable [DecidableEq ν]

structure Bean.Ok (resettable : Bool) (x : Bean ν) : Prop where
  created_le : x.created ≤ 1
  mutex_lt : ∀ m, x.mutex = some m → m < x.created
  cleared : x.mutex = none → x.created = 1 → x.initialized = true ∧ resettable = false
  untouched : x.created = 0 → x.initialized = false ∧ x.initInProgress = false
  filled : x.initialized = true → content x.log = some x.value
  empty : x.initialized = false → x.initInProgress = false → content x.log = none
  legal : Legal x.log (content x.log)

/-- What a call knows of its bean, and of its variable `m`. -/
def Frame.Ok (resettable : Bool) (x : Bean ν) (f : Frame β ν) : Prop :=
  match f.pc with
  | .testing | .readingMutex | .acquiringGlobal | .testingMutex => True
  | .testingInitialized => x.mutex = none
  | .creatingMutex => x.mutex = none ∧ x.initialized = false
  | .rereadingMutex => x.created = 1
  | .leavingGlobal true => x.initialized = true
  | .leavingGlobal false | .entering =>
    x.created = 1 ∧ (f.m = none → x.initialized = true ∧ resettable = false) ∧
      ∀ m, f.m = some m → m = 0
  | .testingCleared => x.created = 1 ∧ f.m = some 0
  | .testingAgain => f.m = some 0 ∧ x.mutex = some 0
  | .asserting => f.m = some 0 ∧ x.mutex = some 0 ∧ x.initialized = false
  | .marking =>
    f.m = some 0 ∧ x.mutex = some 0 ∧ x.initialized = false ∧ x.initInProgress = false
  | .calling =>
    f.m = some 0 ∧ x.mutex = some 0 ∧ x.initialized = false ∧ x.initInProgress = true ∧
      content x.log = none
  | .unmarking true =>
    f.m = some 0 ∧ x.mutex = some 0 ∧ x.initialized = false ∧ x.initInProgress = true ∧
      content x.log = none ∧ CellEvent.failed ∈ x.log
  | .assigning v =>
    f.m = some 0 ∧ x.mutex = some 0 ∧ x.initialized = false ∧ x.initInProgress = true ∧
      content x.log = some v
  | .finishing =>
    f.m = some 0 ∧ x.mutex = some 0 ∧ x.initialized = false ∧ x.initInProgress = true ∧
      content x.log = some x.value
  | .unmarking false =>
    f.m = some 0 ∧ x.mutex = some 0 ∧ x.initialized = true ∧ x.initInProgress = true
  | .clearing => f.m = some 0 ∧ x.mutex = some 0 ∧ x.initialized = true
  | .leaving false => f.m = some 0 ∧ x.created = 1 ∧ x.initialized = true
  | .leaving true => f.m = some 0 ∧ x.created = 1
  | .reading => x.initialized = true

/-- The calls of a thread that are in the section of a bean's mutex. -/
def inSection [DecidableEq β] (b : β) (frames : List (Frame β ν)) : ℕ :=
  frames.countP fun f => f.bean = b ∧ f.pc.inside = true

/-- A call beneath another one is in its initializer, and no bean is initialized twice in one. -/
structure StackOk (frames : List (Frame β ν)) : Prop where
  below : ∀ f ∈ frames.tail, f.pc = .calling
  once : frames.Pairwise fun f g => f.pc.working = true → f.bean ≠ g.bean

variable [DecidableEq β] {x x' : Bean ν} {f g : Frame β ν} {rest frames : List (Frame β ν)}
  {resettable : Bool} {b : β} {p : Pc ν}

omit [DecidableEq ν] in
theorem inSection_cons : inSection b (f :: rest) =
    inSection b rest + if f.bean = b ∧ f.pc.inside = true then 1 else 0 := by
  simp [inSection, List.countP_cons]

omit [DecidableEq ν] in
theorem inSection_pos (hf : f ∈ frames) (hin : f.pc.inside = true) : 0 < inSection f.bean frames :=
  List.countP_pos_iff.mpr ⟨f, hf, by simp [hin]⟩

omit [DecidableEq β] in
omit [DecidableEq ν] in
theorem StackOk.tail (h : StackOk (f :: rest)) : StackOk rest where
  below g hg := h.below g (List.mem_of_mem_tail hg)
  once := h.once.tail

omit [DecidableEq β] in
omit [DecidableEq ν] in
/-- A call on top that moves on and does not begin to initialize. -/
theorem StackOk.cons (h : StackOk (f :: rest)) (hbean : g.bean = f.bean)
    (hworking : g.pc.working = true → f.pc.working = true) : StackOk (g :: rest) where
  below := h.below
  once := by
    obtain ⟨hhead, htail⟩ := List.pairwise_cons.mp h.once
    refine List.pairwise_cons.mpr ⟨fun f' hf' hg => ?_, htail⟩
    rw [hbean]
    exact hhead f' hf' (hworking hg)

omit [DecidableEq β] in
omit [DecidableEq ν] in
theorem not_inGlobal_below (h : StackOk (f :: rest)) (hg : g ∈ rest) : g.pc.inGlobal = false := by
  rw [h.below g hg]
  rfl

omit [DecidableEq β] [DecidableEq ν] in
theorem exists_inGlobal_cons (h : StackOk (f :: rest)) :
    (∃ g ∈ f :: rest, g.pc.inGlobal = true) ↔ f.pc.inGlobal = true := by
  constructor
  · rintro ⟨g, hg, hglobal⟩
    rcases List.mem_cons.mp hg with rfl | hg
    · exact hglobal
    · simp [not_inGlobal_below h hg] at hglobal
  · exact fun hf => ⟨f, List.mem_cons_self, hf⟩

omit [DecidableEq β] in
omit [DecidableEq ν] in
/-- Outside the section of the bean's mutex little is known of the bean. -/
theorem Frame.Ok.of_outside (h : f.Ok resettable x) (hout : f.pc.inside = false)
    (hcreated : x'.created = x.created)
    (hinitialized : x.initialized = true → x'.initialized = true)
    (hmutex : x.mutex = none → x'.mutex = none ∧ x'.initialized = x.initialized) :
    f.Ok resettable x' := by
  obtain ⟨b, m, pc⟩ := f
  cases pc <;> simp_all [Frame.Ok, Pc.inside]
  case leavingGlobal returns => cases returns <;> simp_all

omit [DecidableEq β] in
omit [DecidableEq ν] in
/-- Nothing is known of the log but what has been loaded. -/
theorem Frame.Ok.of_log (h : f.Ok resettable x) {log : List (CellEvent (Option ν))}
    (hlog : content (x.log ++ log) = content x.log) :
    f.Ok resettable { x with log := x.log ++ log } := by
  obtain ⟨b, m, pc⟩ := f
  cases pc <;> simp_all [Frame.Ok]
  case leavingGlobal returns => cases returns <;> simp_all
  case unmarking raised => cases raised <;> simp_all
  case leaving raised => cases raised <;> simp_all

structure Inv [DecidableEq τ] (setup : Setup β) (s : State τ β ν) : Prop where
  bean : ∀ b, (s.bean b).Ok setup.resettable
  frame : ∀ t, ∀ f ∈ s.stack t, f.Ok setup.resettable (s.bean f.bean)
  stack : ∀ t, StackOk (s.stack t)
  global : ∀ t, s.globalMutex = some t ↔ ∃ f ∈ s.stack t, f.pc.inGlobal = true
  lock : ∀ t b, RLock.level (s.locks b 0) t = inSection b (s.stack t)
  busy : ∀ b, (s.bean b).initInProgress = true →
    ∃ t, ∃ f ∈ s.stack t, f.bean = b ∧ f.pc.working = true

variable [DecidableEq τ] {setup : Setup β} {s s' : State τ β ν} {t u : τ}

section

omit [DecidableEq ν] [DecidableEq β]

@[simp] theorem goto_bean : (s.goto t f rest p).bean = s.bean := rfl
@[simp] theorem goto_globalMutex : (s.goto t f rest p).globalMutex = s.globalMutex := rfl
@[simp] theorem goto_locks : (s.goto t f rest p).locks = s.locks := rfl
@[simp] theorem setStack_bean : (s.setStack t frames).bean = s.bean := rfl
@[simp] theorem setStack_globalMutex : (s.setStack t frames).globalMutex = s.globalMutex := rfl
@[simp] theorem setStack_locks : (s.setStack t frames).locks = s.locks := rfl

end

omit [DecidableEq ν] [DecidableEq τ] in
@[simp] theorem setBean_bean_self : (s.setBean b x).bean b = x := by simp [State.setBean]

omit [DecidableEq ν] [DecidableEq τ] in
theorem setBean_bean_of_ne {c : β} (hc : c ≠ b) : (s.setBean b x).bean c = s.bean c := by
  simp [State.setBean, hc]

/-- A step of one thread. -/
theorem Inv.of_stack (h : Inv setup s) (hstack : s'.stack = Function.update s.stack t frames)
    (hbean : ∀ b, (s'.bean b).Ok setup.resettable)
    (hothers : ∀ u ≠ t, ∀ g ∈ s.stack u, g.Ok setup.resettable (s'.bean g.bean))
    (hframes : ∀ g ∈ frames, g.Ok setup.resettable (s'.bean g.bean)) (hok : StackOk frames)
    (hglobal : s'.globalMutex = some t ↔ ∃ f ∈ frames, f.pc.inGlobal = true)
    (hglobals : ∀ u ≠ t, s'.globalMutex = some u ↔ s.globalMutex = some u)
    (hlock : ∀ b, RLock.level (s'.locks b 0) t = inSection b frames)
    (hlocks : ∀ u ≠ t, ∀ b, RLock.level (s'.locks b 0) u = RLock.level (s.locks b 0) u)
    (hbusy : ∀ b, (s'.bean b).initInProgress = true → (∃ f ∈ frames, f.bean = b ∧
      f.pc.working = true) ∨ ∃ u, u ≠ t ∧ ∃ f ∈ s.stack u, f.bean = b ∧ f.pc.working = true) :
    Inv setup s' where
  bean := hbean
  frame u g hg := by
    by_cases hu : u = t
    · subst hu
      rw [hstack, Function.update_self] at hg
      exact hframes g hg
    · rw [hstack, Function.update_of_ne hu] at hg
      exact hothers u hu g hg
  stack u := by
    by_cases hu : u = t
    · subst hu
      rwa [hstack, Function.update_self]
    · rw [hstack, Function.update_of_ne hu]
      exact h.stack u
  global u := by
    by_cases hu : u = t
    · subst hu
      rwa [hstack, Function.update_self]
    · rw [hstack, Function.update_of_ne hu, hglobals u hu]
      exact h.global u
  lock u b := by
    by_cases hu : u = t
    · subst hu
      rw [hstack, Function.update_self]
      exact hlock b
    · rw [hstack, Function.update_of_ne hu, hlocks u hu]
      exact h.lock u b
  busy b hb := by
    rcases hbusy b hb with hmine | ⟨u, hu, hother⟩
    · exact ⟨t, by rwa [hstack, Function.update_self]⟩
    · exact ⟨u, by rwa [hstack, Function.update_of_ne hu]⟩

/-- A working call of a bean is still there when another call has gone from the top of a stack. -/
theorem Inv.busy_of_rest (h : Inv setup s) (hs : s.stack t = f :: rest)
    (hf : f.bean = b → f.pc.working = false) (hb : (s.bean b).initInProgress = true) :
    (∃ g ∈ rest, g.bean = b ∧ g.pc.working = true) ∨
      ∃ u, u ≠ t ∧ ∃ g ∈ s.stack u, g.bean = b ∧ g.pc.working = true := by
  obtain ⟨u, g, hg, hgb, hworking⟩ := h.busy b hb
  by_cases hu : u = t
  · subst hu
    rw [hs] at hg
    rcases List.mem_cons.mp hg with rfl | hg
    · simp [hf hgb] at hworking
    · exact .inl ⟨g, hg, hgb, hworking⟩
  · exact .inr ⟨u, hu, g, hg, hgb, hworking⟩

/-- Two threads with a call in the section of one bean's mutex are one. -/
theorem Inv.eq_of_inside (h : Inv setup s) (hf : f ∈ s.stack t) (hg : g ∈ s.stack u)
    (hfin : f.pc.inside = true) (hgin : g.pc.inside = true) (hbean : g.bean = f.bean) : t = u := by
  have ht := inSection_pos hf hfin
  have hu := inSection_pos hg hgin
  rw [← h.lock] at ht hu
  rw [hbean] at hu
  exact RLock.eq_of_level_pos ht hu

theorem Inv.top (h : Inv setup s) (hs : s.stack t = f :: rest) :
    f.Ok setup.resettable (s.bean f.bean) := h.frame t f (by simp [hs])

theorem Inv.stack_cons (h : Inv setup s) (hs : s.stack t = f :: rest) : StackOk (f :: rest) :=
  hs ▸ h.stack t

theorem Inv.global_iff (h : Inv setup s) (hs : s.stack t = f :: rest) :
    s.globalMutex = some t ↔ f.pc.inGlobal = true := by
  rw [h.global t, hs, exists_inGlobal_cons (h.stack_cons hs)]

end ShimService.BeanImpl
