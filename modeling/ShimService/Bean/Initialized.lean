import Mathlib.Logic.Relation
import ShimService.Bean.StepKeeps

/-! A bean is initialized once, and what makes a `get_instance` raise. -/
namespace ShimService.BeanImpl

open Transition Once

variable {τ β ν : Type*} [DecidableEq τ] [DecidableEq β] [DecidableEq ν] {setup : Setup β}
  {s s' : State τ β ν} {t u : τ} {f g : Frame β ν} {rest frames : List (Frame β ν)} {b : β}
  {p : Pc ν} {choice : Choice β ν} {xs : List (τ × Choice β ν)} {fault : Fault}

omit [DecidableEq β] [DecidableEq ν] in
theorem inside_of_working (h : p.working = true) : p.inside = true := by
  cases p <;> simp_all [Pc.working, Pc.inside]

theorem Inv.eq_of_working (h : Inv setup s) (hf : f ∈ s.stack t) (hg : g ∈ s.stack u)
    (hfw : f.pc.working = true) (hgw : g.pc.working = true) (hbean : g.bean = f.bean) : t = u :=
  h.eq_of_inside hf hg (inside_of_working hfw) (inside_of_working hgw) hbean

omit [DecidableEq ν] in
theorem StackOk.countP_working (h : StackOk frames) :
    frames.countP (fun f => f.bean = b ∧ f.pc.working = true) ≤ 1 := by
  have honce := h.once
  clear h
  induction frames with
  | nil => simp
  | cons f rest ih =>
    obtain ⟨hhead, htail⟩ := List.pairwise_cons.mp honce
    rw [List.countP_cons]
    split
    · rename_i hf
      have hf : f.bean = b ∧ f.pc.working = true := by simpa using hf
      have hnone : rest.countP (fun f => f.bean = b ∧ f.pc.working = true) = 0 := by
        refine List.countP_eq_zero.mpr fun g hg hgb => ?_
        have hgb : g.bean = b ∧ g.pc.working = true := by simpa using hgb
        exact hhead g hg hf.2 (hf.1.trans hgb.1.symm)
      omega
    · exact ih htail

/-- Its initializer does not run twice at once, nor again once it has returned, and every call that
returns an instance gives what it returned. -/
theorem initialized_once (h : Run (step setup) Free (initial : State τ β ν) xs s) (b : β) :
    Legal (s.bean b).log (content (s.bean b).log) ∧
      (∀ t, ∀ f ∈ s.stack t, f.bean = b → f.pc = .calling → content (s.bean b).log = none) ∧
      (∀ t, (s.stack t).countP (fun f => f.bean = b ∧ f.pc.working = true) ≤ 1) ∧
      ∀ t u, ∀ f ∈ s.stack t, ∀ g ∈ s.stack u, f.bean = b → g.bean = b →
        f.pc.working = true → g.pc.working = true → t = u := by
  have hi := inv_run h
  refine ⟨(hi.bean b).legal, fun t f hf hb hpc => ?_, fun t => (hi.stack t).countP_working,
    fun t u f hf g hg hfb hgb hfw hgw => hi.eq_of_working hf hg hfw hgw (hgb.trans hfb.symm)⟩
  have hok := hi.frame t f hf
  simp only [Frame.Ok, hpc, hb] at hok
  exact hok.2.2.2.2

/-- The initializer of `true` gets an instance of `false`. -/
def nestedSetup : Setup Bool := ⟨false, fun _ => false, fun bean => if bean then [false] else []⟩

/-- The inner initializer raises for the first thread, and with it the outer one; then both return
for the second, which has been waiting. -/
def secondTry : List (Bool × Choice Bool ℕ) :=
  (false, .gets true) :: List.replicate 13 (false, .goes) ++
    [(true, .gets true), (true, .goes), (true, .goes)] ++
    (false, .gets false) :: List.replicate 13 (false, .goes) ++
    [(false, .raises), (false, .goes), (false, .goes)] ++
    [(false, .raises), (false, .goes), (false, .goes)] ++
    List.replicate 5 (true, .goes) ++ (true, .gets false) :: List.replicate 7 (true, .goes) ++
    (true, .returns (some 7)) :: List.replicate 6 (true, .goes) ++
    (true, .returns (some 9)) :: List.replicate 6 (true, .goes)

theorem initialized_once_secondTry : ∃ s : State Bool Bool ℕ,
    Run (step nestedSetup) Free initial secondTry s ∧
      (s.bean false).log = [.failed, .loaded (some 7), .returned (some 7)] ∧
      (s.bean true).log = [.failed, .loaded (some 9), .returned (some 9)] ∧
      ∀ bean, Legal (s.bean bean).log (content (s.bean bean).log) := by
  obtain ⟨s, hrun, hs⟩ := exists_run_of_exec (free_of_check (σ := State Bool Bool ℕ))
    (step nestedSetup) initial secondTry
    (fun s => decide ((s.bean false).log = [.failed, .loaded (some 7), .returned (some 7)] ∧
      (s.bean true).log = [.failed, .loaded (some 9), .returned (some 9)])) (by decide +kernel)
  obtain ⟨hinner, houter⟩ := of_decide_eq_true hs
  exact ⟨s, hrun, hinner, houter, fun bean => (initialized_once hrun bean).1⟩

omit [DecidableEq ν] in
/-- What a step of the call on top does to the stack. -/
theorem nextFrame_stack (hnext : nextFrame setup s t f rest choice = some s') :
    ∃ frames, s'.stack = Function.update s.stack t frames ∧
      (frames = rest ∨ ∃ m p, frames = ⟨f.bean, m, p⟩ :: rest) := by
  unfold nextFrame at hnext
  split at hnext
  case h_3 =>
    obtain ⟨-, hnext⟩ := Option.ite_none_right_eq_some.mp hnext
    obtain rfl := Option.some.inj hnext
    exact ⟨_, rfl, .inr ⟨_, _, rfl⟩⟩
  case h_9 =>
    split at hnext
    · obtain rfl := Option.some.inj hnext
      exact ⟨_, rfl, .inl rfl⟩
    · obtain ⟨l, -, rfl⟩ := Option.map_eq_some_iff.mp hnext
      exact ⟨_, rfl, .inr ⟨_, _, rfl⟩⟩
  case h_12 =>
    dsimp only at hnext
    split at hnext <;> obtain rfl := Option.some.inj hnext <;> exact ⟨_, rfl, .inr ⟨_, _, rfl⟩⟩
  case h_14 =>
    obtain ⟨-, hnext⟩ := Option.ite_none_left_eq_some.mp hnext
    obtain rfl := Option.some.inj hnext
    exact ⟨_, rfl, .inr ⟨_, _, rfl⟩⟩
  case h_20 =>
    split at hnext <;> obtain rfl := Option.some.inj hnext <;> exact ⟨_, rfl, .inr ⟨_, _, rfl⟩⟩
  case h_21 raised _ =>
    obtain ⟨m, -, rfl⟩ := Option.map_eq_some_iff.mp hnext
    cases raised with
    | true => exact ⟨_, rfl, .inl rfl⟩
    | false => exact ⟨_, rfl, .inr ⟨_, _, rfl⟩⟩
  case h_22 =>
    obtain rfl := Option.some.inj hnext
    exact ⟨_, rfl, .inl rfl⟩
  case h_23 => cases hnext
  all_goals
    obtain rfl := Option.some.inj hnext
    exact ⟨_, rfl, .inr ⟨_, _, rfl⟩⟩

/-- The initializer of one bean gets, itself or through others, an instance of another one. -/
def Reaches (setup : Setup β) : β → β → Prop := Relation.TransGen fun a c => c ∈ setup.needs a

/-- The calls of a thread are for beans that the ones beneath need. -/
def Needed (setup : Setup β) (s : State τ β ν) : Prop :=
  ∀ t, ((s.stack t).map Frame.bean).Pairwise fun callee caller => Reaches setup caller callee

omit [DecidableEq ν] in
theorem needed_next (h : Needed setup s) (hnext : next setup s t choice = some s') :
    Needed setup s' := by
  intro u
  unfold next at hnext
  split at hnext
  · rename_i b
    obtain ⟨hmay, hnext⟩ := Option.ite_none_right_eq_some.mp hnext
    obtain rfl := Option.some.inj hnext
    by_cases hu : u = t
    · subst hu
      have hframes := h u
      simp only [State.setStack, Function.update_self, List.map_cons, List.pairwise_cons]
      refine ⟨fun a ha => ?_, hframes⟩
      cases hs : s.stack u with
      | nil => simp [hs] at ha
      | cons f rest =>
        rw [hs] at hmay ha hframes
        have hneeds : b ∈ setup.needs f.bean := by
          cases hpc : f.pc <;> simp [mayGet, hpc] at hmay
          exact hmay.2
        rcases List.mem_cons.mp ha with rfl | ha
        · exact .single hneeds
        · exact .tail ((List.pairwise_cons.mp hframes).1 a ha) hneeds
    · simpa [State.setStack, hu] using h u
  · split at hnext
    · cases hnext
    · rename_i f rest hs
      obtain ⟨frames, hstack, hframes⟩ := nextFrame_stack hnext
      rw [hstack]
      by_cases hu : u = t
      · subst hu
        have hbeans := h u
        rw [hs] at hbeans
        rw [Function.update_self]
        rcases hframes with rfl | ⟨m, p, rfl⟩
        · exact (List.pairwise_cons.mp hbeans).2
        · exact hbeans
      · rw [Function.update_of_ne hu]
        exact h u

omit [DecidableEq ν] in
theorem needed_run (h : Run (step setup) Free (initial : State τ β ν) xs s) : Needed setup s :=
  h.invariant (fun _ _ _ _ hs hi => needed_next hi hs) fun t => by simp [initial]

end ShimService.BeanImpl
