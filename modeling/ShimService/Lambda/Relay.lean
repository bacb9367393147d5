import Mathlib.Data.List.Forall2
import Mathlib.Data.List.Perm.Basic
import ShimService.Lambda.Invoker

/-! No invocation of a lambda function is lost on its way through the one that posts it, or made
twice. -/
namespace ShimService.Lambda

open PyValue BeanName Transition

variable {φ : Type} {s t : State φ} {f : LambdaFunction} {ps : Dict φ} {posted : Bool}
  {result : Performed φ → Handled φ} {invocation : Invocation φ} {xs : List (Act φ)} {a : Act φ}

/-- The call of a bean that an invocation is for. -/
def intent (ask : LambdaFunction × Dict φ) : Performed φ :=
  ⟨ask.1.name, ask.1.defaultBeanName, some (.dict ask.2)⟩

def direct (ask : LambdaFunction × Dict φ) : Invocation φ :=
  ⟨ask.1.name, [("bean", .str ask.1.defaultBeanName.name), ("parameters", .dict ask.2)]⟩

def relayed (ask : LambdaFunction × Dict φ) : Invocation φ :=
  ⟨LambdaFunction.scheduler.name, [("bean", .str Name.lambdaSchedulerProcessor.name),
    ("parameters", .dict ((direct ask).payload ++ [("targetFunction", .str ask.1.name)]))]⟩

/-- An invocation goes to the function itself or to the one that posts it. -/
def Carries (invocation : Invocation φ) (ask : LambdaFunction × Dict φ) : Prop :=
  ask.1 ≠ .scheduler ∧ (invocation = direct ask ∨ invocation = relayed ask)

theorem invokeFunction_carries (functionName : Option String) (hf : f ≠ .scheduler) :
    Carries (invokeFunction ⟨functionName, none⟩ f ps none) (f, ps) := by
  have hname : f.effectiveName ⟨functionName, none⟩ = f.name := by
    unfold LambdaFunction.effectiveName
    split <;> rfl
  refine ⟨hf, ?_⟩
  unfold invokeFunction
  rw [hname]
  by_cases hset : functionName.getD "" ≠ ""
  · right
    simp only [hset, ne_eq, not_false_eq_true, if_true]
    rfl
  · left
    simp only [hset, if_false]
    rfl

theorem run_relayed (ask : LambdaFunction × Dict φ) :
    run posted result (relayed ask) s =
      if posted then { s with inFlight := s.inFlight ++ [direct ask] }
      else { s with refused := s.refused ++ [direct ask] } := by
  cases posted <;> rfl

theorem orSuccess_ne_none (r : Handled φ) : r.orSuccess ≠ .none := by
  cases r <;> simp [Handled.orSuccess]

theorem run_direct {ask : LambdaFunction × Dict φ} (hf : ask.1 ≠ .scheduler) :
    run posted result (direct ask) s = { s with performed := s.performed ++ [intent ask] } := by
  obtain ⟨f, ps⟩ := ask
  have hbean : invocableHandle f.name posted result f.defaultBeanName (direct (f, ps)).payload s =
      ((result (intent (f, ps))).orSuccess, { s with
        performed := s.performed ++ [intent (f, ps)] }) := by
    cases f <;> first | rfl | exact absurd rfl hf
  cases f with
  | scheduler => exact absurd rfl hf
  | web =>
    -- the router comes first, and leaves the event to the next handler
    change (dispatch (direct (.web, ps)).payload
      [webHandle, invocableHandle _ posted result .sessionConnector] s).2 = _
    rw [dispatch_cons_of_none rfl]
    exact congrArg Prod.snd (dispatch_cons hbean (orSuccess_ne_none _))
  | liveAgentPoller => exact congrArg Prod.snd (dispatch_cons hbean (orSuccess_ne_none _))
  | sfdcPubSubPoller => exact congrArg Prod.snd (dispatch_cons hbean (orSuccess_ne_none _))
  | pushNotifier => exact congrArg Prod.snd (dispatch_cons hbean (orSuccess_ne_none _))

/-- What has been asked for has been done, is on its way, or has been refused on it. -/
structure Accounted (s : State φ) (pending : List (LambdaFunction × Dict φ)) : Prop where
  carried : List.Forall₂ Carries s.inFlight pending
  all : ∃ done lost, s.asked.Perm (done ++ pending ++ lost) ∧ s.performed = done.map intent ∧
    s.refused = lost.map direct

/-- Nobody invokes the function that posts invocations by itself. -/
def NotScheduler (_ : State φ) : Act φ → Prop
  | .ask _ function _ => function ≠ .scheduler
  | .deliver _ _ _ => True

theorem forall₂_eraseIdx {α β : Type} {R : α → β → Prop} {as : List α} {bs : List β}
    (h : List.Forall₂ R as bs) (i : ℕ) : List.Forall₂ R (as.eraseIdx i) (bs.eraseIdx i) := by
  induction h generalizing i with
  | nil => simp
  | cons hab _ ih =>
    cases i with
    | zero => simpa
    | succ i => simpa using ⟨hab, ih i⟩

theorem exists_of_forall₂ {α β : Type} {R : α → β → Prop} {as : List α} {bs : List β}
    (h : List.Forall₂ R as bs) {i : ℕ} {a : α} (ha : as[i]? = some a) :
    ∃ b, bs[i]? = some b ∧ R a b := by
  induction h generalizing i with
  | nil => simp at ha
  | cons hab _ ih =>
    cases i with
    | zero =>
      obtain rfl : _ = a := by simpa using ha
      exact ⟨_, rfl, hab⟩
    | succ i => exact ih (by simpa using ha)

theorem perm_of_getElem? {α : Type} {as : List α} {i : ℕ} {a : α} (ha : as[i]? = some a) :
    as.Perm (a :: as.eraseIdx i) := by
  obtain ⟨hlt, rfl⟩ := List.getElem?_eq_some_iff.mp ha
  exact (List.getElem_cons_eraseIdx_perm hlt).symm

theorem accounted_ask {pending : List (LambdaFunction × Dict φ)} (h : Accounted s pending)
    (functionName : Option String) (hf : f ≠ .scheduler) :
    Accounted { s with
      inFlight := s.inFlight ++ [invokeFunction ⟨functionName, none⟩ f ps none]
      asked := s.asked ++ [(f, ps)] } (pending ++ [(f, ps)]) := by
  obtain ⟨hcarried, done, lost, hperm, hdone, hlost⟩ := h
  refine ⟨List.rel_append hcarried (.cons (invokeFunction_carries functionName hf) .nil), done,
    lost, ?_, hdone, hlost⟩
  calc (s.asked ++ [(f, ps)]).Perm ((done ++ pending ++ lost) ++ [(f, ps)]) :=
        hperm.append_right _
    _ = (done ++ pending) ++ (lost ++ [(f, ps)]) := List.append_assoc _ _ _
    _ |>.Perm ((done ++ pending) ++ ([(f, ps)] ++ lost)) :=
        List.perm_append_comm.append_left _
    _ = done ++ (pending ++ [(f, ps)]) ++ lost := by simp

theorem accounted_deliver {pending : List (LambdaFunction × Dict φ)} (h : Accounted s pending)
    {index : ℕ} (hindex : s.inFlight[index]? = some invocation) :
    ∃ pending, Accounted (run posted result invocation
      { s with inFlight := s.inFlight.eraseIdx index }) pending := by
  obtain ⟨hcarried, done, lost, hperm, hdone, hlost⟩ := h
  obtain ⟨ask, hask, hf, rfl | rfl⟩ := exists_of_forall₂ hcarried hindex
  · rw [run_direct hf]
    refine ⟨pending.eraseIdx index, forall₂_eraseIdx hcarried index, done ++ [ask], lost, ?_, ?_,
      hlost⟩
    · have hpending := perm_of_getElem? hask
      calc s.asked.Perm (done ++ pending ++ lost) := hperm
        _ |>.Perm (done ++ (ask :: pending.eraseIdx index) ++ lost) :=
            (hpending.append_left done).append_right lost
        _ = done ++ [ask] ++ pending.eraseIdx index ++ lost := by simp
    · rw [List.map_append, hdone]
      rfl
  · rw [run_relayed]
    have hpending := perm_of_getElem? hask
    cases posted with
    | true =>
      refine ⟨pending.eraseIdx index ++ [ask],
        List.rel_append (forall₂_eraseIdx hcarried index) (.cons ⟨hf, .inl rfl⟩ .nil), done, lost,
        ?_, hdone, hlost⟩
      have hmoved : pending.Perm (pending.eraseIdx index ++ [ask]) :=
        hpending.trans (List.perm_append_singleton ask _).symm
      exact hperm.trans ((hmoved.append_left done).append_right lost)
    | false =>
      refine ⟨pending.eraseIdx index, forall₂_eraseIdx hcarried index, done, lost ++ [ask], ?_,
        hdone, ?_⟩
      · have hmoved : pending.Perm (pending.eraseIdx index ++ [ask]) :=
          hpending.trans (List.perm_append_singleton ask _).symm
        calc s.asked.Perm (done ++ pending ++ lost) := hperm
          _ |>.Perm (done ++ (pending.eraseIdx index ++ [ask]) ++ lost) :=
              (hmoved.append_left done).append_right lost
          _ = done ++ pending.eraseIdx index ++ ([ask] ++ lost) := by simp
          _ |>.Perm (done ++ pending.eraseIdx index ++ (lost ++ [ask])) :=
              List.perm_append_comm.append_left _
      · rw [List.map_append]
        exact congrArg (· ++ [direct ask]) hlost

theorem accounted_step {pending : List (LambdaFunction × Dict φ)} (h : Accounted s pending)
    (hok : NotScheduler s a) (hstep : step s a = some t) : ∃ pending, Accounted t pending := by
  cases a with
  | ask functionName function parameters =>
    obtain rfl := Option.some.inj hstep
    exact ⟨_, accounted_ask h functionName hok⟩
  | deliver index posted result =>
    obtain ⟨invocation, hindex, rfl⟩ := Option.map_eq_some_iff.mp hstep
    exact accounted_deliver h hindex

/-- In any order of calls and deliveries, each function that has been asked to be invoked has had
its bean called once with the parameters, or an invocation that leads there is on its way, or the
post of one was refused; and nothing else has been called. -/
theorem invocations_accounted (h : Run step NotScheduler initial xs s) :
    ∃ done pending lost, s.asked.Perm (done ++ pending ++ lost) ∧
      s.performed = done.map intent ∧ s.refused = lost.map direct ∧
      List.Forall₂ Carries s.inFlight pending := by
  have hall : ∃ pending, Accounted s pending :=
    h.invariant (I := fun s => ∃ pending, Accounted s pending)
      (fun _ _ _ hok hstep hi => hi.elim fun _ hi => accounted_step hi hok hstep)
      ⟨[], .nil, [], [], .refl _, rfl, rfl⟩
  obtain ⟨pending, hcarried, done, lost, hperm, hdone, hlost⟩ := hall
  exact ⟨done, pending, lost, hperm, hdone, hlost, hcarried⟩

/-- A notification is asked for in the function of a poller and a connection by hand; the two come
through, and a third one is refused. -/
def threeAsked : List (Act Unit) :=
  [.ask (some "ShimServiceLiveAgentPoller") .pushNotifier [("tenantId", .int 7)],
    .ask none .web [("sessionId", .str "s1")], .deliver 0 true fun _ => .none,
    .deliver 0 true fun _ => .raises, .ask (some "ShimServiceWeb") .liveAgentPoller [],
    .deliver 1 false fun _ => .none, .deliver 0 true fun _ => .success]

theorem notScheduler_of_check (s : State Unit) (a : Act Unit)
    (h : (match a with
      | .ask _ function _ => decide (function ≠ .scheduler)
      | .deliver _ _ _ => true) = true) : NotScheduler s a := by
  cases a with
  | ask functionName function parameters => simpa [NotScheduler] using h
  | deliver index posted result => trivial

theorem invocations_accounted_threeAsked : ∃ s : State Unit,
    Run step NotScheduler initial threeAsked s ∧ s.performed.length = 2 ∧
      s.refused.length = 1 ∧ ∃ done pending lost, s.asked.Perm (done ++ pending ++ lost) ∧
        s.performed = done.map intent ∧ s.refused = lost.map direct ∧
        List.Forall₂ Carries s.inFlight pending := by
  obtain ⟨s, hrun, hs⟩ := exists_run_of_exec notScheduler_of_check step initial threeAsked
    (fun s => decide (s.performed.length = 2 ∧ s.refused.length = 1)) (by decide)
  obtain ⟨hperformed, hrefused⟩ := of_decide_eq_true hs
  exact ⟨s, hrun, hperformed, hrefused, invocations_accounted hrun⟩

end ShimService.Lambda
