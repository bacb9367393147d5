import ShimService.Bean.BeanName
import ShimService.Bean.Faults
import ShimService.Bean.NoDeadlock

/-! The beans of a lambda function at work. -/
namespace ShimService.BeanName

open Transition BeanImpl Name

variable {τ ν : Type*} [DecidableEq τ] [DecidableEq ν] {env : Environment} {a b c h : Name}
  {s s' : State τ Name ν} {t : τ} {xs : List (τ × Choice Name ν)} {choice : Choice Name ν}

theorem not_reaches_self : ¬ Reaches (setup env) b b := by
  intro hb
  have hrank : ∀ c, Reaches (setup env) b c → rank c < rank b := by
    intro c hc
    have hedge : ∀ {a c}, c ∈ (setup env).needs a → rank c < rank a := by
      intro a c h
      rcases List.mem_append.mp h with hc | hc
      · exact rank_lt_of_beanInstances a c hc
      · obtain ⟨type, ht, hc⟩ := List.mem_flatMap.mp hc
        exact rank_lt_of_beanTypes ht (mem_beansWithMatchingType hc).1
    induction hc with
    | single h => exact hedge h
    | tail _ h ih => exact Nat.lt_trans (hedge h) ih
  exact Nat.lt_irrefl _ (hrank b hb)

/-- In every lambda function, whatever its threads get, one of them can move as long as any is in a
`get_instance`, and no bean is found to be in progress. -/
theorem instances_keep_moving (h : Run (step (setup env)) Free (initial : State τ Name ν) xs s) :
    (∀ t, s.stack t ≠ [] → ∃ u, Moves (setup env) s u) ∧
      ∀ t b, (t, b, Fault.inProgress) ∉ s.faults :=
  ⟨fun _ hcall => exists_moves (needs_wellFounded env) h hcall,
    fun t b hfault => not_reaches_self (faults_explained h t b _ hfault)⟩

/-- Two threads get the same bean in the lambda function of the web profile, one from the start and
one when the other has created its mutex. -/
def twoThreads : List (Bool × Choice Name ℕ) :=
  [(false, .gets secretsRepo), (false, .goes), (false, .goes), (false, .goes), (false, .goes),
    (false, .goes), (false, .goes), (true, .gets secretsRepo), (true, .goes), (true, .goes),
    (false, .goes), (false, .goes), (false, .goes), (false, .goes), (false, .goes),
    (false, .goes), (false, .goes), (false, .gets secretsManagerClient), (false, .goes)]

theorem instances_keep_moving_twoThreads : ∃ s : State Bool Name ℕ,
    Run (step (setup ⟨webProfile, false⟩)) Free initial twoThreads s ∧
      (s.stack false).length = 2 ∧ (s.stack true).length = 1 ∧
      ∃ u, Moves (setup ⟨webProfile, false⟩) s u := by
  obtain ⟨s, hrun, hs⟩ := exists_run_of_exec (free_of_check (σ := State Bool Name ℕ))
    (step (setup ⟨webProfile, false⟩)) initial twoThreads
    (fun s => decide ((s.stack false).length = 2 ∧ (s.stack true).length = 1)) (by decide)
  obtain ⟨hfalse, htrue⟩ := of_decide_eq_true hs
  have hcall : s.stack false ≠ [] := fun hnil => by simp [hnil] at hfalse
  exact ⟨s, hrun, hfalse, htrue, (instances_keep_moving hrun).1 false hcall⟩

/-- What the initializers of a request handler and of the beans that it needs get, apart from what
they find by its type. -/
def closure : Name → List Name
  | liveAgentProcessor =>
    [pendingEventsRepo, resourceLockRepo, sessionContextsRepo, lambdaInvoker, config,
      liveAgentMessageDispatcher, dynamodb, dynamodbClient, lambdaClient, pushNotificationRepo,
      sequenceRepo, eventsRepo]
  | pubsubPollerProcessor =>
    [resourceLockRepo, pendingTenantEventsRepo, pushNotificationRepo, sessionsRepo,
      userSessionsRepo, workIdMapRepo, tenantContextRepo, lambdaInvoker, config,
      secureChannelCredentials, pubsubService, dynamodb, dynamodbClient, sequenceRepo,
      sessionContextsRepo, eventsRepo, lambdaClient, sfdcSessionsRepo]
  | pushNotifierProcessor =>
    [sessionContextsRepo, pushNotificationRepo, pushNotificationManager, dynamodb, dynamodbClient,
      config, sequenceRepo, eventsRepo, lambdaInvoker, lambdaClient, sqsClient]
  | tableListenerProcessor =>
    [sessionContextsRepo, pendingTenantEventsRepo, lambdaInvoker, dynamodb, dynamodbClient, config,
      lambdaClient]
  | _ => []

/-- A bean of the handler's, or an active one that a bean of the handler's finds by its type. -/
def Within (env : Environment) (h b : Name) : Prop :=
  b = h ∨ b ∈ closure h ∨
    ∃ type ∈ (closure h).flatMap beanTypes, beanType b = some type ∧ disabled env b = false

def handlers : List Name :=
  [webRouter, sessionConnector, liveAgentProcessor, pubsubPollerProcessor, pushNotifierProcessor,
    lambdaSchedulerProcessor, tableListenerProcessor]

theorem mem_handlers : ∀ h, beanType h = some .requestHandler → h ∈ handlers := by
  intro h
  cases h <;> decide

theorem mem_found : ∀ b type, beanType b = some type → type ≠ .requestHandler →
    b ∈ [pushNotifier, sqsPushNotifier, workIdMapRepo] := by
  intro b type
  cases type <;> cases b <;> decide

theorem beanInstances_handler (hh : beanType h = some .requestHandler) :
    beanTypes h = [] ∧ ∀ c ∈ beanInstances h, c ∈ closure h := by
  have hall : ∀ h ∈ handlers, beanTypes h = [] ∧ ∀ c ∈ beanInstances h, c ∈ closure h := by decide
  exact hall h (mem_handlers h hh)

theorem beanInstances_closure (hb : b ∈ closure h) (hc : c ∈ beanInstances b) :
    c ∈ closure h := by
  have hall : ∀ b ∈ closure h, ∀ c ∈ beanInstances b, c ∈ closure h := by cases h <;> decide
  exact hall b hb c hc

theorem beanInstances_found {type : BeanType} (ht : type ∈ (closure h).flatMap beanTypes)
    (hb : beanType b = some type) : beanTypes b = [] ∧ ∀ c ∈ beanInstances b, c ∈ closure h := by
  have hall : ∀ type ∈ (closure h).flatMap beanTypes,
      ∀ b ∈ [pushNotifier, sqsPushNotifier, workIdMapRepo], beanType b = some type →
        beanTypes b = [] ∧ ∀ c ∈ beanInstances b, c ∈ closure h := by cases h <;> decide
  have htypes : ∀ type ∈ (closure h).flatMap beanTypes, type ≠ .requestHandler := by
    cases h <;> decide
  exact hall type ht b (mem_found b type hb (htypes type ht)) hb

/-- What a bean of a handler's needs is again one. -/
theorem Within.needs (hh : beanType h = some .requestHandler) (hb : Within env h b)
    (hc : c ∈ BeanName.needs env b) : Within env h c := by
  rcases List.mem_append.mp hc with hc | hc
  · rcases hb with rfl | hb | ⟨type, ht, hb, -⟩
    · exact .inr (.inl ((beanInstances_handler hh).2 c hc))
    · exact .inr (.inl (beanInstances_closure hb hc))
    · exact .inr (.inl ((beanInstances_found ht hb).2 c hc))
  · obtain ⟨type, ht, hc⟩ := List.mem_flatMap.mp hc
    rcases hb with rfl | hb | ⟨type', ht', hb, -⟩
    · simp [(beanInstances_handler hh).1] at ht
    · exact .inr (.inr ⟨type, List.mem_flatMap.mpr ⟨b, hb, ht⟩, mem_beansWithMatchingType hc⟩)
    · simp [(beanInstances_found ht' hb).1] at ht

theorem closure_profiles (hh : beanType h = some .requestHandler) (hc : c ∈ closure h) :
    profiles h &&& profiles c = profiles h ∧ c ≠ sqsPushNotifier := by
  have hall : ∀ h ∈ handlers, ∀ c ∈ closure h,
      profiles h &&& profiles c = profiles h ∧ c ≠ sqsPushNotifier := by decide
  exact hall h (mem_handlers h hh) c hc

/-- The beans of an active handler's are active. -/
theorem Within.active (hh : beanType h = some .requestHandler) (hactive : disabled env h = false)
    (hb : Within env h b) : disabled env b = false := by
  rcases hb with rfl | hb | ⟨-, -, -, hb⟩
  · exact hactive
  · obtain ⟨hprofiles, hvar⟩ := closure_profiles hh hb
    have hbits : env.activeProfiles &&& profiles h ≠ 0 := by
      intro hzero
      simp [disabled, hzero] at hactive
    have hbits' : env.activeProfiles &&& profiles b ≠ 0 := by
      intro hzero
      apply hbits
      rw [← hprofiles, Nat.and_comm (profiles h), ← Nat.and_assoc, hzero, Nat.zero_and]
    simp [disabled, hbits', hvar]
  · exact hb

/-- From outside an initializer, only active request handlers are asked for. -/
def HandlersOnly (env : Environment) (s : State τ Name ν) (act : τ × Choice Name ν) : Prop :=
  ∀ b, act.2 = .gets b → s.stack act.1 = [] →
    beanType b = some .requestHandler ∧ disabled env b = false

def AllWithin (env : Environment) (s : State τ Name ν) : Prop :=
  ∀ t, ∀ f ∈ s.stack t, ∃ h, beanType h = some .requestHandler ∧ disabled env h = false ∧
    Within env h f.bean

omit [DecidableEq ν] in
theorem allWithin_next (hi : AllWithin env s) (hok : HandlersOnly env s (t, choice))
    (hnext : next (setup env) s t choice = some s') : AllWithin env s' := by
  unfold next at hnext
  split at hnext
  · rename_i b
    obtain ⟨hmay, hnext⟩ := Option.ite_none_right_eq_some.mp hnext
    obtain rfl := Option.some.inj hnext
    intro u f hf
    by_cases hu : u = t
    · subst hu
      simp only [State.setStack, Function.update_self] at hf
      rcases List.mem_cons.mp hf with rfl | hf
      · cases hs : s.stack u with
        | nil =>
          obtain ⟨hb, hactive⟩ := hok b rfl hs
          exact ⟨b, hb, hactive, .inl rfl⟩
        | cons g rest =>
          rw [hs] at hmay
          have hneeds : b ∈ needs env g.bean := by
            cases hpc : g.pc <;> simp [mayGet, hpc] at hmay
            exact hmay.2
          obtain ⟨h, hh, hactive, hg⟩ := hi u g (by simp [hs])
          exact ⟨h, hh, hactive, hg.needs hh hneeds⟩
      · exact hi u f hf
    · exact hi u f (by simpa [State.setStack, hu] using hf)
  · split at hnext
    · cases hnext
    · rename_i g rest hs
      obtain ⟨frames, hstack, hframes⟩ := nextFrame_stack hnext
      intro u f hf
      rw [hstack] at hf
      by_cases hu : u = t
      · subst hu
        rw [Function.update_self] at hf
        rcases hframes with rfl | ⟨m, p, rfl⟩
        · exact hi u f (by simp [hs, hf])
        · rcases List.mem_cons.mp hf with rfl | hf
          · exact hi u g (by simp [hs])
          · exact hi u f (by simp [hs, hf])
      · rw [Function.update_of_ne hu] at hf
        exact hi u f hf

omit [DecidableEq ν] in
/-- Whatever the profiles of a lambda function, getting its request handlers never comes to a bean
that is not active. -/
theorem handlers_reach_active
    (h : Run (step (setup env)) (HandlersOnly env) (initial : State τ Name ν) xs s) :
    ∀ t, ∀ f ∈ s.stack t, (setup env).disabled f.bean = false := by
  have hall : AllWithin env s :=
    h.invariant (fun _ _ _ hok hs hi => allWithin_next hi hok hs) fun t f hf => by
      simp [initial] at hf
  intro t f hf
  obtain ⟨h, hh, hactive, hwithin⟩ := hall t f hf
  exact hwithin.active hh hactive

/-- The handler of the table listener, and a bean that it needs, are got in its lambda function. -/
def handlerGets : List (Bool × Choice Name ℕ) :=
  [(true, .gets tableListenerProcessor), (true, .goes), (true, .goes), (true, .goes),
    (true, .goes), (true, .goes), (true, .goes), (true, .goes), (true, .goes), (true, .goes),
    (true, .goes), (true, .goes), (true, .goes), (true, .goes), (true, .gets lambdaInvoker)]

theorem handlersOnly_of_check (s : State Bool Name ℕ) (act : Bool × Choice Name ℕ)
    (h : (match act.2 with
      | .gets b => (!(s.stack act.1).isEmpty) || (beanType b == some .requestHandler &&
        !disabled ⟨tableListenerProfile, false⟩ b)
      | _ => true) = true) : HandlersOnly ⟨tableListenerProfile, false⟩ s act := by
  intro b hb hs
  rw [hb] at h
  simpa [hs] using h

theorem handlers_reach_active_handlerGets : ∃ s : State Bool Name ℕ,
    Run (step (setup ⟨tableListenerProfile, false⟩)) (HandlersOnly ⟨tableListenerProfile, false⟩)
      initial handlerGets s ∧ (s.stack true).length = 2 ∧
      ∀ t, ∀ f ∈ s.stack t, (setup ⟨tableListenerProfile, false⟩).disabled f.bean = false := by
  obtain ⟨s, hrun, hs⟩ := exists_run_of_exec handlersOnly_of_check
    (step (setup ⟨tableListenerProfile, false⟩)) initial handlerGets
    (fun s => decide ((s.stack true).length = 2)) (by decide)
  exact ⟨s, hrun, of_decide_eq_true hs, handlers_reach_active hrun⟩

end ShimService.BeanName
