import ShimService.Auth.Signing
import ShimService.Library.Program

/-!
`Route.invoke` for a route that needs the API of a session. The session's lock goes from the helper
that acquires it to the API object, and from there to the exit of its `with` block.
-/
namespace ShimService.Web

open Auth (LambdaHttpException)

inductive Failure where
  -- A call of Salesforce failed.
  | http (statusCode : ℕ) (body : String)
  | lambdaHttp (ex : LambdaHttpException) (response : Option (ℕ × String))
  | attributeError
  | other (description : String)
  deriving DecidableEq

/-- What something outside the request does to the world, and what it returns or raises. -/
abbrev Outside (ω α : Type) := ω → Except Failure α × ω

/-- The steps of one request. `χ` is a session with its context, `σ` the settings in the context
and `ρ` a response. -/
structure Route (ω χ σ ρ : Type) where
  apiRequired : Bool
  /-- The arguments: the transformed body, the session. -/
  prepare : Outside ω Unit
  /-- `ResourceLockRepo.acquire`, which tries until it has a lock or an exception. -/
  acquire : Outside ω (Option Unit)
  loadWithContext : Outside ω (Option χ)
  /-- The settings are read when the API object is built. -/
  deserialize : χ → Outside ω σ
  /-- The handler, which changes the settings also when it raises. -/
  caller : Option σ → ω → Except Failure ρ × Option σ × ω
  updateSessionContext : χ → σ → Outside ω Unit
  /-- The delete of the lock's row. -/
  releaser : Outside ω Bool

/-- `settings` are those of the API object, once there is one. `acquired` counts the locks that
`acquire` has handed out, `releases` lists what the releaser has returned or raised, and
`releaseResult` is the handle's field. -/
structure State (ω σ : Type) where
  world : ω
  settings : Option σ
  acquired : ℕ
  releaseResult : Option Bool
  releases : List (Except Failure Bool)

/-- No lock is held and nothing is released. -/
def State.initial {ω σ : Type} (world : ω) : State ω σ := ⟨world, none, 0, none, []⟩

structure OmniChannelApi (χ σ : Type) where
  context : χ
  initialSettings : σ

namespace Route

variable {ω χ σ ρ α : Type} [DecidableEq σ] (route : Route ω χ σ ρ)

abbrev Run (ω σ : Type) := Program (State ω σ) Failure

open Program (raise read modify handle ensure)

def outside (x : Outside ω α) : Run ω σ α := fun s =>
  let (result, world) := x s.world
  (result, { s with world := world })

/-- `acquire`, and whether it has handed out a lock, whatever becomes of that lock. -/
def runAcquire : Run ω σ (Option Unit) := fun s =>
  let (result, world) := route.acquire s.world
  let acquired := match result with
    | .ok (some ()) => s.acquired + 1
    | _ => s.acquired
  (result, { s with world := world, acquired := acquired })

/-- The releaser of the handle. -/
def runReleaser : Run ω σ Bool := fun s =>
  let (result, world) := route.releaser s.world
  (result, { s with world := world, releases := s.releases ++ [result] })

/-- The releaser runs until it has returned once. -/
def release : Run ω σ Bool := do
  match ← read State.releaseResult with
  | some result => return result
  | none =>
    let result ← route.runReleaser
    modify fun s => { s with releaseResult := some result }
    return result

/-- `execute_and_release_on_exception`. -/
def releaseOnException (caller : Run ω σ α) : Run ω σ α :=
  ensure caller fun ok => do
    if !ok then
      let _ ← route.release

def acquireAndExecute (caller : Run ω σ α) : Run ω σ α := do
  let lock ← route.runAcquire
  match lock with
  | none => raise (.lambdaHttp ⟨409, "Unable to lock session"⟩ none)
  | some () => route.releaseOnException caller

/-- Without a context there is nothing to take the session from. -/
def omniChannelApi (sc : Option χ) : Run ω σ (OmniChannelApi χ σ) := do
  match sc with
  | none => raise .attributeError
  | some context =>
    let settings ← outside (route.deserialize context)
    modify fun s => { s with settings := some settings }
    return ⟨context, settings⟩

def loadApi : Run ω σ (OmniChannelApi χ σ) := do
  let sc ← route.acquireAndExecute (outside route.loadWithContext)
  route.releaseOnException (route.omniChannelApi sc)

/-- `__exit__`, with or without an exception of the block. -/
def exit (api : OmniChannelApi χ σ) : Run ω σ Unit :=
  ensure (do
    match ← read State.settings with
    | some settings =>
      if settings ≠ api.initialSettings then
        outside (route.updateSessionContext api.context settings)
    | none => return ()) fun _ => do
      let _ ← route.release

def call : Run ω σ ρ := fun s =>
  let (result, settings, world) := route.caller s.settings s.world
  (result, { s with world := world, settings := settings })

def invokeApi : Run ω σ ρ := do
  let api ← route.loadApi
  ensure (handle route.call fun
    | .http statusCode body => raise (.lambdaHttp ⟨502, "SF call failed."⟩ (statusCode, body))
    | failure => raise failure) fun _ => route.exit api

def invoke : Run ω σ ρ := do
  outside route.prepare
  if route.apiRequired then route.invokeApi else route.call

/-! ### The lock has an owner at every step -/

/-- So many locks were acquired, and none is released. -/
structure Unreleased (acquired : ℕ) (s : State ω σ) : Prop where
  acquired_eq : s.acquired = acquired
  releases_eq : s.releases = []
  result_eq : s.releaseResult = none

/-- The one lock that was acquired is released, unless the releaser has raised. -/
structure Released (s : State ω σ) : Prop where
  acquired_eq : s.acquired = 1
  once : ∃ result, s.releases = [result] ∧ s.releaseResult = result.toOption

variable {route : Route ω χ σ ρ} {s : State ω σ} {acquired : ℕ} {caller : Run ω σ α}

/-- What comes out of the steps while the request holds the lock. -/
def Handover (result : Except Failure α) (t : State ω σ) : Prop :=
  match result with
  | .ok _ => Unreleased 1 t
  | .error _ => Released t

omit [DecidableEq σ] in
theorem outside_unreleased {x : Outside ω α} (h : Unreleased acquired s) :
    (outside x).Ends s fun _ t => Unreleased acquired t :=
  ⟨h.acquired_eq, h.releases_eq, h.result_eq⟩

omit [DecidableEq σ] in
theorem release_released (h : Unreleased 1 s) : route.release.Ends s fun _ t => Released t := by
  have hone (result : Except Failure Bool) : s.releases ++ [result] = [result] := by
    rw [h.releases_eq, List.nil_append]
  simp only [release, Program.ends_bind, Program.ends_read, h.result_eq]
  rcases hx : route.releaser s.world with ⟨_ | result, world⟩
  · simp only [Program.Ends, runReleaser, hx]
    exact ⟨h.acquired_eq, _, hone _, h.result_eq⟩
  · simp only [Program.Ends, runReleaser, hx]
    exact ⟨h.acquired_eq, _, hone _, rfl⟩

omit [DecidableEq σ] in
theorem finalizer_released (h : Unreleased 1 s) :
    Program.Ends (do let _ ← route.release) s fun _ t => Released t := by
  rw [Program.ends_bind]
  refine (release_released h).mono fun result t ht => ?_
  cases result <;> exact ht

omit [DecidableEq σ] in
theorem releaseOnException_handover (h : caller.Ends s fun _ t => Unreleased 1 t) :
    (route.releaseOnException caller).Ends s Handover := by
  rw [releaseOnException, Program.ends_ensure]
  refine h.mono fun result t ht => ?_
  cases result with
  | ok a => exact ht
  | error failure =>
    refine (finalizer_released ht).mono fun last u hu => ?_
    cases last <;> exact hu

omit [DecidableEq σ] in
theorem runAcquire_spec (h : Unreleased 0 s) : route.runAcquire.Ends s fun result t =>
    match result with
    | .ok (some ()) => Unreleased 1 t
    | _ => Unreleased 0 t := by
  rcases hx : route.acquire s.world with ⟨_ | _ | _, world⟩ <;>
    simp only [Program.Ends, runAcquire, hx]
  · exact ⟨h.acquired_eq, h.releases_eq, h.result_eq⟩
  · exact ⟨h.acquired_eq, h.releases_eq, h.result_eq⟩
  · exact ⟨congrArg (· + 1) h.acquired_eq, h.releases_eq, h.result_eq⟩

omit [DecidableEq σ] in
/-- Where no lock is handed out there is nothing to release. -/
theorem acquireAndExecute_spec (h : Unreleased 0 s)
    (hcaller : ∀ t, Unreleased 1 t → caller.Ends t fun _ u => Unreleased 1 u) :
    (route.acquireAndExecute caller).Ends s fun result t =>
      Handover result t ∨ result.isOk = false ∧ Unreleased 0 t := by
  rw [acquireAndExecute, Program.ends_bind]
  refine (runAcquire_spec h).mono fun lock t ht => ?_
  match lock with
  | .error failure => exact .inr ⟨rfl, ht⟩
  | .ok none => exact .inr ⟨rfl, ht⟩
  | .ok (some ()) =>
    exact (releaseOnException_handover (hcaller _ ht)).mono fun _ _ hu => .inl hu

omit [DecidableEq σ] in
theorem omniChannelApi_unreleased {sc : Option χ} (h : Unreleased 1 s) :
    (route.omniChannelApi sc).Ends s fun _ t => Unreleased 1 t := by
  cases sc with
  | none => exact h
  | some context =>
    simp only [omniChannelApi, Program.ends_bind, Program.ends_modify, Program.ends_pure]
    refine (outside_unreleased h).mono fun result t ht => ?_
    cases result with
    | error failure => exact ht
    | ok settings => exact ⟨ht.acquired_eq, ht.releases_eq, ht.result_eq⟩

omit [DecidableEq σ] in
/-- The helper hands the lock over to the API object, or has released it. -/
theorem loadApi_spec (h : Unreleased 0 s) : route.loadApi.Ends s fun result t =>
    Handover result t ∨ result.isOk = false ∧ Unreleased 0 t := by
  have hload : (route.acquireAndExecute (outside route.loadWithContext)).Ends s fun result t =>
      Handover result t ∨ result.isOk = false ∧ Unreleased 0 t :=
    acquireAndExecute_spec h fun _ ht => outside_unreleased ht
  rw [loadApi, Program.ends_bind]
  refine hload.mono fun result t ht => ?_
  cases result with
  | error failure => exact ht.imp id fun hnone => ⟨rfl, hnone.2⟩
  | ok sc =>
    obtain hheld | ⟨hok, -⟩ := ht
    · exact (releaseOnException_handover (omniChannelApi_unreleased hheld)).mono
        fun _ _ hu => .inl hu
    · cases hok

/-- The settings may fail to be saved. -/
theorem exit_released {api : OmniChannelApi χ σ} (h : Unreleased 1 s) :
    (route.exit api).Ends s fun _ t => Released t := by
  have hsave : Program.Ends (do
      match ← read State.settings with
      | some settings =>
        if settings ≠ api.initialSettings then
          outside (route.updateSessionContext api.context settings)
      | none => return () : Program (State ω σ) Failure Unit) s fun _ t => Unreleased 1 t := by
    simp only [Program.ends_bind, Program.ends_read]
    cases s.settings with
    | none => exact h
    | some settings =>
      simp only
      split
      · exact outside_unreleased h
      · exact h
  rw [exit, Program.ends_ensure]
  refine hsave.mono fun result t ht => (finalizer_released ht).mono fun last u hu => ?_
  cases last <;> exact hu

omit [DecidableEq σ] in
theorem call_unreleased (h : Unreleased acquired s) :
    route.call.Ends s fun _ t => Unreleased acquired t :=
  ⟨h.acquired_eq, h.releases_eq, h.result_eq⟩

theorem invokeApi_spec (h : Unreleased 0 s) :
    route.invokeApi.Ends s fun _ t => Released t ∨ Unreleased 0 t := by
  rw [invokeApi, Program.ends_bind]
  refine (loadApi_spec h).mono fun result t ht => ?_
  cases result with
  | error failure => exact ht.imp id And.right
  | ok api =>
    obtain hheld | ⟨hok, -⟩ := ht
    · simp only [Program.ends_ensure]
      have hbody : Program.Ends (handle route.call fun
          | .http statusCode body =>
            raise (.lambdaHttp ⟨502, "SF call failed."⟩ (statusCode, body))
          | failure => raise failure) t fun _ u => Unreleased 1 u := by
        rw [Program.ends_handle]
        refine (call_unreleased hheld).mono fun result u hu => ?_
        match result with
        | .ok _ | .error (.http _ _) | .error (.lambdaHttp _ _) | .error .attributeError
        | .error (.other _) => exact hu
      refine hbody.mono fun result u hu => (exit_released hu).mono fun last v hv => ?_
      cases last <;> exact .inl hv
    · cases hok

/-- When a request ends, the lock that it acquired has been released by one run of the releaser;
where it acquired none, nothing was released. -/
theorem lock_released_once (route : Route ω χ σ ρ) (world : ω) :
    (route.invoke (.initial world)).2.acquired = 1 ∧
        (∃ result, (route.invoke (.initial world)).2.releases = [result] ∧
          (route.invoke (.initial world)).2.releaseResult = result.toOption) ∨
      (route.invoke (.initial world)).2.acquired = 0 ∧
        (route.invoke (.initial world)).2.releases = [] := by
  have hinitial : Unreleased 0 (State.initial world : State ω σ) := ⟨rfl, rfl, rfl⟩
  have hends : route.invoke.Ends (.initial world) fun _ t => Released t ∨ Unreleased 0 t := by
    rw [invoke, Program.ends_bind]
    refine (outside_unreleased hinitial).mono fun result t ht => ?_
    cases result with
    | error failure => exact .inr ht
    | ok _ =>
      simp only
      split
      · exact invokeApi_spec ht
      · exact (call_unreleased ht).mono fun _ _ hu => .inr hu
  obtain hreleased | hnone := hends
  · exact .inl ⟨hreleased.acquired_eq, hreleased.once⟩
  · exact .inr ⟨hnone.acquired_eq, hnone.releases_eq⟩

/-- The handler changes the settings and the save of the session's context raises. -/
def saveRaises : Route Unit Unit ℕ Unit where
  apiRequired := true
  prepare _ := (.ok (), ())
  acquire _ := (.ok (some ()), ())
  loadWithContext _ := (.ok (some ()), ())
  deserialize _ _ := (.ok 1, ())
  caller settings _ := (.ok (), settings.map (· + 1), ())
  updateSessionContext _ _ _ := (.error (.other "the table is not there"), ())
  releaser _ := (.ok true, ())

theorem lock_released_once_save_raises : (saveRaises.invoke (.initial ())).1.isOk = false ∧
    (saveRaises.invoke (.initial ())).2.acquired = 1 ∧
    ∃ result, (saveRaises.invoke (.initial ())).2.releases = [result] ∧
      (saveRaises.invoke (.initial ())).2.releaseResult = result.toOption := by
  have hacquired : (saveRaises.invoke (.initial ())).2.acquired = 1 := by decide
  refine ⟨by decide, ?_⟩
  rcases lock_released_once saveRaises () with hreleased | ⟨hnone, -⟩
  · exact hreleased
  · omega

end Route

end ShimService.Web
