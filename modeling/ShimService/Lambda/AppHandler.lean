import ShimService.Library.PyValue

/-!
`lambda_web_framework.app_handler`: an event goes to the request handlers in turn. Some replies are
objects of the module, which are changed in place and given out again.
-/
namespace ShimService.Lambda

open PyValue

variable {σ φ : Type}

/-- What the `handle` of a request handler comes to; `success` is `SUCCESS_RESPONSE`. -/
inductive Handled (φ : Type)
  | none
  | success
  | dict (response : Dict φ)
  | other (value : Value φ)
  | raises

/-- A request handler, over whatever it works on. -/
abbrev RequestHandler (σ φ : Type) := Dict φ → σ → Handled φ × σ

/-- The responses that are objects of a module. -/
structure Responses (φ : Type) where
  serverError : Dict φ
  clientError : Dict φ
  success : Dict φ

def errorResponse (statusCode : ℤ) (message : String) : Dict φ :=
  [("statusCode", .int statusCode), ("body", .dict [("errorMessage", .str message)])]

def Responses.initial : Responses φ where
  serverError := errorResponse 500 "Internal Server Error"
  clientError := errorResponse 400 "Invalid Request"
  success := [("statusCode", .int 200), ("body", .str "OK")]

inductive Reply (φ : Type)
  | dict (response : Dict φ)
  | other (value : Value φ)

/-- `_check_event`. -/
def checkEvent (startTime : ℤ) (event : Dict φ) : Option (Dict φ) :=
  match event.lookup "command" with
  | some (.str "ping") =>
    some [("statusCode", .int 200), ("body", .dict [("pong", .int startTime)])]
  | _ => none

/-- `__dispatch` without its wrapper. -/
def dispatch (event : Dict φ) : List (RequestHandler σ φ) → σ → Handled φ × σ
  | [], s => (.none, s)
  | h :: requestHandlers, s =>
    match h event s with
    | (.none, s) => dispatch event requestHandlers s
    | r => r

/-- What `_handler` does to a response, in place; `dumps` is `json.dumps`. -/
def finish (dumps : Dict φ → String) (r : Dict φ) : Dict φ :=
  let r := setItem r "isBase64Encoded" (.bool false)
  match r.lookup "body" with
  | some (.dict body) => setItem r "body" (.str (dumps body))
  | _ => r

/-- `_handler`, where nothing goes wrong outside the handlers. -/
def handler (dumps : Dict φ → String) (startTime : ℤ) (requestHandlers : List (RequestHandler σ φ))
    (event : Dict φ) (responses : Responses φ) (s : σ) : Reply φ × Responses φ × σ :=
  match checkEvent startTime event with
  | some r => (.dict r, responses, s)
  | none =>
    match dispatch event requestHandlers s with
    | (.none, s) => (.dict responses.clientError, responses, s)
    | (.raises, s) =>
      let r := finish dumps responses.serverError
      (.dict r, { responses with serverError := r }, s)
    | (.success, s) =>
      let r := finish dumps responses.success
      (.dict r, { responses with success := r }, s)
    | (.dict r, s) => (.dict (finish dumps r), responses, s)
    | (.other v, s) => (.other v, responses, s)

/-- A process at work on one event after another. -/
def serve (dumps : Dict φ → String) (startTime : ℤ) (requestHandlers : List (RequestHandler σ φ)) :
    List (Dict φ) → Responses φ → σ → List (Reply φ)
  | [], _, _ => []
  | event :: events, responses, s =>
    let (reply, responses, s) := handler dumps startTime requestHandlers event responses s
    reply :: serve dumps startTime requestHandlers events responses s

/-- Each event goes to a process of its own. -/
def serveAfresh (dumps : Dict φ → String) (startTime : ℤ)
    (requestHandlers : List (RequestHandler σ φ)) : List (Dict φ) → σ → List (Reply φ)
  | [], _ => []
  | event :: events, s =>
    let (reply, _, s) := handler dumps startTime requestHandlers event .initial s
    reply :: serveAfresh dumps startTime requestHandlers events s

theorem dispatch_cons_of_none {h : RequestHandler σ φ} {event : Dict φ}
    {requestHandlers : List (RequestHandler σ φ)} {s t : σ} (hh : h event s = (.none, t)) :
    dispatch event (h :: requestHandlers) s = dispatch event requestHandlers t := by
  rw [dispatch, hh]

theorem dispatch_cons {h : RequestHandler σ φ} {event : Dict φ}
    {requestHandlers : List (RequestHandler σ φ)} {s t : σ} {r : Handled φ}
    (hh : h event s = (r, t)) (hr : r ≠ .none) :
    dispatch event (h :: requestHandlers) s = (r, t) := by
  rw [dispatch, hh]
  cases r <;> simp_all

/-! ### Nothing is left of earlier events -/

variable {dumps : Dict φ → String} {startTime : ℤ} {requestHandlers : List (RequestHandler σ φ)}
  {responses : Responses φ} {event : Dict φ} {s : σ}

/-- A response of a module is as at the start, or as it has been given out. -/
structure Kept (dumps : Dict φ → String) (responses : Responses φ) : Prop where
  serverError : finish dumps responses.serverError = finish dumps Responses.initial.serverError
  clientError : responses.clientError = Responses.initial.clientError
  success : finish dumps responses.success = finish dumps Responses.initial.success

theorem finish_serverError : finish dumps (finish dumps Responses.initial.serverError) =
    finish dumps (Responses.initial.serverError) := rfl

theorem finish_success : finish dumps (finish dumps Responses.initial.success) =
    finish dumps (Responses.initial.success) := rfl

theorem handler_kept (startTime : ℤ) (requestHandlers : List (RequestHandler σ φ))
    (event : Dict φ) (s : σ) (h : Kept dumps responses) :
    (handler dumps startTime requestHandlers event responses s).1 =
        (handler dumps startTime requestHandlers event .initial s).1 ∧
      (handler dumps startTime requestHandlers event responses s).2.2 =
        (handler dumps startTime requestHandlers event .initial s).2.2 ∧
      Kept dumps (handler dumps startTime requestHandlers event responses s).2.1 := by
  unfold handler
  cases checkEvent startTime event with
  | some r => exact ⟨rfl, rfl, h⟩
  | none =>
    rcases dispatch event requestHandlers s with ⟨r, t⟩
    cases r with
    | none => exact ⟨congrArg Reply.dict h.clientError, rfl, h⟩
    | raises =>
      refine ⟨congrArg Reply.dict h.serverError, rfl, ?_, h.clientError, h.success⟩
      simp only [h.serverError]
      exact finish_serverError
    | success =>
      refine ⟨congrArg Reply.dict h.success, rfl, h.serverError, h.clientError, ?_⟩
      simp only [h.success]
      exact finish_success
    | dict r => exact ⟨rfl, rfl, h⟩
    | other v => exact ⟨rfl, rfl, h⟩

theorem serve_kept (events : List (Dict φ)) (h : Kept dumps responses) :
    serve dumps startTime requestHandlers events responses s =
      serveAfresh dumps startTime requestHandlers events s := by
  induction events generalizing responses s with
  | nil => rfl
  | cons event events ih =>
    have hevent := handler_kept startTime requestHandlers event s h
    simp only [serve, serveAfresh]
    rw [hevent.1, ih hevent.2.2, hevent.2.1]

/-- Whatever the handlers do, a process replies to each event as one that has seen no other. -/
theorem serve_eq_serveAfresh (dumps : Dict φ → String) (startTime : ℤ)
    (requestHandlers : List (RequestHandler σ φ)) (events : List (Dict φ)) (s : σ) :
    serve dumps startTime requestHandlers events .initial s =
      serveAfresh dumps startTime requestHandlers events s :=
  serve_kept events ⟨rfl, rfl, rfl⟩

end ShimService.Lambda
