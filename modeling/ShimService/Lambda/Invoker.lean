import ShimService.Bean.BeanName
import ShimService.Lambda.AppHandler
import ShimService.Library.Transition

/-!
How the lambda functions invoke each other: not directly, but through one that posts the invocation.
A payload is told by the dictionary that its JSON text is of.
-/
namespace ShimService.Lambda

open PyValue BeanName

inductive LambdaFunction where
  | web
  | liveAgentPoller
  | sfdcPubSubPoller
  | pushNotifier
  | scheduler
  deriving DecidableEq, Repr

namespace LambdaFunction

def name : LambdaFunction → String
  | web => "ShimServiceWeb"
  | liveAgentPoller => "ShimServiceLiveAgentPoller"
  | sfdcPubSubPoller => "ShimServicePubSubPoller"
  | pushNotifier => "ShimServiceNotificationPublisher"
  | scheduler => "ShimServiceLambdaScheduler"

def defaultBeanName : LambdaFunction → BeanName.Name
  | web => .sessionConnector
  | liveAgentPoller => .liveAgentProcessor
  | sfdcPubSubPoller => .pubsubPollerProcessor
  | pushNotifier => .pushNotifierProcessor
  | scheduler => .lambdaSchedulerProcessor

end LambdaFunction

/-- `AWS_LAMBDA_FUNCTION_NAME` and `MIRROR_FUNCTION_NAME`. -/
structure Variables where
  functionName : Option String
  mirrorFunctionName : Option String

def LambdaFunction.effectiveName (vars : Variables) (f : LambdaFunction) : String :=
  if vars.functionName = some f.name then vars.mirrorFunctionName.getD f.name else f.name

/-- The name of a function, and the payload that it is invoked with. -/
structure Invocation (φ : Type) where
  functionName : String
  payload : Dict φ

variable {φ : Type}

/-- `invoke_function`, up to the call of the client. -/
def invokeFunction (vars : Variables) (function : LambdaFunction) (parameters : Dict φ)
    (beanName : Option BeanName.Name) : Invocation φ :=
  let record : Dict φ :=
    [("bean", .str (beanName.getD function.defaultBeanName).name),
      ("parameters", .dict parameters)]
  let name := function.effectiveName vars
  if (vars.functionName.getD "") ≠ "" then
    ⟨LambdaFunction.scheduler.name, [("bean", .str Name.lambdaSchedulerProcessor.name),
      ("parameters", .dict (setItem record "targetFunction" (.str name)))]⟩
  else ⟨name, record⟩

/-- A deployed function: the environment of its beans. -/
def deployed : String → Option Environment
  | "ShimServiceWeb" => some ⟨webProfile, true⟩
  | "ShimServiceLiveAgentPoller" => some ⟨liveAgentProcessorProfile, false⟩
  | "ShimServicePubSubPoller" => some ⟨pubsubPollerProfile, false⟩
  | "ShimServiceNotificationPublisher" => some ⟨pushNotifierProfile, true⟩
  | "ShimServiceLambdaScheduler" => some ⟨schedulerProfile, false⟩
  | "ShimServiceTableListener" => some ⟨tableListenerProfile, false⟩
  | _ => none

/-- A call of the `invoke` of a bean, in a function. -/
structure Performed (φ : Type) where
  functionName : String
  bean : BeanName.Name
  parameters : Option (Value φ)

/-- The invocations on their way, those that a post was refused, the calls that have been made of
beans, and of `invoke_function`. -/
structure State (φ : Type) where
  inFlight : List (Invocation φ)
  refused : List (Invocation φ)
  performed : List (Performed φ)
  asked : List (LambdaFunction × Dict φ)

/-- `LambdaSchedulerProcessor.invoke`; `posted` tells whether the status is a good one. -/
def schedule (posted : Bool) (parameters : Option (Value φ)) (s : State φ) :
    Handled φ × State φ :=
  match parameters with
  | some (.dict parameters) =>
    match pop parameters "targetFunction" with
    | (some (.str target), parameters) =>
      (.success, if posted then { s with inFlight := s.inFlight ++ [⟨target, parameters⟩] }
        else { s with refused := s.refused ++ [⟨target, parameters⟩] })
    | _ => (.raises, s)
  | _ => (.raises, s)

/-- `... or SUCCESS_RESPONSE`, with `none` for any result that is as good as none. -/
def Handled.orSuccess : Handled φ → Handled φ
  | .none => .success
  | r => r

/-- `handle` of an `InvocableBeanRequestHandler`. `result` is what the beans of others return. -/
def invocableHandle (functionName : String) (posted : Bool)
    (result : Performed φ → Handled φ) (bean : BeanName.Name) : RequestHandler (State φ) φ :=
  fun event s =>
    match event.lookup "bean" with
    | some (.str name) =>
      if name = bean.name then
        if bean = .lambdaSchedulerProcessor then schedule posted (event.lookup "parameters") s
        else
          let call : Performed φ := ⟨functionName, bean, event.lookup "parameters"⟩
          ((result call).orSuccess, { s with performed := s.performed ++ [call] })
      else (.none, s)
    | _ => (.none, s)

/-- `handle` of the `WebRequestProcessor`, for events that are no requests. -/
def webHandle : RequestHandler (State φ) φ := fun event s =>
  if event.any (fun entry => entry.1 = "rawPath" ∨ entry.1 = "path") then (.raises, s)
  else (.none, s)

/-- The request handlers that a function is injected with. -/
def requestHandlers (functionName : String) (posted : Bool) (result : Performed φ → Handled φ)
    (env : Environment) : List (RequestHandler (State φ) φ) :=
  (beansWithMatchingType env .requestHandler).map fun bean =>
    if bean = .webRouter then webHandle
    else invocableHandle functionName posted result bean

/-- A function runs with an invocation. -/
def run (posted : Bool) (result : Performed φ → Handled φ) (invocation : Invocation φ)
    (s : State φ) : State φ :=
  match deployed invocation.functionName with
  | none => s
  | some env =>
    (dispatch invocation.payload (requestHandlers invocation.functionName posted result env) s).2

/-- Where an invocation is asked for: in a function, or on a developer's machine. -/
inductive Act (φ : Type) where
  | ask (functionName : Option String) (function : LambdaFunction) (parameters : Dict φ)
  | deliver (index : ℕ) (posted : Bool) (result : Performed φ → Handled φ)

/-- An `ask` that the client refuses raises, and an invocation that is delivered is so once. -/
def step (s : State φ) : Act φ → Option (State φ)
  | .ask functionName function parameters => some { s with
      inFlight := s.inFlight ++ [invokeFunction ⟨functionName, none⟩ function parameters none]
      asked := s.asked ++ [(function, parameters)] }
  | .deliver index posted result =>
    s.inFlight[index]?.map fun invocation =>
      run posted result invocation { s with inFlight := s.inFlight.eraseIdx index }

def initial : State φ := ⟨[], [], [], []⟩

end ShimService.Lambda
