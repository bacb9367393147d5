import Mathlib.Logic.Relation
import Mathlib.Order.WellFounded
import ShimService.Bean.BeanImpl

/-!
The beans of the service, the profiles that they are active in, and the beans that each loader's
`init` gets instances of.
-/
namespace ShimService.BeanName

open BeanImpl (Setup)

/-! ### `bean.profiles` -/

def webProfile : ℕ := 0x1
def pubsubPollerProfile : ℕ := 0x02
def liveAgentProcessorProfile : ℕ := 0x04
def pushNotifierProfile : ℕ := 0x08
def schedulerProfile : ℕ := 0x10
def tableListenerProfile : ℕ := 0x20

def allProfiles : ℕ :=
  webProfile ||| pubsubPollerProfile ||| liveAgentProcessorProfile ||| pushNotifierProfile |||
    schedulerProfile ||| tableListenerProfile

def nonWebProfiles : ℕ := allProfiles ^^^ webProfile

/-! ### `bean` -/

def httpClientProfiles : ℕ := allProfiles ^^^ schedulerProfile ^^^ tableListenerProfile
def instanceProfiles : ℕ := allProfiles ^^^ schedulerProfile ^^^ tableListenerProfile
def eventsProfiles : ℕ := allProfiles ^^^ schedulerProfile ^^^ tableListenerProfile
def lambdaProfiles : ℕ := allProfiles ^^^ schedulerProfile

inductive BeanType where
  | pushNotifier
  | eventListener
  | requestHandler
  deriving DecidableEq, Repr

inductive Name where
  | secretsManagerClient
  | httpClient
  | dynamodbClient
  | dynamodb
  | instance_
  | secretsRepo
  | eventsRepo
  | adminClient
  | authenticator
  | webRouter
  | sessionsRepo
  | userSessionsRepo
  | resourceLockRepo
  | snsClient
  | sns
  | errorNotifier
  | config
  | httpClientBuilder
  | pushNotificationCreds
  | firebaseAdmin
  | pushNotificationCertBuilder
  | pushNotifier
  | sequenceRepo
  | sessionContextsRepo
  | pushNotificationRepo
  | liveAgentPollerPlatform
  | sfdcSessionsRepo
  | lambdaInvoker
  | sessionConnector
  | lambdaClient
  | liveAgentProcessor
  | pubsubPollerProcessor
  | sqsClient
  | scheduler
  | liveAgentMessageDispatcher
  | pendingEventsRepo
  | pushNotifierProcessor
  | sqsPushNotifier
  | pushNotificationManager
  | workIdMapRepo
  | schedulerClient
  | lambdaSchedulerProcessor
  | tableListenerProcessor
  | pendingTenantEventsRepo
  | tenantContextRepo
  | secureChannelCredentials
  | pubsubService
  deriving DecidableEq, Repr

open Name

/-- The name of the enumeration's member. -/
def Name.name : Name → String
  | secretsManagerClient => "SECRETS_MANAGER_CLIENT"
  | httpClient => "HTTP_CLIENT"
  | dynamodbClient => "DYNAMODB_CLIENT"
  | dynamodb => "DYNAMODB"
  | instance_ => "INSTANCE"
  | secretsRepo => "SECRETS_REPO"
  | eventsRepo => "EVENTS_REPO"
  | adminClient => "ADMIN_CLIENT"
  | authenticator => "AUTHENTICATOR"
  | webRouter => "WEB_ROUTER"
  | sessionsRepo => "SESSIONS_REPO"
  | userSessionsRepo => "USER_SESSIONS_REPO"
  | resourceLockRepo => "RESOURCE_LOCK_REPO"
  | snsClient => "SNS_CLIENT"
  | sns => "SNS"
  | errorNotifier => "ERROR_NOTIFIER"
  | config => "CONFIG"
  | httpClientBuilder => "HTTP_CLIENT_BUILDER"
  | pushNotificationCreds => "PUSH_NOTIFICATION_CREDS"
  | firebaseAdmin => "FIREBASE_ADMIN"
  | pushNotificationCertBuilder => "PUSH_NOTIFICATION_CERT_BUILDER"
  | pushNotifier => "PUSH_NOTIFIER"
  | sequenceRepo => "SEQUENCE_REPO"
  | sessionContextsRepo => "SESSION_CONTEXTS_REPO"
  | pushNotificationRepo => "PUSH_NOTIFICATION_REPO"
  | liveAgentPollerPlatform => "LIVE_AGENT_POLLER_PLATFORM"
  | sfdcSessionsRepo => "SFDC_SESSIONS_REPO"
  | lambdaInvoker => "LAMBDA_INVOKER"
  | sessionConnector => "SESSION_CONNECTOR"
  | lambdaClient => "LAMBDA_CLIENT"
  | liveAgentProcessor => "LIVE_AGENT_PROCESSOR"
  | pubsubPollerProcessor => "PUBSUB_POLLER_PROCESSOR"
  | sqsClient => "SQS_CLIENT"
  | scheduler => "SCHEDULER"
  | liveAgentMessageDispatcher => "LIVE_AGENT_MESSAGE_DISPATCHER"
  | pendingEventsRepo => "PENDING_EVENTS_REPO"
  | pushNotifierProcessor => "PUSH_NOTIFIER_PROCESSOR"
  | sqsPushNotifier => "SQS_PUSH_NOTIFIER"
  | pushNotificationManager => "PUSH_NOTIFICATION_MANAGER"
  | workIdMapRepo => "WORK_ID_MAP_REPO"
  | schedulerClient => "SCHEDULER_CLIENT"
  | lambdaSchedulerProcessor => "LAMBDA_SCHEDULER_PROCESSOR"
  | tableListenerProcessor => "TABLE_LISTENER_PROCESSOR"
  | pendingTenantEventsRepo => "PENDING_TENANT_EVENTS_REPO"
  | tenantContextRepo => "TENANT_CONTEXT_REPO"
  | secureChannelCredentials => "SECURE_CHANNEL_CREDENTIALS"
  | pubsubService => "PUBSUB_SERVICE"

/-- The second item of a name's value. -/
def profiles : Name → ℕ
  | secretsManagerClient | secretsRepo | adminClient | authenticator | webRouter
  | sessionConnector => webProfile
  | httpClient | httpClientBuilder => httpClientProfiles
  | instance_ => instanceProfiles
  | dynamodbClient | dynamodb | sessionsRepo | userSessionsRepo | resourceLockRepo | snsClient
  | sns | errorNotifier | config | sessionContextsRepo | sfdcSessionsRepo => allProfiles
  | eventsRepo | sequenceRepo | sqsClient | scheduler | pendingEventsRepo
  | schedulerClient => eventsProfiles
  | pushNotificationCreds | firebaseAdmin | pushNotificationCertBuilder | pushNotifier
  | sqsPushNotifier | pushNotificationManager => webProfile ||| pushNotifierProfile
  | pushNotificationRepo => nonWebProfiles ^^^ schedulerProfile ^^^ tableListenerProfile
  | liveAgentPollerPlatform => webProfile ||| liveAgentProcessorProfile
  | lambdaInvoker | lambdaClient => lambdaProfiles
  | liveAgentProcessor | liveAgentMessageDispatcher => liveAgentProcessorProfile
  | pubsubPollerProcessor | tenantContextRepo | secureChannelCredentials
  | pubsubService => pubsubPollerProfile
  | pushNotifierProcessor => pushNotifierProfile
  | workIdMapRepo => webProfile ||| pubsubPollerProfile
  | lambdaSchedulerProcessor => schedulerProfile
  | tableListenerProcessor => tableListenerProfile
  | pendingTenantEventsRepo => tableListenerProfile ||| pubsubPollerProfile

/-- The `type` of the third item. -/
def beanType : Name → Option BeanType
  | webRouter | sessionConnector | liveAgentProcessor | pubsubPollerProcessor
  | pushNotifierProcessor | lambdaSchedulerProcessor
  | tableListenerProcessor => some .requestHandler
  | pushNotifier | sqsPushNotifier => some .pushNotifier
  | workIdMapRepo => some .eventListener
  | _ => none

/-- The bits of the active profiles, and whether `SQS_PUSH_NOTIFICATION_QUEUE_URL` is there, which
is the `var` of one bean. -/
structure Environment where
  activeProfiles : ℕ
  queueUrl : Bool

/-- `__disabled`, as `_set_name` leaves it where beans are not resettable. -/
def disabled (env : Environment) (name : Name) : Bool :=
  env.activeProfiles &&& profiles name == 0 || (name == sqsPushNotifier && !env.queueUrl)

/-- `get_beans_with_matching_type`, in the order of the registry. -/
def beansWithMatchingType (env : Environment) (type : BeanType) : List Name :=
  [webRouter, pushNotifier, sessionConnector, liveAgentProcessor, pushNotifierProcessor,
    sqsPushNotifier, workIdMapRepo, lambdaSchedulerProcessor, tableListenerProcessor,
    pubsubPollerProcessor].filter fun name => beanType name == some type && !disabled env name

/-- The `bean_instances` of the `inject` of a loader, and what its `init` or the constructor called
there gets besides. -/
def beanInstances : Name → List Name
  | adminClient => [secretsRepo, httpClient]
  | authenticator => [instance_, adminClient]
  | dynamodb => [dynamodbClient]
  | errorNotifier => [sns]
  | eventsRepo => [dynamodb]
  | instance_ => [config, secretsRepo]
  | lambdaInvoker => [lambdaClient]
  | liveAgentMessageDispatcher => [pushNotificationRepo]
  | liveAgentProcessor =>
    [pendingEventsRepo, resourceLockRepo, sessionContextsRepo, lambdaInvoker, config,
      liveAgentMessageDispatcher]
  | pendingEventsRepo | pendingTenantEventsRepo | resourceLockRepo | tenantContextRepo
  | userSessionsRepo => [dynamodb]
  | pubsubPollerProcessor =>
    [resourceLockRepo, pendingTenantEventsRepo, pushNotificationRepo, sessionsRepo,
      userSessionsRepo, workIdMapRepo, tenantContextRepo, lambdaInvoker, config,
      secureChannelCredentials, pubsubService]
  | pushNotificationRepo => [dynamodb, sequenceRepo, sessionContextsRepo, lambdaInvoker, config]
  | pushNotifierProcessor => [sessionContextsRepo, pushNotificationRepo, pushNotificationManager]
  | pushNotificationCreds => [adminClient]
  | scheduler => [schedulerClient, lambdaClient]
  | secretsRepo => [secretsManagerClient]
  | sequenceRepo => [dynamodb, eventsRepo]
  | sessionContextsRepo | workIdMapRepo => [dynamodb, config]
  | sessionsRepo => [dynamodb, userSessionsRepo, eventsRepo, sequenceRepo, sfdcSessionsRepo]
  | sfdcSessionsRepo => [dynamodb, sessionContextsRepo]
  | sns => [snsClient]
  | sqsPushNotifier => [sqsClient]
  | tableListenerProcessor => [sessionContextsRepo, pendingTenantEventsRepo, lambdaInvoker]
  | _ => []

/-- The `bean_types` of the `inject` of a loader. -/
def beanTypes : Name → List BeanType
  | eventsRepo => [.eventListener]
  | pushNotificationManager => [.pushNotifier]
  | _ => []

def needs (env : Environment) (name : Name) : List Name :=
  beanInstances name ++ (beanTypes name).flatMap (beansWithMatchingType env)

/-- The beans of a lambda function. -/
def setup (env : Environment) : Setup Name := ⟨false, disabled env, needs env⟩

/-- How long a chain of loaders a bean may begin. -/
def rank : Name → ℕ
  | dynamodb | sns | secretsRepo | lambdaInvoker | scheduler | sqsPushNotifier => 1
  | errorNotifier | adminClient | instance_ | pendingEventsRepo | pendingTenantEventsRepo
  | resourceLockRepo | tenantContextRepo | userSessionsRepo | sessionContextsRepo
  | workIdMapRepo | pushNotificationManager => 2
  | eventsRepo | authenticator | sfdcSessionsRepo | pushNotificationCreds
  | tableListenerProcessor => 3
  | sequenceRepo => 4
  | sessionsRepo | pushNotificationRepo => 5
  | liveAgentMessageDispatcher | pubsubPollerProcessor | pushNotifierProcessor => 6
  | liveAgentProcessor => 7
  | _ => 0

theorem mem_beansWithMatchingType {env : Environment} {type : BeanType} {name : Name}
    (h : name ∈ beansWithMatchingType env type) :
    beanType name = some type ∧ disabled env name = false := by
  simp only [beansWithMatchingType, List.mem_filter, Bool.and_eq_true, beq_iff_eq,
    Bool.not_eq_eq_eq_not, Bool.not_true] at h
  exact h.2

theorem rank_lt_of_beanInstances (b c : Name) (h : c ∈ beanInstances b) : rank c < rank b := by
  have hall : ∀ c ∈ beanInstances b, rank c < rank b := by cases b <;> decide
  exact hall c h

theorem rank_lt_of_beanTypes {b c : Name} {type : BeanType} (ht : type ∈ beanTypes b)
    (hc : beanType c = some type) : rank c < rank b := by
  cases b <;> simp [beanTypes] at ht
  all_goals
    subst ht
    cases c <;> simp [beanType] at hc <;> decide

/-- No bean needs itself. -/
theorem needs_wellFounded (env : Environment) :
    WellFounded fun c b => c ∈ (setup env).needs b := by
  refine Subrelation.wf (fun {c b} h => ?_) (InvImage.wf rank Nat.lt_wfRel.wf)
  rcases List.mem_append.mp h with hc | hc
  · exact rank_lt_of_beanInstances b c hc
  · obtain ⟨type, ht, hc⟩ := List.mem_flatMap.mp hc
    exact rank_lt_of_beanTypes ht (mem_beansWithMatchingType hc).1

end ShimService.BeanName
