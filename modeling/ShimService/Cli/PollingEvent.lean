import Mathlib.Data.Int.Notation
import Mathlib.Data.Nat.Notation

/-!
The push notifications of the command line client, and the polling events in them. `none` stands
for an exception, of a cast or of a decoder.
-/
namespace ShimService.Cli

/-- What `jsonDecode` returns; of a number that is not an `int`, the text. -/
inductive Json where
  | null
  | bool (b : Bool)
  | int (n : ℤ)
  | double (text : String)
  | str (s : String)
  | list (values : List Json)
  | map (entries : List (String × Json))

abbrev Node := List (String × Json)

namespace Json

def asBool : Json → Option Bool
  | bool b => some b
  | _ => none

def asInt : Json → Option ℤ
  | int n => some n
  | _ => none

def asStr : Json → Option String
  | str s => some s
  | _ => none

def asList : Json → Option (List Json)
  | list values => some values
  | _ => none

def asMap : Json → Option Node
  | map entries => some entries
  | _ => none

end Json

/-- `node[key]`, which is null where the key is missing. -/
def Node.get (node : Node) (key : String) : Json := (node.lookup key).getD .null

structure ChatMessage where
  sequence : ℤ
  content : String
  entryType : String
  timestamp : ℤ
  deriving DecidableEq

def ChatMessage.ofNode (node : Node) : Option ChatMessage := do
  return {
    sequence := ← (node.get "sequence").asInt
    content := ← (node.get "content").asStr
    entryType := ← (node.get "entryType").asStr
    timestamp := ← (node.get "timestamp").asInt }

structure ConversationMessageEvent where
  text : String
  attachments : List Json
  workId : String

inductive EventType where
  | loginResult
  | chatRequest
  | chatEstablished
  | workAssigned
  | presenceStatusChanged
  | workAccepted
  | conversationMessage
  | asyncResult
  deriving DecidableEq

def EventType.name : EventType → String
  | loginResult => "Agent/LoginResult"
  | chatRequest => "LmAgent/ChatRequest"
  | chatEstablished => "LmAgent/ChatEstablished"
  | workAssigned => "Presence/WorkAssigned"
  | presenceStatusChanged => "Presence/PresenceStatusChanged"
  | workAccepted => "Presence/WorkAccepted"
  | conversationMessage => "Conversational/ConversationMessage"
  | asyncResult => "AsyncResult"

inductive PollingEvent where
  | loginResult (success : Bool) (userName userId : String)
  | chatRequest (receivedAt : ℤ) (workTargetId : String) (messages : List ChatMessage)
  | chatEstablished (receivedAt : ℤ) (workTargetId : String) (messages : List ChatMessage)
  | workAssigned (receivedAt : ℤ) (workId workTargetId channelName : String) (psrDateAdded : ℤ)
  | presenceStatusChanged (statusId statusName : String)
  | workAccepted (workId : String)
  | conversationMessage (event : ConversationMessageEvent)
  | asyncResult (sequence : ℤ) (success : Bool)

def loginResultEvent (eventData : Node) : Option PollingEvent := do
  let success ← (eventData.get "success").asBool
  let userInfo ← (eventData.get "userInfo").asMap
  return .loginResult success (← (userInfo.get "fullName").asStr) (← (userInfo.get "id").asStr)

/-- `eventData[key] ?? currentTimeMillis()`. -/
def timeOrNow (currentTimeMillis : ℤ) (eventData : Node) (key : String) : Option ℤ :=
  match eventData.get key with
  | .null => some currentTimeMillis
  | value => value.asInt

/-- `AbstractChatEvent`, for either of the two events. -/
def abstractChatEvent (event : ℤ → String → List ChatMessage → PollingEvent)
    (currentTimeMillis : ℤ) (eventData : Node) : Option PollingEvent := do
  let receivedAt ← timeOrNow currentTimeMillis eventData "receivedAt"
  let workTargetId ← (eventData.get "workTargetId").asStr
  let messages ← (eventData.get "messages").asList
  return event receivedAt workTargetId
    (← messages.mapM fun message => do ChatMessage.ofNode (← message.asMap))

def workAssignedEvent (currentTimeMillis : ℤ) (eventData : Node) : Option PollingEvent := do
  let receivedAt ← timeOrNow currentTimeMillis eventData "receivedTime"
  return .workAssigned receivedAt (← (eventData.get "workId").asStr)
    (← (eventData.get "workTargetId").asStr) (← (eventData.get "channelName").asStr)
    (← (eventData.get "psrDateAdded").asInt)

def presenceStatusChangedEvent (eventData : Node) : Option PollingEvent := do
  let status ← (eventData.get "status").asMap
  let statusId ← (status.get "statusId").asStr
  let details ← (status.get "statusDetails").asMap
  return .presenceStatusChanged statusId (← (details.get "statusName").asStr)

def workAcceptedEvent (eventData : Node) : Option PollingEvent := do
  return .workAccepted (← (eventData.get "workId").asStr)

def conversationMessageEvent (eventData : Node) : Option PollingEvent := do
  return .conversationMessage {
    text := ← (eventData.get "text").asStr
    attachments := ← (eventData.get "attachments").asList
    workId := ← (eventData.get "workId").asStr }

def asyncResultEvent (eventData : Node) : Option PollingEvent := do
  return .asyncResult (← (eventData.get "sequence").asInt) (← (eventData.get "isSuccess").asBool)

def eventBuilders (currentTimeMillis : ℤ) : List (EventType × (Node → Option PollingEvent)) :=
  [(.loginResult, loginResultEvent),
   (.chatRequest, abstractChatEvent .chatRequest currentTimeMillis),
   (.chatEstablished, abstractChatEvent .chatEstablished currentTimeMillis),
   (.workAssigned, workAssignedEvent currentTimeMillis),
   (.presenceStatusChanged, presenceStatusChangedEvent),
   (.workAccepted, workAcceptedEvent),
   (.conversationMessage, conversationMessageEvent),
   (.asyncResult, asyncResultEvent)]

/-- A message of another type, or one that is no map, has no event. -/
def parseEvent (jsonDecode : String → Option Json) (currentTimeMillis : ℤ)
    (messageType message : String) : Option (Option PollingEvent) :=
  match (eventBuilders currentTimeMillis).find? fun builder => builder.1.name = messageType with
  | none => some none
  | some builder =>
    match (jsonDecode message).bind Json.asMap with
    | none => some none
    | some map => (builder.2 map).map some

inductive PlatformChannelType where
  | omni
  | x1440
  deriving DecidableEq

def PlatformChannelType.valueOf : String → Option PlatformChannelType
  | "omni" => some omni
  | "x1440" => some x1440
  | _ => none

structure PushNotificationEvent where
  channelType : PlatformChannelType
  messageType : String
  message : String
  pollingEvent : Option PollingEvent

def parsePushNotificationEvent (jsonDecode : String → Option Json) (currentTimeMillis : ℤ)
    (message : String) : Option PushNotificationEvent := do
  let map ← (← jsonDecode message).asMap
  let payload ← (map.get "x1440Payload").asStr
  let newMap ← (← jsonDecode payload).asMap
  let channelType ← PlatformChannelType.valueOf (← (newMap.get "platformType").asStr)
  let messageType ← (newMap.get "messageType").asStr
  let message ← (newMap.get "message").asStr
  let pollingEvent ← parseEvent jsonDecode currentTimeMillis messageType message
  return { channelType, messageType, message, pollingEvent }

end ShimService.Cli
