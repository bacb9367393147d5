import Mathlib.Logic.Function.Basic
import ShimService.Cli.PollingEvent
import ShimService.Library.Heap

/-!
`SessionState` of the command line client, as objects that refer to their lists. `none` stands for
an exception.
-/
namespace ShimService.Cli

inductive StatusOption where
  | online
  | busy
  | offline
  deriving DecidableEq

structure PresenceStatus where
  id : String
  label : String
  statusOption : StatusOption
  deriving DecidableEq

structure WorkAssignment where
  workId : String
  workTargetId : String
  channelName : String
  deriving DecidableEq

/-- Nothing changes the list of presence statuses, so the object has it itself. -/
structure SessionState where
  orgId : String
  token : String
  presenceStatuses : List PresenceStatus
  file : String
  loggedIn : Bool
  userName : Option String
  presenceStatus : Option String
  workAssignments : Ref
  acceptedWorkIds : Ref
  chatMessages : Ref
  conversationMessages : Ref
  stateCounter : ℤ

/-- A state with the contents of its lists, as `toMap` has them, and its file. -/
structure SessionView where
  orgId : String
  token : String
  presenceStatuses : List PresenceStatus
  file : String
  loggedIn : Bool
  userName : Option String
  presenceStatus : Option String
  workAssignments : List WorkAssignment
  acceptedWorkIds : List String
  chatMessages : List ChatMessage
  conversationMessages : List ConversationMessageEvent
  stateCounter : ℤ

/-- The objects, and what was saved to the files. -/
structure World where
  states : Heap SessionState
  workAssignments : Heap (List WorkAssignment)
  acceptedWorkIds : Heap (List String)
  chatMessages : Heap (List ChatMessage)
  conversationMessages : Heap (List ConversationMessageEvent)
  files : String → Option SessionView

namespace World

def view (w : World) (state : Ref) : Option SessionView := do
  let s ← w.states.read state
  return {
    orgId := s.orgId
    token := s.token
    presenceStatuses := s.presenceStatuses
    file := s.file
    loggedIn := s.loggedIn
    userName := s.userName
    presenceStatus := s.presenceStatus
    workAssignments := ← w.workAssignments.read s.workAssignments
    acceptedWorkIds := ← w.acceptedWorkIds.read s.acceptedWorkIds
    chatMessages := ← w.chatMessages.read s.chatMessages
    conversationMessages := ← w.conversationMessages.read s.conversationMessages
    stateCounter := s.stateCounter }

/-- The constructor, with empty lists of the state's own. -/
def construct (w : World) (orgId token : String) (presenceStatuses : List PresenceStatus)
    (file : String) : Ref × World :=
  let (workAssignments, workHeap) := w.workAssignments.alloc []
  let (acceptedWorkIds, idHeap) := w.acceptedWorkIds.alloc []
  let (chatMessages, chatHeap) := w.chatMessages.alloc []
  let (conversationMessages, conversationHeap) := w.conversationMessages.alloc []
  let (state, states) := w.states.alloc {
    orgId, token, presenceStatuses, file, workAssignments, acceptedWorkIds, chatMessages
    conversationMessages
    loggedIn := false
    userName := none
    presenceStatus := none
    stateCounter := 0 }
  (state, { w with
    states
    workAssignments := workHeap
    acceptedWorkIds := idHeap
    chatMessages := chatHeap
    conversationMessages := conversationHeap })

/-- `_clone`, whose `List.of` copies into new lists. -/
def clone (w : World) (this : Ref) (token : String) (presenceStatuses : List PresenceStatus) :
    Option (Ref × World) := do
  let self ← w.states.read this
  let (state, w) := w.construct self.orgId token presenceStatuses self.file
  if token = "" then return (state, w)
  else
    let (chatMessages, chatHeap) :=
      w.chatMessages.alloc (← w.chatMessages.read self.chatMessages)
    let (conversationMessages, conversationHeap) :=
      w.conversationMessages.alloc (← w.conversationMessages.read self.conversationMessages)
    let (workAssignments, workHeap) :=
      w.workAssignments.alloc (← w.workAssignments.read self.workAssignments)
    let (acceptedWorkIds, idHeap) :=
      w.acceptedWorkIds.alloc (← w.acceptedWorkIds.read self.acceptedWorkIds)
    let states := w.states.modify state fun s => { s with
      loggedIn := self.loggedIn
      userName := self.userName
      chatMessages, conversationMessages, workAssignments, acceptedWorkIds
      stateCounter := s.stateCounter + 1 }
    return (state, { w with
      states
      chatMessages := chatHeap
      conversationMessages := conversationHeap
      workAssignments := workHeap
      acceptedWorkIds := idHeap })

/-- Assigns fields of a state. -/
def assign (w : World) (state : Ref) (f : SessionState → SessionState) : Option World :=
  some { w with states := w.states.modify state f }

def loginResult (success : Bool) (userName : String) (w : World) (state : Ref) : Option World :=
  w.assign state fun s => { s with loggedIn := success, userName := some userName }

/-- The status that the event names is offline. -/
def goesOffline (presenceStatuses : List PresenceStatus) (statusId : String) : Bool :=
  match presenceStatuses.find? fun element => element.id = statusId with
  | some status => status.statusOption = .offline
  | none => false

def presenceStatusChanged (statusId statusName : String) (w : World) (state : Ref) :
    Option World :=
  w.assign state fun s =>
    if goesOffline s.presenceStatuses statusId then
      { s with presenceStatus := some statusName, loggedIn := false, userName := none }
    else { s with presenceStatus := some statusName }

def workAssigned (assignment : WorkAssignment) (w : World) (state : Ref) : Option World := do
  let s ← w.states.read state
  return { w with
    workAssignments := w.workAssignments.modify s.workAssignments (· ++ [assignment]) }

def workAccepted (workId : String) (w : World) (state : Ref) : Option World := do
  let s ← w.states.read state
  return { w with acceptedWorkIds := w.acceptedWorkIds.modify s.acceptedWorkIds (· ++ [workId]) }

/-- `_chatEstablished` and `_chatRequest`. -/
def addChatMessages (messages : List ChatMessage) (w : World) (state : Ref) : Option World := do
  let s ← w.states.read state
  return { w with chatMessages := w.chatMessages.modify s.chatMessages (· ++ messages) }

def conversationMessage (event : ConversationMessageEvent) (w : World) (state : Ref) :
    Option World := do
  let s ← w.states.read state
  return { w with
    conversationMessages := w.conversationMessages.modify s.conversationMessages (· ++ [event]) }

/-- The handler that the `mapper` has for an event. -/
def mapper : PollingEvent → Option (World → Ref → Option World)
  | .loginResult success userName _ => some (loginResult success userName)
  | .presenceStatusChanged statusId statusName => some (presenceStatusChanged statusId statusName)
  | .workAssigned _ workId workTargetId channelName _ =>
    some (workAssigned ⟨workId, workTargetId, channelName⟩)
  | .workAccepted workId => some (workAccepted workId)
  | .chatEstablished _ _ messages | .chatRequest _ _ messages => some (addChatMessages messages)
  | .conversationMessage event => some (conversationMessage event)
  | .asyncResult _ _ => none

def save (w : World) (state : Ref) : Option World := do
  let v ← w.view state
  return { w with files := Function.update w.files v.file (some v) }

/-- The state that is returned, and the list of events where there is one. -/
def processMessage (jsonDecode : String → Option Json) (currentTimeMillis : ℤ) (w : World)
    (this : Ref) (body : String) (eventList : Option (List PushNotificationEvent)) :
    Option (Ref × World × Option (List PushNotificationEvent)) := do
  let pushEvent ← parsePushNotificationEvent jsonDecode currentTimeMillis body
  let eventList := eventList.map (· ++ [pushEvent])
  match pushEvent.pollingEvent.bind mapper with
  | none => return (this, w, eventList)
  | some handler =>
    let self ← w.states.read this
    let (newState, w) ← w.clone this self.token self.presenceStatuses
    let w ← handler w newState
    let w ← w.save newState
    return (newState, w, eventList)

end World

end ShimService.Cli
