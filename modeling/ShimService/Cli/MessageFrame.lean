import ShimService.Cli.SessionState

/-! What a message changes of a session's state: `_clone` loses a field and resets another. -/
namespace ShimService.Cli

inductive Field where
  -- The login flag and the user name.
  | login
  | presenceStatus
  | workAssignments
  | acceptedWorkIds
  | chatMessages
  | conversationMessages
  deriving DecidableEq

namespace PollingEvent

/-- The fields that the handler of an event sets or extends. -/
def fields (presenceStatuses : List PresenceStatus) : PollingEvent → List Field
  | .loginResult _ _ _ => [.login]
  | .presenceStatusChanged statusId _ =>
    if World.goesOffline presenceStatuses statusId then [.presenceStatus, .login]
    else [.presenceStatus]
  | .workAssigned _ _ _ _ _ => [.workAssignments]
  | .workAccepted _ => [.acceptedWorkIds]
  | .chatRequest _ _ _ | .chatEstablished _ _ _ => [.chatMessages]
  | .conversationMessage _ => [.conversationMessages]
  | .asyncResult _ _ => []

/-- What the handler makes of a state's contents. -/
def handled (v : SessionView) : PollingEvent → SessionView
  | .loginResult success userName _ => { v with loggedIn := success, userName := some userName }
  | .presenceStatusChanged statusId statusName =>
    if World.goesOffline v.presenceStatuses statusId then
      { v with presenceStatus := some statusName, loggedIn := false, userName := none }
    else { v with presenceStatus := some statusName }
  | .workAssigned _ workId workTargetId channelName _ =>
    { v with workAssignments := v.workAssignments ++ [⟨workId, workTargetId, channelName⟩] }
  | .workAccepted workId => { v with acceptedWorkIds := v.acceptedWorkIds ++ [workId] }
  | .chatRequest _ _ messages | .chatEstablished _ _ messages =>
    { v with chatMessages := v.chatMessages ++ messages }
  | .conversationMessage event =>
    { v with conversationMessages := v.conversationMessages ++ [event] }
  | .asyncResult _ _ => v

end PollingEvent

/-- The state counter goes up by one, and what the event's handler does not touch is kept. -/
structure Framed (event : PollingEvent) (v v' : SessionView) : Prop where
  stateCounter : v'.stateCounter = v.stateCounter + 1
  session : v'.orgId = v.orgId ∧ v'.token = v.token ∧
    v'.presenceStatuses = v.presenceStatuses ∧ v'.file = v.file
  login : .login ∉ event.fields v.presenceStatuses →
    v'.loggedIn = v.loggedIn ∧ v'.userName = v.userName
  presenceStatus : .presenceStatus ∉ event.fields v.presenceStatuses →
    v'.presenceStatus = v.presenceStatus
  workAssignments : v.workAssignments <+: v'.workAssignments ∧
    (.workAssignments ∉ event.fields v.presenceStatuses →
      v'.workAssignments = v.workAssignments)
  acceptedWorkIds : v.acceptedWorkIds <+: v'.acceptedWorkIds ∧
    (.acceptedWorkIds ∉ event.fields v.presenceStatuses →
      v'.acceptedWorkIds = v.acceptedWorkIds)
  chatMessages : v.chatMessages <+: v'.chatMessages ∧
    (.chatMessages ∉ event.fields v.presenceStatuses → v'.chatMessages = v.chatMessages)
  conversationMessages : v.conversationMessages <+: v'.conversationMessages ∧
    (.conversationMessages ∉ event.fields v.presenceStatuses →
      v'.conversationMessages = v.conversationMessages)

namespace World

variable {w : World} {this state : Ref} {s s' : SessionState} {v v' : SessionView}
  {event : PollingEvent}

/-- The object at a reference and the contents of its lists. -/
structure Shows (w : World) (this : Ref) (s : SessionState) (v : SessionView) : Prop where
  state : w.states.read this = some s
  workAssignments : w.workAssignments.read s.workAssignments = some v.workAssignments
  acceptedWorkIds : w.acceptedWorkIds.read s.acceptedWorkIds = some v.acceptedWorkIds
  chatMessages : w.chatMessages.read s.chatMessages = some v.chatMessages
  conversationMessages :
    w.conversationMessages.read s.conversationMessages = some v.conversationMessages
  fields : v = { v with
    orgId := s.orgId, token := s.token, presenceStatuses := s.presenceStatuses, file := s.file
    loggedIn := s.loggedIn, userName := s.userName, presenceStatus := s.presenceStatus
    stateCounter := s.stateCounter }

theorem view_eq_some : w.view this = some v ↔ ∃ s, Shows w this s v := by
  simp only [view, Option.bind_eq_bind, Option.bind_eq_some_iff]
  constructor
  · rintro ⟨s, hs, wa, hwa, ids, hids, chat, hchat, conv, hconv, heq⟩
    cases heq
    exact ⟨s, hs, hwa, hids, hchat, hconv, rfl⟩
  · rintro ⟨s, hs, hwa, hids, hchat, hconv, hfields⟩
    exact ⟨s, hs, _, hwa, _, hids, _, hchat, _, hconv, by rw [hfields]; rfl⟩

/-- Two states that share no list. -/
structure Apart (s s' : SessionState) : Prop where
  workAssignments : s.workAssignments ≠ s'.workAssignments
  acceptedWorkIds : s.acceptedWorkIds ≠ s'.acceptedWorkIds
  chatMessages : s.chatMessages ≠ s'.chatMessages
  conversationMessages : s.conversationMessages ≠ s'.conversationMessages

theorem construct_shows (h : Shows w this s v) (orgId token : String)
    (presenceStatuses : List PresenceStatus) (file : String) :
    ∃ state w' s', w.construct orgId token presenceStatuses file = (state, w') ∧ this ≠ state ∧
      Shows w' this s v ∧ w'.states.read state = some s' ∧ s' = { s' with
        orgId, token, presenceStatuses, file, presenceStatus := none, stateCounter := 0 } := by
  refine ⟨_, _, _, rfl, Heap.ne_next h.state, ?_, Heap.read_alloc_self, rfl⟩
  exact ⟨Heap.read_alloc h.state, Heap.read_alloc h.workAssignments,
    Heap.read_alloc h.acceptedWorkIds, Heap.read_alloc h.chatMessages,
    Heap.read_alloc h.conversationMessages, h.fields⟩

/-- The clone has new lists with the old contents; its presence status is not set, and its counter
is one. -/
theorem clone_shows (h : Shows w this s v) (ht : v.token ≠ "") :
    ∃ state w' s', w.clone this v.token v.presenceStatuses = some (state, w') ∧
      this ≠ state ∧ Shows w' this s v ∧ Apart s s' ∧
      Shows w' state s' { v with presenceStatus := none, stateCounter := 1 } := by
  obtain ⟨state, w', s', hconstruct, hne, hshows, hread, hs'⟩ :=
    construct_shows h s.orgId v.token v.presenceStatuses s.file
  simp only [clone, h.state, Option.bind_eq_bind, Option.bind_some, hconstruct, if_neg ht,
    hshows.chatMessages, hshows.conversationMessages, hshows.workAssignments,
    hshows.acceptedWorkIds]
  refine ⟨_, _, _, rfl, hne, ?_, ?_, ⟨Heap.read_modify_self hread, Heap.read_alloc_self,
    Heap.read_alloc_self, Heap.read_alloc_self, Heap.read_alloc_self, ?_⟩⟩
  · exact ⟨(Heap.read_modify_ne hne).trans hshows.state, Heap.read_alloc hshows.workAssignments,
      Heap.read_alloc hshows.acceptedWorkIds, Heap.read_alloc hshows.chatMessages,
      Heap.read_alloc hshows.conversationMessages, h.fields⟩
  · exact ⟨Heap.ne_next hshows.workAssignments, Heap.ne_next hshows.acceptedWorkIds,
      Heap.ne_next hshows.chatMessages, Heap.ne_next hshows.conversationMessages⟩
  · rw [hs', h.fields]
    rfl

/-- A handler works on the lists of its own state only. -/
theorem mapper_shows {handler : World → Ref → Option World} (hm : mapper event = some handler)
    (h : Shows w this s v) (h' : Shows w state s' v') (hne : this ≠ state) (hapart : Apart s s') :
    ∃ w' s'', handler w state = some w' ∧ Shows w' this s v ∧
      Shows w' state s'' (event.handled v') := by
  have hassign : ∀ f : SessionState → SessionState,
      Shows { w with states := w.states.modify state f } this s v := fun f =>
    ⟨(Heap.read_modify_ne hne).trans h.state, h.workAssignments, h.acceptedWorkIds,
      h.chatMessages, h.conversationMessages, h.fields⟩
  cases event with
  | loginResult success userName userId =>
    obtain rfl := Option.some.inj hm
    refine ⟨_, _, rfl, hassign _, Heap.read_modify_self h'.state, h'.workAssignments,
      h'.acceptedWorkIds, h'.chatMessages, h'.conversationMessages, ?_⟩
    rw [PollingEvent.handled, h'.fields]
  | presenceStatusChanged statusId statusName =>
    obtain rfl := Option.some.inj hm
    have hstatuses : s'.presenceStatuses = v'.presenceStatuses := by rw [h'.fields]
    by_cases hoff : goesOffline v'.presenceStatuses statusId = true
    · have hhandled : (PollingEvent.presenceStatusChanged statusId statusName).handled v' =
          { v' with presenceStatus := some statusName, loggedIn := false, userName := none } :=
        if_pos hoff
      rw [hhandled]
      refine ⟨_, { s' with
          presenceStatus := some statusName, loggedIn := false, userName := none }, rfl,
        hassign _, ?_, h'.workAssignments, h'.acceptedWorkIds, h'.chatMessages,
        h'.conversationMessages, by rw [h'.fields]⟩
      rw [Heap.read_modify_self h'.state, hstatuses, if_pos hoff]
    · have hhandled : (PollingEvent.presenceStatusChanged statusId statusName).handled v' =
          { v' with presenceStatus := some statusName } := if_neg hoff
      rw [hhandled]
      refine ⟨_, { s' with presenceStatus := some statusName }, rfl, hassign _, ?_,
        h'.workAssignments, h'.acceptedWorkIds, h'.chatMessages, h'.conversationMessages,
        by rw [h'.fields]⟩
      rw [Heap.read_modify_self h'.state, hstatuses, if_neg hoff]
  | workAssigned receivedAt workId workTargetId channelName psrDateAdded =>
    obtain rfl := Option.some.inj hm
    simp only [workAssigned, h'.state, Option.bind_eq_bind, Option.bind_some]
    exact ⟨_, s', rfl, ⟨h.state, (Heap.read_modify_ne hapart.workAssignments).trans
      h.workAssignments, h.acceptedWorkIds, h.chatMessages, h.conversationMessages, h.fields⟩,
      h'.state, Heap.read_modify_self h'.workAssignments, h'.acceptedWorkIds, h'.chatMessages,
      h'.conversationMessages, by rw [PollingEvent.handled, h'.fields]⟩
  | workAccepted workId =>
    obtain rfl := Option.some.inj hm
    simp only [workAccepted, h'.state, Option.bind_eq_bind, Option.bind_some]
    exact ⟨_, s', rfl, ⟨h.state, h.workAssignments,
      (Heap.read_modify_ne hapart.acceptedWorkIds).trans h.acceptedWorkIds, h.chatMessages,
      h.conversationMessages, h.fields⟩,
      h'.state, h'.workAssignments, Heap.read_modify_self h'.acceptedWorkIds, h'.chatMessages,
      h'.conversationMessages, by rw [PollingEvent.handled, h'.fields]⟩
  | chatRequest receivedAt workTargetId messages
  | chatEstablished receivedAt workTargetId messages =>
    obtain rfl := Option.some.inj hm
    simp only [addChatMessages, h'.state, Option.bind_eq_bind, Option.bind_some]
    exact ⟨_, s', rfl, ⟨h.state, h.workAssignments, h.acceptedWorkIds,
      (Heap.read_modify_ne hapart.chatMessages).trans h.chatMessages, h.conversationMessages,
      h.fields⟩,
      h'.state, h'.workAssignments, h'.acceptedWorkIds, Heap.read_modify_self h'.chatMessages,
      h'.conversationMessages, by rw [PollingEvent.handled, h'.fields]⟩
  | conversationMessage event =>
    obtain rfl := Option.some.inj hm
    simp only [conversationMessage, h'.state, Option.bind_eq_bind, Option.bind_some]
    exact ⟨_, s', rfl, ⟨h.state, h.workAssignments, h.acceptedWorkIds, h.chatMessages,
      (Heap.read_modify_ne hapart.conversationMessages).trans h.conversationMessages, h.fields⟩,
      h'.state, h'.workAssignments, h'.acceptedWorkIds, h'.chatMessages,
      Heap.read_modify_self h'.conversationMessages, by rw [PollingEvent.handled, h'.fields]⟩
  | asyncResult sequence success => cases hm

variable {jsonDecode : String → Option Json} {currentTimeMillis : ℤ} {body : String}
  {pushEvent : PushNotificationEvent}

/-- A handled message leaves the old state as it is, and returns a new one made from a clone
without presence status and with the counter one. -/
theorem processMessage_view (eventList : Option (List PushNotificationEvent))
    (hview : w.view this = some v) (htoken : v.token ≠ "")
    (hparse : parsePushNotificationEvent jsonDecode currentTimeMillis body = some pushEvent)
    (hevent : pushEvent.pollingEvent = some event) (hhandled : (mapper event).isSome) :
    ∃ state w' events,
      w.processMessage jsonDecode currentTimeMillis this body eventList =
        some (state, w', events) ∧
      w'.view this = some v ∧
      w'.view state =
        some (event.handled { v with presenceStatus := none, stateCounter := 1 }) := by
  obtain ⟨s, h⟩ := view_eq_some.mp hview
  obtain ⟨handler, hm⟩ := Option.isSome_iff_exists.mp hhandled
  obtain ⟨state, w₁, s', hclone, hne, hold, hapart, hnew⟩ := clone_shows h htoken
  obtain ⟨w₂, s'', hrun, hold', hnew'⟩ := mapper_shows hm hold hnew hne hapart
  have hself : s.token = v.token ∧ s.presenceStatuses = v.presenceStatuses := by
    rw [h.fields]
    exact ⟨rfl, rfl⟩
  have hkept := view_eq_some.mpr ⟨s, hold'⟩
  have hsaved := view_eq_some.mpr ⟨s'', hnew'⟩
  simp only [processMessage, hparse, hevent, Option.bind_eq_bind, Option.bind_some, hm, h.state,
    hself.1, hself.2, hclone, hrun, save, hsaved]
  exact ⟨state, _, _, rfl, hkept, hsaved⟩

end World

/-- Of a clone, an event frames the old contents if the counter was zero and the presence status was
not set or is set by the event. -/
theorem framed_handled_iff {event : PollingEvent} {v : SessionView} :
    Framed event v (event.handled { v with presenceStatus := none, stateCounter := 1 }) ↔
      v.stateCounter = 0 ∧ (v.presenceStatus = none ∨
        ∃ statusId statusName, event = .presenceStatusChanged statusId statusName) := by
  constructor
  · intro h
    have hcounter : v.stateCounter = 0 := by
      have hone := h.stateCounter
      cases event <;> simp only [PollingEvent.handled] at hone
      case presenceStatusChanged => split at hone <;> dsimp only at hone <;> omega
      all_goals omega
    refine ⟨hcounter, ?_⟩
    cases event with
    | presenceStatusChanged statusId statusName => exact .inr ⟨statusId, statusName, rfl⟩
    | _ => exact .inl (h.presenceStatus (by simp [PollingEvent.fields])).symm
  · rintro ⟨hcounter, hstatus⟩
    cases event with
    | presenceStatusChanged statusId statusName =>
      by_cases hoff : World.goesOffline v.presenceStatuses statusId = true
      · constructor <;> simp [PollingEvent.handled, PollingEvent.fields, hoff, hcounter]
      · constructor <;> simp [PollingEvent.handled, PollingEvent.fields, hoff, hcounter]
    | _ =>
      have hnone : v.presenceStatus = none := by simpa using hstatus
      constructor <;> simp [PollingEvent.handled, PollingEvent.fields, hcounter, hnone]

/-- A call returns a state whose contents the event frames, and leaves the old state as it is. -/
def FramesOld (jsonDecode : String → Option Json) (currentTimeMillis : ℤ) (w : World) (this : Ref)
    (v : SessionView) (body : String) (event : PollingEvent) : Prop :=
  ∃ state w' events v',
    w.processMessage jsonDecode currentTimeMillis this body none = some (state, w', events) ∧
      w'.view this = some v ∧ w'.view state = some v' ∧ Framed event v v'

theorem framed_of_framesOld {jsonDecode : String → Option Json} {currentTimeMillis : ℤ}
    {w : World} {this : Ref} {v : SessionView} {body : String}
    {pushEvent : PushNotificationEvent} {event : PollingEvent} (hview : w.view this = some v)
    (htoken : v.token ≠ "")
    (hparse : parsePushNotificationEvent jsonDecode currentTimeMillis body = some pushEvent)
    (hevent : pushEvent.pollingEvent = some event) (hhandled : (World.mapper event).isSome)
    (h : FramesOld jsonDecode currentTimeMillis w this v body event) :
    Framed event v (event.handled { v with presenceStatus := none, stateCounter := 1 }) := by
  obtain ⟨state, w', events, hrun, _, hnew⟩ :=
    World.processMessage_view none hview htoken hparse hevent hhandled
  obtain ⟨state', w'', events', v', hrun', _, hnew', hframed⟩ := h
  obtain ⟨rfl, rfl, rfl⟩ : state = state' ∧ w' = w'' ∧ events = events' := by
    simpa using hrun.symm.trans hrun'
  obtain rfl := Option.some.inj (hnew.symm.trans hnew')
  exact hframed

/-- The frame of a handled message holds exactly of a state with the counter zero and no presence
status that the message does not set. -/
theorem framesOld_iff {jsonDecode : String → Option Json} {currentTimeMillis : ℤ} {w : World}
    {this : Ref} {v : SessionView} {body : String} {pushEvent : PushNotificationEvent}
    {event : PollingEvent} (hview : w.view this = some v) (htoken : v.token ≠ "")
    (hparse : parsePushNotificationEvent jsonDecode currentTimeMillis body = some pushEvent)
    (hevent : pushEvent.pollingEvent = some event) (hhandled : (World.mapper event).isSome) :
    FramesOld jsonDecode currentTimeMillis w this v body event ↔
      v.stateCounter = 0 ∧ (v.presenceStatus = none ∨
        ∃ statusId statusName, event = .presenceStatusChanged statusId statusName) := by
  rw [← framed_handled_iff]
  refine ⟨framed_of_framesOld hview htoken hparse hevent hhandled, fun hframed => ?_⟩
  obtain ⟨state, w', events, hrun, hold, hnew⟩ :=
    World.processMessage_view none hview htoken hparse hevent hhandled
  exact ⟨state, w', events, _, hrun, hold, hnew, hframed⟩

/-- A message that says that some work was accepted. -/
def acceptedMessage : String := "\x7b\"workId\":\"w\"\x7d"

def acceptedPayload : String :=
  "\x7b\"platformType\":\"omni\",\"messageType\":\"Presence/WorkAccepted\"," ++
    "\"message\":\"\x7b\\\"workId\\\":\\\"w\\\"\x7d\"\x7d"

def acceptedBody : String :=
  "\x7b\"x1440Payload\":\"\x7b\\\"platformType\\\":\\\"omni\\\"," ++
    "\\\"messageType\\\":\\\"Presence/WorkAccepted\\\"," ++
      "\\\"message\\\":\\\"\x7b\\\\\\\"workId\\\\\\\":\\\\\\\"w\\\\\\\"\x7d\\\"\x7d\"\x7d"

/-- What the decoder makes of the three texts. -/
def decodeAccepted (text : String) : Option Json :=
  if text = acceptedBody then some (.map [("x1440Payload", .str acceptedPayload)])
  else if text = acceptedPayload then
    some (.map [("platformType", .str "omni"), ("messageType", .str "Presence/WorkAccepted"),
      ("message", .str acceptedMessage)])
  else if text = acceptedMessage then some (.map [("workId", .str "w")])
  else none

theorem parse_acceptedBody : parsePushNotificationEvent decodeAccepted 0 acceptedBody =
    some ⟨.omni, "Presence/WorkAccepted", acceptedMessage, some (.workAccepted "w")⟩ := by
  have hbody : decodeAccepted acceptedBody =
      some (.map [("x1440Payload", .str acceptedPayload)]) := if_pos rfl
  have hpayload : decodeAccepted acceptedPayload =
      some (.map [("platformType", .str "omni"), ("messageType", .str "Presence/WorkAccepted"),
        ("message", .str acceptedMessage)]) := by
    rw [decodeAccepted, if_neg (by decide +kernel), if_pos rfl]
  have hmessage : decodeAccepted acceptedMessage = some (.map [("workId", .str "w")]) := by
    rw [decodeAccepted, if_neg (by decide +kernel), if_neg (by decide +kernel), if_pos rfl]
  simp [parsePushNotificationEvent, hbody, hpayload, Json.asMap, Node.get, Json.asStr,
    List.lookup_cons, PlatformChannelType.valueOf, parseEvent, hmessage, eventBuilders,
    EventType.name, workAcceptedEvent]

/-- A state after one message of its session. -/
def sampleWorld (stateCounter : ℤ) (presenceStatus : Option String) : World where
  states := ⟨[{
    orgId := "org", token := "token", presenceStatuses := [], file := "file", loggedIn := true
    userName := some "user", presenceStatus, workAssignments := 0, acceptedWorkIds := 0
    chatMessages := 0, conversationMessages := 0, stateCounter }]⟩
  workAssignments := ⟨[[]]⟩
  acceptedWorkIds := ⟨[[]]⟩
  chatMessages := ⟨[[]]⟩
  conversationMessages := ⟨[[]]⟩
  files := fun _ => none

def sampleView (stateCounter : ℤ) (presenceStatus : Option String) : SessionView where
  orgId := "org"
  token := "token"
  presenceStatuses := []
  file := "file"
  loggedIn := true
  userName := some "user"
  presenceStatus := presenceStatus
  workAssignments := []
  acceptedWorkIds := []
  chatMessages := []
  conversationMessages := []
  stateCounter := stateCounter

theorem framesOld_first_message :
    FramesOld decodeAccepted 0 (sampleWorld 0 none) 0 (sampleView 0 none) acceptedBody
      (.workAccepted "w") :=
  (framesOld_iff rfl (by decide) parse_acceptedBody rfl rfl).mpr ⟨rfl, .inl rfl⟩

/-- The second message sets the counter to one again, and the presence status is gone. -/
theorem second_message_not_framed :
    ¬ FramesOld decodeAccepted 0 (sampleWorld 1 (some "Online")) 0 (sampleView 1 (some "Online"))
      acceptedBody (.workAccepted "w") := by
  intro h
  have hframed := framed_of_framesOld rfl (by decide) parse_acceptedBody rfl rfl h
  exact absurd (framed_handled_iff.mp hframed).1 (by decide)

end ShimService.Cli
