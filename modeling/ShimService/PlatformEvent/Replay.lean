import ShimService.PlatformEvent.Stream
import ShimService.Tenant.NoLostUpdate

/-! What a poll leaves in the tenant's context, and with which events the next one begins. -/
namespace ShimService.PlatformEvent

open CondTable TenantContextRepo

variable {ε : Type*} {o : Outcomes ε} {table table' : Table ℕ TenantContext} {tenantId other : ℕ}
  {context : TenantContext} {settings : ContextSettings} {p : Progress ε}
  {records : List (Notification ε)} {record : Notification ε} {start tip tip' : ℕ}
  {position : List ℕ → ℕ} {place : ε → ℕ}

/-- Every event of the record was dispatched. -/
def allDispatched (entry : Notification ε × ℕ) : Bool := entry.2 = entry.1.events.length

/-- The last record all of whose events were dispatched. -/
def lastDispatched (received : List (Notification ε × ℕ)) : Option (Notification ε) :=
  (received.filter allDispatched).getLast?.map Prod.fst

/-- The replay id stored is that of the last record all of whose events were dispatched, or the one
stored before. -/
def ReplayIdKept (o : Outcomes ε) (table : Table ℕ TenantContext) (tenantId : ℕ) : Prop :=
  let result := poll o table tenantId
  (storedContext result.table tenantId).data = (storedContext table tenantId).data ∨
    ∃ record, lastDispatched result.received = some record ∧
      (storedContext result.table tenantId).data = ⟨some record.latestReplayId⟩

/-- The place in the event bus that a subscription starts after, which is the tip of it for
LATEST. `position` is that of a replay id. -/
def startsAfter (position : List ℕ → ℕ) (tip : ℕ) (request : FetchRequest) : ℕ :=
  match request.replayPreset with
  | .latest => tip
  | .custom => position request.replayId

/-- The service delivers the events after the start in order, and a record's latest replay id
covers its events and those before it. -/
def Delivers (position : List ℕ → ℕ) (place : ε → ℕ) : ℕ → List (Notification ε) → Prop
  | _, [] => True
  | start, record :: rest =>
    start ≤ position record.latestReplayId ∧
      (∀ event ∈ record.events,
        start < place event.1 ∧ place event.1 ≤ position record.latestReplayId) ∧
      Delivers position place (position record.latestReplayId) rest

/-- The next subscription starts before every event received that was not dispatched. -/
def NeverSkips (position : List ℕ → ℕ) (place : ε → ℕ) (tip : ℕ) (o : Outcomes ε)
    (table : Table ℕ TenantContext) (tenantId : ℕ) : Prop :=
  let result := poll o table tenantId
  ∀ entry ∈ result.received, ∀ event ∈ entry.1.events.drop entry.2,
    startsAfter position tip (fetchRequest (storedContext result.table tenantId).data) <
      place event.1

theorem send_cases (r : Request) (table : Table ℕ TenantContext)
    (written : Option (Table ℕ TenantContext)) :
    (r.send table written).1 = table ∨ written = some (r.send table written).1 := by
  cases r <;> cases written <;> simp [Request.send]

theorem storedContext_patched (h : patchContext table tenantId context = some table') :
    (storedContext table' tenantId).data = context.data := by
  obtain ⟨row, _, _, rfl⟩ := patchContext_eq_some.mp h
  simp [storedContext, findContext, AbstractAwsRepo.find]

theorem storedContext_created (h : createContext table tenantId context = some table') :
    (storedContext table' tenantId).data = context.data := by
  obtain ⟨_, rfl⟩ := createContext_eq_some.mp h
  simp [storedContext, findContext, AbstractAwsRepo.find]

/-- Wherever a request of it raises, it stores the data or leaves what was stored. -/
theorem setContextData_stored :
    (storedContext (setContextData o table tenantId context settings).1 tenantId).data =
        (storedContext table tenantId).data ∨
      (storedContext (setContextData o table tenantId context settings).1 tenantId).data =
        settings := by
  have hpatched : ∀ {table' answer}, o.patch.send table
      (patchContext table tenantId { context with data := settings }) = (table', answer) →
        (storedContext table' tenantId).data = (storedContext table tenantId).data ∨
          (storedContext table' tenantId).data = settings := by
    intro table' answer hsent
    have hpatch := send_cases o.patch table
      (patchContext table tenantId { context with data := settings })
    rw [hsent] at hpatch
    exact hpatch.imp (fun h => congrArg (fun table => (storedContext table tenantId).data) h)
      storedContext_patched
  simp only [setContextData]
  split
  · rename_i hsent
    exact hpatched hsent
  · rename_i hsent
    exact hpatched hsent
  · rename_i table' hsent
    rcases send_cases o.create table'
      (createContext table' tenantId { context with data := settings }) with h | h
    · rw [h]
      exact hpatched hsent
    · exact .inr (storedContext_created h)

theorem close_stored (s : PubSubStream) (o : Outcomes ε) (table : Table ℕ TenantContext)
    (tenantId : ℕ) :
    (storedContext (s.close o table tenantId).1 tenantId).data =
        (storedContext table tenantId).data ∨
      s.settings ≠ s.initialSettings ∧
        (storedContext (s.close o table tenantId).1 tenantId).data = s.settings := by
  unfold PubSubStream.close
  split
  · exact .inl rfl
  · split
    · rename_i hchanged
      exact setContextData_stored.imp_right fun h => ⟨hchanged, h⟩
    · exact .inl rfl

/-- The inner loop raises exactly where it leaves an event undispatched. -/
theorem handleEvents_raises (events : List (ε × Handling)) :
    (handleEvents events).2 = false ↔ (handleEvents events).1 = events.length := by
  induction events with
  | nil => simp [handleEvents]
  | cons event rest ih =>
    obtain ⟨event, handling⟩ := event
    cases handling <;> simp [handleEvents, ih]

theorem lastDispatched_all {received : List (Notification ε × ℕ)} {count : ℕ}
    (h : count = record.events.length) :
    lastDispatched (received ++ [(record, count)]) = some record := by
  simp [lastDispatched, List.filter_append, allDispatched, h]

theorem lastDispatched_not_all {received : List (Notification ε × ℕ)} {count : ℕ}
    (h : count ≠ record.events.length) :
    lastDispatched (received ++ [(record, count)]) = lastDispatched received := by
  simp [lastDispatched, List.filter_append, allDispatched, h]

/-- The settings of a stream that began with `initial` and has received these records. -/
def settingsAfter (initial : ContextSettings) (received : List (Notification ε × ℕ)) :
    ContextSettings :=
  ((lastDispatched received).map fun record => ⟨some record.latestReplayId⟩).getD initial

theorem receive_settings
    (h : p.stream.settings = settingsAfter p.stream.initialSettings p.received) :
    (receive records p).stream.settings =
      settingsAfter p.stream.initialSettings (receive records p).received := by
  induction records generalizing p with
  | nil => exact h
  | cons record rest ih =>
    have hraises := handleEvents_raises record.events
    unfold receive
    generalize handleEvents record.events = handled at hraises ⊢
    obtain ⟨count, raised⟩ := handled
    cases raised with
    | true =>
      have hcount : count ≠ record.events.length := fun h => by simpa using hraises.mpr h
      simp only [if_true, settingsAfter, lastDispatched_not_all hcount]
      exact h
    | false =>
      simp only [Bool.false_eq_true, if_false]
      apply ih (p := ⟨p.stream.submitNext (some record.latestReplayId),
        p.received ++ [(record, count)], p.raised⟩)
      simp only [settingsAfter, lastDispatched_all (hraises.mp rfl)]
      rfl

theorem receive_frame (records : List (Notification ε)) (p : Progress ε) :
    (receive records p).stream.initialSettings = p.stream.initialSettings ∧
      ∀ entry ∈ (receive records p).received, entry ∈ p.received ∨ entry.1 ∈ records := by
  induction records generalizing p with
  | nil => exact ⟨rfl, fun _ h => .inl h⟩
  | cons record rest ih =>
    have hmem : ∀ entry ∈ p.received ++ [(record, (handleEvents record.events).1)],
        entry ∈ p.received ∨ entry.1 ∈ record :: rest := by
      intro entry h
      rcases List.mem_append.mp h with h | h
      · exact .inl h
      · obtain rfl := List.mem_singleton.mp h
        exact .inr List.mem_cons_self
    simp only [receive]
    split
    · exact ⟨rfl, hmem⟩
    · obtain ⟨hinitial, hreceived⟩ := ih ⟨p.stream.submitNext (some record.latestReplayId),
        p.received ++ [(record, (handleEvents record.events).1)], p.raised⟩
      refine ⟨hinitial, fun entry h => ?_⟩
      rcases hreceived entry h with h | h
      · exact hmem entry h
      · exact .inr (List.mem_cons_of_mem _ h)

theorem delivers_after (h : Delivers position place start records) :
    ∀ record ∈ records, ∀ event ∈ record.events, start < place event.1 := by
  induction records generalizing start with
  | nil => nofun
  | cons first rest ih =>
    obtain ⟨hle, hfirst, hrest⟩ := h
    intro record hmem event hevent
    rcases List.mem_cons.mp hmem with rfl | hmem
    · exact (hfirst event hevent).1
    · exact Nat.lt_of_le_of_lt hle (ih hrest record hmem event hevent)

/-- The stream's settings never run ahead of what was dispatched. -/
theorem receive_undispatched (h : Delivers position place start records)
    (hstart : startsAfter position tip (fetchRequest p.stream.settings) = start)
    (hp : ∀ entry ∈ p.received, entry.1.events.drop entry.2 = []) :
    ∀ entry ∈ (receive records p).received, ∀ event ∈ entry.1.events.drop entry.2,
      startsAfter position tip (fetchRequest (receive records p).stream.settings) <
        place event.1 := by
  induction records generalizing p start with
  | nil =>
    intro entry hentry event hevent
    simp [hp entry hentry] at hevent
  | cons record rest ih =>
    obtain ⟨hle, hrecord, hrest⟩ := h
    have hraises := handleEvents_raises record.events
    unfold receive
    generalize handleEvents record.events = handled at hraises ⊢
    obtain ⟨count, raised⟩ := handled
    cases raised with
    | true =>
      simp only [if_true]
      intro entry hentry event hevent
      rcases List.mem_append.mp hentry with hentry | hentry
      · simp [hp entry hentry] at hevent
      · obtain rfl := List.mem_singleton.mp hentry
        rw [hstart]
        exact (hrecord event (List.mem_of_mem_drop hevent)).1
    | false =>
      simp only [Bool.false_eq_true, if_false]
      refine ih (p := ⟨p.stream.submitNext (some record.latestReplayId),
        p.received ++ [(record, count)], p.raised⟩) hrest rfl ?_
      intro entry hentry
      rcases List.mem_append.mp hentry with hentry | hentry
      · exact hp entry hentry
      · obtain rfl := List.mem_singleton.mp hentry
        exact List.drop_of_length_le (Nat.le_of_eq (hraises.mp rfl).symm)

/-- What the `with` block leaves. -/
theorem innerPoll_settings (o : Outcomes ε) (context : TenantContext) :
    (innerPoll o context).stream.initialSettings = context.data ∧
      (innerPoll o context).stream.settings =
        settingsAfter context.data (innerPoll o context).received := by
  unfold innerPoll PubSubStream.iter
  cases o.createChannel with
  | false => exact ⟨rfl, rfl⟩
  | true =>
    cases o.createStub && o.subscribe with
    | false => exact ⟨rfl, rfl⟩
    | true => exact ⟨(receive_frame _ _).1, receive_settings rfl⟩

theorem innerPoll_undispatched (h : Delivers position place
      (startsAfter position tip (fetchRequest context.data)) o.records) :
    ∀ entry ∈ (innerPoll o context).received, ∀ event ∈ entry.1.events.drop entry.2,
      startsAfter position tip (fetchRequest context.data) < place event.1 ∧
        startsAfter position tip (fetchRequest (innerPoll o context).stream.settings) <
          place event.1 := by
  unfold innerPoll PubSubStream.iter
  cases o.createChannel with
  | false => nofun
  | true =>
    cases o.createStub && o.subscribe with
    | false => nofun
    | true =>
      intro entry hentry event hevent
      refine ⟨?_, receive_undispatched h rfl (by simp) entry hentry event hevent⟩
      rcases (receive_frame _ _).2 entry hentry with hentry | hentry
      · cases hentry
      · exact delivers_after h _ hentry event (List.mem_of_mem_drop hevent)

theorem replayIdKept (o : Outcomes ε) (table : Table ℕ TenantContext) (tenantId : ℕ) :
    ReplayIdKept o table tenantId := by
  obtain ⟨hinitial, hsettings⟩ := innerPoll_settings o (storedContext table tenantId)
  rcases close_stored (innerPoll o (storedContext table tenantId)).stream o table tenantId with
    h | ⟨hchanged, h⟩
  · exact .inl h
  · rw [hinitial, hsettings, settingsAfter] at hchanged
    rw [hsettings, settingsAfter] at h
    refine .inr ?_
    cases hlast : lastDispatched (innerPoll o (storedContext table tenantId)).received with
    | none => simp [hlast] at hchanged
    | some record =>
      rw [hlast] at h
      exact ⟨record, hlast, h⟩

/-- Where LATEST is not what is asked for, the tip does not matter. -/
theorem startsAfter_tip {settings : ContextSettings} (h : settings.replayId ≠ none) :
    startsAfter position tip (fetchRequest settings) =
      startsAfter position tip' (fetchRequest settings) := by
  unfold fetchRequest
  split
  · contradiction
  · rfl

/-- Wherever a poll fails, the replay id it leaves is that of the last record all of whose events
were dispatched or the one it found, and where there is one, no later subscription skips an event
that was not dispatched. -/
theorem replays_undispatched_events (o : Outcomes ε) (table : Table ℕ TenantContext) (tenantId : ℕ)
    (position : List ℕ → ℕ) (place : ε → ℕ) (tip tip' : ℕ)
    (hservice : Delivers position place
      (startsAfter position tip (fetchRequest (storedContext table tenantId).data)) o.records) :
    ReplayIdKept o table tenantId ∧
      ((storedContext (poll o table tenantId).table tenantId).data.replayId ≠ none →
        NeverSkips position place tip' o table tenantId) := by
  refine ⟨replayIdKept o table tenantId, ?_⟩
  intro hid entry hentry event hevent
  obtain ⟨hbefore, hnow⟩ := innerPoll_undispatched hservice entry hentry event hevent
  rw [startsAfter_tip hid]
  rcases close_stored (innerPoll o (storedContext table tenantId)).stream o table tenantId with
    h | ⟨_, h⟩
  · exact (congrArg (fun data => startsAfter position tip (fetchRequest data)) h).trans_lt hbefore
  · exact (congrArg (fun data => startsAfter position tip (fetchRequest data)) h).trans_lt hnow

/-- A poll whose calls outside all return, up to the handling of these records. -/
def quietOutcomes (records : List (Notification ℕ)) : Outcomes ℕ :=
  ⟨true, true, true, records, false, true, .answered, .answered⟩

/-- The context of tenant 1 once the event at place 0 has been dispatched. -/
def polledTable : Table ℕ TenantContext :=
  Function.update (fun _ => none) 1 (some ⟨0, ⟨some [0]⟩⟩)

/-- Of two records the second fails, and the id of the first is stored. -/
theorem replays_second_record :
    (storedContext (poll (quietOutcomes [⟨[(1, .dispatched)], [1]⟩, ⟨[(2, .decodeRaises)], [2]⟩])
      polledTable 1).table 1).data = ⟨some [1]⟩ ∧
    NeverSkips (fun id => id.headD 0) id 2
      (quietOutcomes [⟨[(1, .dispatched)], [1]⟩, ⟨[(2, .decodeRaises)], [2]⟩]) polledTable 1 :=
  ⟨rfl, (replays_undispatched_events _ polledTable 1 (fun id => id.headD 0) id 0 2
    (by simp [Delivers, quietOutcomes, startsAfter, fetchRequest, storedContext, polledTable,
      findContext, AbstractAwsRepo.find])).2 nofun⟩

/-- The first poll of a tenant fails on its only event and leaves no replay id, so that the next
subscription asks for LATEST, which is after that event. -/
theorem first_poll_skips_failed_event : ¬ ∀ (o : Outcomes ℕ) (table : Table ℕ TenantContext)
    (tenantId : ℕ) (position : List ℕ → ℕ) (place : ℕ → ℕ) (tip tip' : ℕ),
    Delivers position place
      (startsAfter position tip (fetchRequest (storedContext table tenantId).data)) o.records →
    (∀ record ∈ o.records, ∀ event ∈ record.events, place event.1 ≤ tip') →
    ReplayIdKept o table tenantId ∧ NeverSkips position place tip' o table tenantId := by
  intro hall
  have hskips := (hall (quietOutcomes [⟨[(1, .dispatchRaises)], [1]⟩]) (fun _ => none) 1
    (fun id => id.headD 0) id 0 1
    (by simp [Delivers, quietOutcomes, startsAfter, fetchRequest, storedContext, findContext,
      AbstractAwsRepo.find, defaultContext]) (by simp [quietOutcomes])).2
  have hlt := hskips _ List.mem_cons_self _ List.mem_cons_self
  exact absurd hlt (by decide)

end ShimService.PlatformEvent
