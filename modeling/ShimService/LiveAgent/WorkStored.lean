import ShimService.LiveAgent.WorkEvents

/-! What the transaction of one event stores: the event, and the row of accepted work. -/
namespace ShimService.WorkIdMapRepo

open CondTable ExecuteWithEvent

variable {t u : Tables} {call : ApiCall} {data : EventData} {foundWorkId key : String}
  {ttlSeconds now seqNo sfdcResponse sfdcTime tenantId : ℕ}

/-- The data of the event of a call that Salesforce has answered. -/
def ApiCall.eventData (call : ApiCall) (foundWorkId : String) (sfdcResponse sfdcTime : ℕ) :
    EventData :=
  touched call.session
    (answered call.session sfdcResponse sfdcTime (call.action.eventData foundWorkId))

/-! ### The data of an event -/

theorem text_set_text (value : String) (j : String) :
    text (data.set key (.text value)) j = if j = key then some value else text data j := by
  unfold text
  rw [OrderedDict.find_set]
  by_cases hj : j = key <;> simp [hj]

theorem text_set_number (value : ℕ) (j : String) :
    text (data.set key (.number value)) j = if j = key then none else text data j := by
  unfold text
  rw [OrderedDict.find_set]
  by_cases hj : j = key <;> simp [hj]

theorem text_userId : text (call.eventData foundWorkId sfdcResponse sfdcTime) "userId" =
    some call.session.userId := by
  simp [ApiCall.eventData, touched, text_set_text]

theorem text_sessionId : text (call.eventData foundWorkId sfdcResponse sfdcTime) "sessionId" =
    some call.session.key.sessionId := by
  simp [ApiCall.eventData, touched, text_set_text]

/-- What an event says of its work is what the call has put there. -/
theorem text_eventData (hkey : key = "workId" ∨ key = "workTargetId") :
    text (call.eventData foundWorkId sfdcResponse sfdcTime) key =
      text (call.action.eventData foundWorkId) key := by
  rcases hkey with rfl | rfl <;>
    simp [ApiCall.eventData, touched, answered, text_set_text, text_set_number]

theorem text_workData_workId (workId workTargetId : String) :
    text (workData workId workTargetId) "workId" = some workId := by
  simp [workData, text_set_text]

theorem text_workData_workTargetId (workId workTargetId : String) :
    text (workData workId workTargetId) "workTargetId" = some workTargetId := by
  simp [workData, text_set_text]

/-! ### The row of accepted work -/

/-- The table of work after the event of a call. -/
def ApiCall.mapWork (call : ApiCall) (expireTime : ℕ) (works : WorkTable) : WorkTable :=
  match call.action with
  | .acceptWork workId workTargetId =>
    Function.update works (call.session.key.tenantId, workTargetId)
      (some ⟨call.session.userId, workId, call.session.key.sessionId, expireTime⟩)
  | _ => works

/-- The listener has all it needs of the event of accepted work, and no other event is its. -/
theorem eventReceived_eq (ttlSeconds now tenantId : ℕ) (call : ApiCall) (foundWorkId : String)
    (sfdcResponse sfdcTime : ℕ) : ∃ requests : List (Request Tables),
    eventReceived ttlSeconds now tenantId call.action.eventType
      (call.eventData foundWorkId sfdcResponse sfdcTime) = some requests ∧
    (tenantId = call.session.key.tenantId → ∀ t u, transact requests t = .ok u →
      u = { t with works := call.mapWork (getSystemTimeInSeconds now + ttlSeconds) t.works }) := by
  cases haction : call.action with
  | acceptWork workId workTargetId =>
    have hwork : text (call.eventData foundWorkId sfdcResponse sfdcTime) "workId" =
        some workId := by
      rw [text_eventData (.inl rfl), haction]
      exact text_workData_workId _ _
    have htarget : text (call.eventData foundWorkId sfdcResponse sfdcTime) "workTargetId" =
        some workTargetId := by
      rw [text_eventData (.inr rfl), haction]
      exact text_workData_workTargetId _ _
    simp only [Action.eventType, eventReceived, if_true, createPutItemRequestFromEvent,
      text_userId, text_sessionId, hwork, htarget, Option.bind_eq_bind, Option.bind_some,
      Option.map_some]
    refine ⟨_, rfl, ?_⟩
    rintro rfl t u hu
    obtain ⟨t', ht', hu⟩ := transact_cons_ok.mp hu
    obtain rfl := Option.some.inj ht'
    obtain rfl := transact_nil_ok.mp hu
    simp [ApiCall.mapWork, haction, Table.upsert]
  | declineWork workId workTargetId declineReason | closeWork workTargetId
  | sendWorkMessage workTargetId messageId | setPresenceStatus statusOption =>
    refine ⟨[], rfl, fun _ t u hu => ?_⟩
    obtain rfl := transact_nil_ok.mp hu
    simp [ApiCall.mapWork, haction]

/-! ### The transaction -/

/-- What the transaction of a call's event does, besides touching the rows of its session. -/
structure Stored (call : ApiCall) (data : EventData) (seqNo expireTime : ℕ) (t u : Tables) :
    Prop where
  free : t.db.events (call.session.key.tenantId, seqNo) = none
  events : u.db.events =
    Function.update t.db.events (call.session.key.tenantId, seqNo) (some call.event)
  eventData : u.eventData =
    Function.update t.eventData (call.session.key.tenantId, seqNo) (some data)
  works : u.works = call.mapWork expireTime t.works

/-- A touch of a row of the session leaves the events and the work as they are. -/
theorem onDb_keeps {write : Db.Write}
    (hwrite : ∀ db db', write db = some db' → db'.events = db.events)
    (h : onDb write t = some u) :
    (u.db.events, u.eventData, u.works) = (t.db.events, t.eventData, t.works) := by
  obtain ⟨db, hdb, rfl⟩ := Option.map_eq_some_iff.mp h
  rw [hwrite _ _ hdb]

theorem events_of_map {α : Type} {f : Db → Option α} {g : Db → α → Db}
    (hg : ∀ db a, (g db a).events = db.events) (db db' : Db)
    (h : (f db).map (g db) = some db') : db'.events = db.events := by
  obtain ⟨a, -, rfl⟩ := Option.map_eq_some_iff.mp h
  exact hg db a

theorem stored_of_touch
    (h : transact ((call.touch ttlSeconds now
      (call.eventData foundWorkId sfdcResponse sfdcTime)).requests seqNo) t = .ok u) :
    Stored call (call.eventData foundWorkId sfdcResponse sfdcTime) seqNo
      (getSystemTimeInSeconds now + ttlSeconds) t u := by
  unfold EventCall.requests at h
  obtain ⟨v, hv, hu⟩ := transact_append.mp h
  obtain ⟨w, hw, hv⟩ := transact_append.mp hv
  have hkept : (w.db.events, w.eventData, w.works) = (t.db.events, t.eventData, t.works) := by
    refine transact_keeps (f := fun t : Tables => (t.db.events, t.eventData, t.works)) ?_ hw
    intro write hmem s s' hwrite
    simp only [ApiCall.touch, List.mem_cons, List.not_mem_nil, or_false] at hmem
    rcases hmem with rfl | rfl | rfl <;>
    · refine onDb_keeps ?_ hwrite
      exact events_of_map fun _ _ => rfl
  obtain ⟨hevents, hdata, hworks⟩ : w.db.events = t.db.events ∧ w.eventData = t.eventData ∧
      w.works = t.works := by simpa using hkept
  obtain ⟨v', hv', hv⟩ := transact_cons_ok.mp hv
  obtain rfl := transact_nil_ok.mp hv
  obtain ⟨db, hdb, rfl⟩ := Option.map_eq_some_iff.mp hv'
  obtain ⟨events, hput, rfl⟩ := Option.map_eq_some_iff.mp hdb
  obtain ⟨hfree, rfl⟩ := Table.putNew_eq_some.mp hput
  obtain ⟨requests, hreceived, hrequests⟩ := eventReceived_eq ttlSeconds now
    call.session.key.tenantId call foundWorkId sfdcResponse sfdcTime
  simp only [ApiCall.touch, hreceived, Option.getD_some] at hu
  rw [hrequests rfl _ _ hu]
  exact ⟨hevents ▸ hfree, congrArg (Function.update · _ _) hevents,
    congrArg (Function.update · _ _) hdata, congrArg (call.mapWork _) hworks⟩

end ShimService.WorkIdMapRepo
