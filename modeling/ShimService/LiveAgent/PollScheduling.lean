import ShimService.Library.Transition
import ShimService.LiveAgent.Polling

/-! Every active session with live-agent polling has one pending event, in every run. -/
namespace ShimService.LiveAgentPoll

open CondTable Db Transition

variable {s t : State} {a : Act} {xs : List Act} {db db' : Db} {k : SessionKey}
  {session : Session} {event event' : PendingEvent} {now seqNo : ℕ} {created : List SessionKey}

def EventAt (db : Db) (k : SessionKey) (activeAt : ℕ) : Prop :=
  db.pendingEvents (activeAt, k) ≠ none

def ActiveItem (r : SessionItem) : Prop := r.sessionStatus = some .active

/-- The item of a session with live-agent polling. -/
def OmniItem (r : SessionItem) : Prop := r.platformChannels "omni" = true

/-- A session id has at most one event, and an active session with the omni channel has one. -/
structure Scheduled (db : Db) : Prop where
  once : ∀ k activeAt activeAt', EventAt db k activeAt → EventAt db k activeAt' →
    activeAt = activeAt'
  active : ∀ k r, db.sessions k = some r → ActiveItem r → OmniItem r →
    ∃ activeAt, EventAt db k activeAt

/-- A session that has been activated with polling: its row can be active only with the omni
channel. Every event is of such a session. -/
def Polled (db : Db) (k : SessionKey) : Prop :=
  db.sfdcSessions k ≠ none ∧ ∀ r, db.sessions k = some r → ActiveItem r → OmniItem r

/-- A session that was activated once and is not active any more. -/
def Dead (db : Db) (k : SessionKey) : Prop :=
  db.sfdcSessions k ≠ none ∧ ∀ r, db.sessions k = some r → ¬ ActiveItem r

/-- What holds of the rows of one session id. -/
structure KeyOk (db : Db) (k : SessionKey) : Prop where
  polled : ∀ activeAt, EventAt db k activeAt → Polled db k
  once : ∀ activeAt activeAt', EventAt db k activeAt → EventAt db k activeAt' →
    activeAt = activeAt'
  sfdc : ∀ r, db.sessions k = some r → ActiveItem r → db.sfdcSessions k ≠ none
  context : ∀ r, db.sessions k = some r → ActiveItem r → OmniItem r →
    db.contexts (k, .liveAgent) ≠ none
  event : ∀ r, db.sessions k = some r → ActiveItem r → OmniItem r →
    ∃ activeAt, EventAt db k activeAt

/-- A session read from the store agrees with its row, unless the row is one that a failure has
made from nothing. -/
def CopyOk (db : Db) (session : Session) : Prop :=
  ∀ r, db.sessions session.key = some r → r.stateCounter.isSome →
    (OmniItem r ↔ session.hasLiveAgentPolling = true)

/-- What a worker that stands there knows of its event's session. -/
def WorkerOk (db : Db) : Worker → Prop
  | .idle => True
  | .found event | .polling event | .saving event | .rescheduling event | .shutDown event
  | .failing event _ => Polled db event.key
  | .gone event | .dropping event => Dead db event.key
  | .reading event reads => Polled db event.key ∧
      (reads.session = some none → Dead db event.key) ∧ reads.sfdc ≠ some none ∧
      (reads.context = some none → Dead db event.key)

structure Inv (s : State) : Prop where
  keys : ∀ k, KeyOk s.db k
  created : ∀ k r, s.db.sessions k = some r → r.stateCounter.isSome → k ∈ s.created
  copyCreated : ∀ c session, s.clients c = some session → session.key ∈ s.created
  copies : ∀ c session, s.clients c = some session → CopyOk s.db session
  workers : ∀ w, WorkerOk s.db (s.workers w)

/-- The rows of a session id are the same in both stores. -/
structure SameAt (db db' : Db) (k : SessionKey) : Prop where
  sessions : db'.sessions k = db.sessions k
  sfdc : db'.sfdcSessions k = db.sfdcSessions k
  context : db'.contexts (k, .liveAgent) = db.contexts (k, .liveAgent)
  events : ∀ activeAt, db'.pendingEvents (activeAt, k) = db.pendingEvents (activeAt, k)

namespace SameAt

theorem refl : SameAt db db k := ⟨rfl, rfl, rfl, fun _ => rfl⟩

theorem polled (h : SameAt db db' k) : Polled db' k ↔ Polled db k := by
  simp only [Polled, h.sessions, h.sfdc]

theorem dead (h : SameAt db db' k) : Dead db' k ↔ Dead db k := by
  simp only [Dead, h.sessions, h.sfdc]

theorem keyOk (h : SameAt db db' k) (hk : KeyOk db k) : KeyOk db' k := by
  constructor
  · simpa only [EventAt, h.events, h.polled] using hk.polled
  · simpa only [EventAt, h.events] using hk.once
  · simpa only [h.sessions, h.sfdc] using hk.sfdc
  · simpa only [h.sessions, h.context] using hk.context
  · simpa only [EventAt, h.sessions, h.events] using hk.event

end SameAt

/-- A change of the store that keeps what workers know. -/
structure Evolves (db db' : Db) : Prop where
  keys : ∀ k, KeyOk db' k
  polled : ∀ k, Polled db k → Polled db' k
  dead : ∀ k, Dead db k → Dead db' k

/-- Every item with a counter was there with the same channels. -/
def RowsFrom (db db' : Db) : Prop :=
  ∀ k r', db'.sessions k = some r' → r'.stateCounter.isSome →
    ∃ r, db.sessions k = some r ∧ r.stateCounter.isSome ∧ (OmniItem r ↔ OmniItem r')

/-- A change of one session id's rows. -/
theorem evolves_of_key (hothers : ∀ j, j ≠ k → SameAt db db' j) (hk : ∀ j, KeyOk db j)
    (hkey : KeyOk db' k) (hpolled : Polled db k → Polled db' k)
    (hdead : Dead db k → Dead db' k) : Evolves db db' := by
  constructor
  · intro j
    by_cases hj : j = k
    · exact hj ▸ hkey
    · exact (hothers j hj).keyOk (hk j)
  · intro j
    by_cases hj : j = k
    · subst hj
      exact hpolled
    · exact (hothers j hj).polled.mpr
  · intro j
    by_cases hj : j = k
    · subst hj
      exact hdead
    · exact (hothers j hj).dead.mpr

theorem RowsFrom.of_sessions (h : db'.sessions = db.sessions) : RowsFrom db db' := by
  intro k r' hr' hcounter
  exact ⟨r', h ▸ hr', hcounter, Iff.rfl⟩

theorem Evolves.workerOk (h : Evolves db db') {worker : Worker}
    (hw : WorkerOk db worker) : WorkerOk db' worker := by
  cases worker with
  | idle => trivial
  | found event | polling event | saving event | rescheduling event | shutDown event
  | failing event _ => exact h.polled _ hw
  | gone event | dropping event => exact h.dead _ hw
  | reading event reads =>
    obtain ⟨hpolled, hsession, hsfdc, hcontext⟩ := hw
    exact ⟨h.polled _ hpolled, fun hr => h.dead _ (hsession hr), hsfdc,
      fun hr => h.dead _ (hcontext hr)⟩

/-- Nobody's knowledge is lost when the store evolves. -/
theorem inv_evolves (hi : Inv s) (h : Evolves s.db db') (hrows : RowsFrom s.db db') :
    Inv { s with db := db' } := by
  refine ⟨h.keys, ?_, hi.copyCreated, ?_, fun w => h.workerOk (hi.workers w)⟩
  · intro k r' hr' hcounter
    obtain ⟨r, hr, hold, -⟩ := hrows k r' hr' hcounter
    exact hi.created k r hr hold
  · intro c session hc r' hr' hcounter
    obtain ⟨r, hr, hold, homni⟩ := hrows _ r' hr' hcounter
    exact homni.symm.trans (hi.copies c session hc r hr hold)

theorem Inv.worker {w : ℕ} {worker : Worker} (hi : Inv s) (h : s.workers w = worker) :
    WorkerOk s.db worker := h ▸ hi.workers w

theorem inv_setWorker {w : ℕ} {worker : Worker} (hi : Inv s) (hw : WorkerOk s.db worker) :
    Inv (s.setWorker w worker) := by
  refine ⟨hi.keys, hi.created, hi.copyCreated, hi.copies, fun v => ?_⟩
  by_cases hv : v = w
  · subst hv
    simpa only [State.setWorker, Function.update_self] using hw
  · simpa only [State.setWorker, Function.update_of_ne hv] using hi.workers v

/-! ### The operations of the store -/

theorem createSession_tables (h : (Op.createSession session now seqNo).run db = .ok db') :
    db'.sfdcSessions = db.sfdcSessions ∧ db'.contexts = db.contexts ∧
      db'.pendingEvents = db.pendingEvents := by
  simp only [Op.run, Op.requests, transact_cons_ok, transact_nil_ok, putSession, putUserSession,
    putEvent, Option.map_eq_some_iff, Table.putNew_eq_some] at h
  obtain ⟨_, ⟨_, ⟨-, rfl⟩, rfl⟩, _, ⟨_, ⟨-, rfl⟩, rfl⟩, _, ⟨_, ⟨-, rfl⟩, rfl⟩, rfl⟩ := h
  exact ⟨rfl, rfl, rfl⟩

theorem deleteSession_tables (h : (Op.deleteSession session seqNo).run db = .ok db') :
    db'.sfdcSessions = db.sfdcSessions ∧ db'.contexts = db.contexts ∧
      db'.pendingEvents = db.pendingEvents := by
  simp only [Op.run, Op.requests, transact_cons_ok, transact_nil_ok, removeSession,
    removeUserSession, putEvent, Option.map_eq_some_iff, Table.removeIf_eq_some,
    Table.putNew_eq_some, Option.some.injEq] at h
  obtain ⟨_, ⟨_, ⟨_, -, -, rfl⟩, rfl⟩, _, rfl, _, ⟨_, ⟨-, rfl⟩, rfl⟩, rfl⟩ := h
  exact ⟨rfl, rfl, rfl⟩

theorem setFailed_tables {message : String}
    (h : (Op.setFailed k message none).run db = .ok db') :
    db'.sfdcSessions = db.sfdcSessions ∧ db'.pendingEvents = db.pendingEvents ∧
      ∀ j type, j ≠ k → db'.contexts (j, type) = db.contexts (j, type) := by
  simp only [Op.run, Op.requests, List.cons_append, List.nil_append, Option.map_none,
    Option.toList_none, transact_cons_ok, transact_nil_ok, upsertSession, removeContext,
    Option.some.injEq] at h
  obtain ⟨_, rfl, _, rfl, _, rfl, _, rfl, rfl⟩ := h
  refine ⟨rfl, rfl, fun j type hj => ?_⟩
  simp [hj]

/-- The put of the `SfdcSession` row keeps a session from being activated twice. -/
theorem createSessionContexts_tables
    (h : (Op.createSessionContexts session now seqNo).run db = .ok db') :
    db.sfdcSessions session.key = none ∧ db'.sfdcSessions session.key ≠ none ∧
      (∀ k, k ≠ session.key → db'.sfdcSessions k = db.sfdcSessions k) ∧
      (∀ k, db'.contexts (k, .liveAgent) =
        if session.hasLiveAgentPolling = true ∧ k = session.key then some session.userId
        else db.contexts (k, .liveAgent)) ∧
      (∀ k activeAt, db'.pendingEvents (activeAt, k) =
        if session.hasLiveAgentPolling = true ∧ activeAt = now ∧ k = session.key
        then some session.userId else db.pendingEvents (activeAt, k)) := by
  cases hp : session.hasLiveAgentPolling
  · simp only [Op.run, Op.requests, constructCreateRequests, hp, Bool.false_eq_true, if_false,
      List.append_nil, List.cons_append, List.nil_append, transact_cons_ok, transact_nil_ok,
      putContext, putSfdcSession, patchSession, putEvent, Option.map_eq_some_iff,
      Table.putNew_eq_some, Table.patchIf_eq_some] at h
    obtain ⟨_, ⟨_, ⟨-, rfl⟩, rfl⟩, _, ⟨_, ⟨-, rfl⟩, rfl⟩, _, ⟨_, ⟨hsfdc, rfl⟩, rfl⟩, _,
      ⟨_, ⟨_, -, -, rfl⟩, rfl⟩, _, ⟨_, ⟨-, rfl⟩, rfl⟩, rfl⟩ := h
    refine ⟨hsfdc, by simp, fun k hk => by simp [hk], fun k => by simp, fun k activeAt => by simp⟩
  · simp only [Op.run, Op.requests, constructCreateRequests, hp, if_true,
      List.cons_append, List.nil_append, transact_cons_ok, transact_nil_ok,
      putContext, putSfdcSession, patchSession, putPendingEvent, putEvent,
      Option.map_eq_some_iff, Table.putNew_eq_some, Table.patchIf_eq_some] at h
    obtain ⟨_, ⟨_, ⟨-, rfl⟩, rfl⟩, _, ⟨_, ⟨-, rfl⟩, rfl⟩, _, ⟨_, ⟨-, rfl⟩, rfl⟩, _,
      ⟨_, ⟨hsfdc, rfl⟩, rfl⟩, _, ⟨_, ⟨_, -, -, rfl⟩, rfl⟩, _, ⟨_, ⟨-, rfl⟩, rfl⟩, _,
      ⟨_, ⟨-, rfl⟩, rfl⟩, rfl⟩ := h
    refine ⟨hsfdc, by simp, fun k hk => by simp [hk], fun k => ?_, fun k activeAt => ?_⟩
    · simp [Function.update_apply]
    · simp [Function.update_apply]

/-- Where a session's row is changed and not active afterwards, its events may stay. -/
theorem evolves_of_inactive (hk : ∀ j, KeyOk db j)
    (hsessions : ∀ j, j ≠ k → db'.sessions j = db.sessions j)
    (hsfdc : db'.sfdcSessions = db.sfdcSessions)
    (hcontexts : ∀ j, j ≠ k → db'.contexts (j, .liveAgent) = db.contexts (j, .liveAgent))
    (hevents : db'.pendingEvents = db.pendingEvents)
    (hinactive : ∀ r, db'.sessions k = some r → ¬ ActiveItem r) : Evolves db db' := by
  have hpolled : Polled db k → Polled db' k :=
    fun h => ⟨hsfdc ▸ h.1, fun r hr hactive => absurd hactive (hinactive r hr)⟩
  refine evolves_of_key (k := k) ?_ hk ?_ hpolled fun h => ⟨hsfdc ▸ h.1, hinactive⟩
  · intro j hj
    exact ⟨hsessions j hj, by rw [hsfdc], hcontexts j hj, fun _ => by rw [hevents]⟩
  · constructor
    · intro activeAt h
      rw [EventAt, hevents] at h
      exact hpolled ((hk k).polled activeAt h)
    · simpa only [EventAt, hevents] using (hk k).once
    · intro r hr hactive
      exact absurd hactive (hinactive r hr)
    · intro r hr hactive
      exact absurd hactive (hinactive r hr)
    · intro r hr hactive
      exact absurd hactive (hinactive r hr)

theorem evolves_createSession (hk : ∀ j, KeyOk db j) (hstatus : session.status = .pending)
    (h : (Op.createSession session now seqNo).run db = .ok db') : Evolves db db' := by
  obtain ⟨-, -, hsessions, -⟩ := createSession_ok h
  obtain ⟨hsfdc, hcontexts, hevents⟩ := createSession_tables h
  refine evolves_of_inactive (k := session.key) hk (fun j hj => ?_) hsfdc (fun j _ => ?_)
    hevents fun r hr => ?_
  · rw [hsessions, Function.update_of_ne hj]
  · rw [hcontexts]
  · rw [hsessions, Function.update_self] at hr
    obtain rfl := Option.some.inj hr
    simp [ActiveItem, Session.toRecord, Session.expiring, hstatus]

theorem evolves_deleteSession (hk : ∀ j, KeyOk db j)
    (h : (Op.deleteSession session seqNo).run db = .ok db') :
    Evolves db db' ∧ RowsFrom db db' := by
  obtain ⟨hsessions, -⟩ := deleteSession_ok h
  obtain ⟨hsfdc, hcontexts, hevents⟩ := deleteSession_tables h
  refine ⟨evolves_of_inactive (k := session.key) hk (fun j hj => ?_) hsfdc (fun j _ => ?_)
    hevents fun r hr => ?_, fun j r hr hcounter => ?_⟩
  · rw [hsessions, Function.update_of_ne hj]
  · rw [hcontexts]
  · rw [hsessions, Function.update_self] at hr
    cases hr
  · rw [hsessions, Table.update_none_eq_some] at hr
    exact ⟨r, hr.2, hcounter, Iff.rfl⟩

/-- The failure of a session makes no row with a counter. -/
theorem evolves_setFailed {message : String} (hk : ∀ j, KeyOk db j)
    (h : (Op.setFailed k message none).run db = .ok db') :
    Evolves db db' ∧ RowsFrom db db' ∧ (Polled db k → Dead db' k) := by
  obtain ⟨hsessions, -⟩ := setFailed_ok h
  obtain ⟨hsfdc, hevents, hcontexts⟩ := setFailed_tables h
  have hinactive : ∀ r, db'.sessions k = some r → ¬ ActiveItem r := by
    intro r hr
    rw [hsessions, Table.upsert_apply, if_pos rfl] at hr
    obtain rfl := Option.some.inj hr
    simp [ActiveItem, SessionItem.set]
  refine ⟨evolves_of_inactive (k := k) hk (fun j hj => ?_) hsfdc (fun j hj => hcontexts j _ hj)
    hevents hinactive, fun j r hr hcounter => ?_, fun hpolled => ⟨hsfdc ▸ hpolled.1, hinactive⟩⟩
  · rw [hsessions, Table.upsert_apply, if_neg hj]
  · rw [hsessions, Table.upsert_apply] at hr
    split at hr
    · rename_i hj
      subst hj
      obtain rfl := Option.some.inj hr
      cases hold : db.sessions j with
      | none => simp [hold, SessionItem.set] at hcounter
      | some r =>
        refine ⟨r, rfl, ?_, ?_⟩
        · simpa [hold, SessionItem.set] using hcounter
        · simp [OmniItem, SessionItem.set]
    · exact ⟨r, hr, hcounter, Iff.rfl⟩

/-- An activation puts the row, the context and the event of a session that has none of them. -/
theorem evolves_createSessionContexts (hk : ∀ j, KeyOk db j) (hcopy : CopyOk db session)
    (h : (Op.createSessionContexts session now seqNo).run db = .ok db') :
    Evolves db db' ∧ RowsFrom db db' := by
  obtain ⟨r, hr, hcheck, hsessions, -⟩ := createSessionContexts_ok h
  obtain ⟨hnone, hsome, hsfdc, hcontexts, hevents⟩ := createSessionContexts_tables h
  have hcounter : r.stateCounter.isSome := by
    have heq : r.stateCounter = some session.stateCounter := by
      simpa [Session.stateCheck] using hcheck
    simp [heq]
  have homni : ∀ patch : SessionItem, (∀ name, patch.platformChannels name = false) →
      (OmniItem r ↔ OmniItem (r.set patch)) := by
    intro patch hpatch
    simp [OmniItem, SessionItem.set, hpatch]
  have hnoevent : ∀ activeAt, ¬ EventAt db session.key activeAt :=
    fun activeAt hat => ((hk session.key).polled activeAt hat).1 hnone
  have hevent : ∀ activeAt, EventAt db' session.key activeAt ↔
      session.hasLiveAgentPolling = true ∧ activeAt = now := by
    intro activeAt
    rw [EventAt, hevents]
    split
    · rename_i hput
      simpa using ⟨hput.1, hput.2.1⟩
    · rename_i hput
      simp only [and_true] at hput
      exact ⟨fun hat => absurd hat (hnoevent activeAt), fun hat => absurd hat hput⟩
  have hrow : ∀ r', db'.sessions session.key = some r' →
      (OmniItem r' ↔ session.hasLiveAgentPolling = true) := by
    intro r' hr'
    rw [hsessions, Function.update_self] at hr'
    obtain rfl := Option.some.inj hr'
    exact (homni _ fun _ => rfl).symm.trans (hcopy r hr hcounter)
  refine ⟨evolves_of_key (k := session.key) ?_ hk ?_ (fun hp => absurd hnone hp.1)
    fun hd => absurd hnone hd.1, ?_⟩
  · intro j hj
    refine ⟨?_, hsfdc j hj, ?_, fun activeAt => ?_⟩
    · rw [hsessions, Function.update_of_ne hj]
    · rw [hcontexts, if_neg fun hput => hj hput.2]
    · rw [hevents, if_neg fun hput => hj hput.2.2]
  · constructor
    · intro activeAt hat
      refine ⟨hsome, fun r' hr' _ => (hrow r' hr').mpr ?_⟩
      exact ((hevent activeAt).mp hat).1
    · intro activeAt activeAt' hat hat'
      rw [((hevent _).mp hat).2, ((hevent _).mp hat').2]
    · intro _ _ _
      exact hsome
    · intro r' hr' _ homni'
      rw [hcontexts, if_pos ⟨(hrow r' hr').mp homni', rfl⟩]
      simp
    · intro r' hr' _ homni'
      exact ⟨now, (hevent now).mpr ⟨(hrow r' hr').mp homni', rfl⟩⟩
  · intro j r' hr' hcounter'
    rw [hsessions, Table.update_eq_some] at hr'
    rcases hr' with ⟨rfl, rfl⟩ | ⟨-, hr'⟩
    · exact ⟨r, hr, hcounter, homni _ fun _ => rfl⟩
    · exact ⟨r', hr', hcounter', Iff.rfl⟩

/-! ### The moves of the workers -/

theorem updateActionTime_eq_some {seconds : ℕ}
    (h : updateActionTime event now seconds db = some (db', event')) :
    event'.key = event.key ∧ EventAt db event.key event.activeAt ∧
      db' = { db with pendingEvents := db'.pendingEvents } ∧
      (∀ j activeAt, j ≠ event.key →
        db'.pendingEvents (activeAt, j) = db.pendingEvents (activeAt, j)) ∧
      ∀ activeAt, db'.pendingEvents (activeAt, event.key) =
        if activeAt = now + seconds * 1000 then some event.userId
        else if activeAt = event.activeAt then none
        else db.pendingEvents (activeAt, event.key) := by
  simp only [updateActionTime] at h
  split at h
  · cases h
  · split at h
    · rename_i hne _ db₂ hrun
      simp only [transact_cons_ok, transact_nil_ok, takePendingEvent, putPendingEvent,
        Option.map_eq_some_iff, Table.removeIf_eq_some, Table.putNew_eq_some] at hrun
      obtain ⟨_, ⟨_, ⟨user, hold, -, rfl⟩, rfl⟩, _, ⟨_, ⟨-, rfl⟩, rfl⟩, rfl⟩ := hrun
      obtain ⟨rfl, rfl⟩ := Prod.mk.inj (Option.some.inj h)
      refine ⟨rfl, by simp [EventAt, hold], rfl, fun j activeAt hj => ?_, fun activeAt => ?_⟩
      · simp [hj]
      · simp [Function.update_apply]
    · cases h

/-- A session's only event is moved and stays its only one. -/
theorem evolves_updateActionTime {seconds : ℕ} (hk : ∀ j, KeyOk db j)
    (h : updateActionTime event now seconds db = some (db', event')) :
    Evolves db db' ∧ RowsFrom db db' := by
  obtain ⟨-, hat, hdb, hothers, hmoved⟩ := updateActionTime_eq_some h
  have hsessions : db'.sessions = db.sessions := by rw [hdb]
  have hsfdc : db'.sfdcSessions = db.sfdcSessions := by rw [hdb]
  have hcontexts : db'.contexts = db.contexts := by rw [hdb]
  have hkey := hk event.key
  have hevent : ∀ activeAt, EventAt db' event.key activeAt ↔ activeAt = now + seconds * 1000 := by
    intro activeAt
    rw [EventAt, hmoved]
    split
    · rename_i hnew
      simp [hnew]
    · rename_i hnew
      split
      · simp [hnew]
      · rename_i hold
        exact ⟨fun hat' => absurd (hkey.once _ _ hat' hat) hold, fun hat' => absurd hat' hnew⟩
  have hpolled : ∀ j, Polled db j → Polled db' j := by
    intro j
    simp only [Polled, hsessions, hsfdc]
    exact id
  refine ⟨evolves_of_key (k := event.key) ?_ hk ?_ (hpolled _) ?_, RowsFrom.of_sessions hsessions⟩
  · intro j hj
    exact ⟨by rw [hsessions], by rw [hsfdc], by rw [hcontexts], fun activeAt =>
      hothers j activeAt hj⟩
  · constructor
    · intro _ _
      exact hpolled _ (hkey.polled _ hat)
    · intro activeAt activeAt' hat hat'
      rw [(hevent _).mp hat, (hevent _).mp hat']
    · simpa only [hsessions, hsfdc] using hkey.sfdc
    · simpa only [hsessions, hcontexts] using hkey.context
    · intro _ _ _ _
      exact ⟨_, (hevent _).mpr rfl⟩
  · simp only [Dead, hsessions, hsfdc]
    exact id

/-- An event that nobody waits for may be deleted, moved or not. -/
theorem evolves_deleteEvent (hk : ∀ j, KeyOk db j) (hdead : Dead db event.key) :
    Evolves db (deleteEvent event db) := by
  have hevent : ∀ activeAt, EventAt (deleteEvent event db) event.key activeAt →
      EventAt db event.key activeAt := by
    intro activeAt hat
    simp only [EventAt, deleteEvent, Table.remove_apply] at hat
    split at hat
    · exact absurd rfl hat
    · exact hat
  refine evolves_of_key (k := event.key) ?_ hk ?_ id id
  · intro j hj
    refine ⟨rfl, rfl, rfl, fun activeAt => ?_⟩
    simp [deleteEvent, hj]
  · constructor
    · intro activeAt hat
      exact (hk event.key).polled activeAt (hevent activeAt hat)
    · intro activeAt activeAt' hat hat'
      exact (hk event.key).once _ _ (hevent _ hat) (hevent _ hat')
    · exact (hk event.key).sfdc
    · exact (hk event.key).context
    · intro r hr hactive
      exact absurd hactive (hdead.2 r hr)

/-! ### Every step keeps the invariant -/

theorem run_cases (s : State) (op : Op) :
    s.run op = s ∨ ∃ db', op.run s.db = .ok db' ∧ s.run op = { s with db := db' } := by
  unfold State.run
  cases h : op.run s.db with
  | error i => exact .inl rfl
  | ok db' => exact .inr ⟨db', rfl, rfl⟩

/-- A session that is read has the channels of its row. -/
theorem hasLiveAgentPolling_fromRecord {r : SessionItem}
    (h : Session.fromRecord now k r = some session) :
    OmniItem r ↔ session.hasLiveAgentPolling = true := by
  simp only [Session.fromRecord, Option.pure_def, Option.bind_eq_bind, Option.bind_eq_some_iff,
    Option.some.injEq] at h
  obtain ⟨_, _, _, _, _, _, _, _, _, _, _, _, _, _, _, _, _, _, rfl⟩ := h
  simp [OmniItem, Session.hasLiveAgentPolling, channels]

/-- The rows of a key that was never used are nobody's. -/
theorem inv_createSession (hi : Inv s) (hstatus : session.status = .pending)
    (hfresh : session.key ∉ s.created) :
    Inv { s.run (.createSession session now seqNo) with created := session.key :: s.created } := by
  rcases run_cases s (.createSession session now seqNo) with heq | ⟨db', hrun, heq⟩ <;> rw [heq]
  · exact ⟨hi.keys, fun k r hr hcounter => List.mem_cons_of_mem _ (hi.created k r hr hcounter),
      fun c session hc => List.mem_cons_of_mem _ (hi.copyCreated c session hc), hi.copies,
      hi.workers⟩
  · have hevolves := evolves_createSession hi.keys hstatus hrun
    obtain ⟨-, -, hsessions, -⟩ := createSession_ok hrun
    refine ⟨hevolves.keys, fun k r hr hcounter => ?_,
      fun c session hc => List.mem_cons_of_mem _ (hi.copyCreated c session hc),
      fun c copy hc r hr hcounter => ?_, fun w => hevolves.workerOk (hi.workers w)⟩
    · by_cases hk : k = session.key
      · exact hk ▸ List.mem_cons_self
      · simp only [hsessions, Function.update_of_ne hk] at hr
        exact List.mem_cons_of_mem _ (hi.created k r hr hcounter)
    · -- The copy was read under a key that has been used.
      have hk : copy.key ≠ session.key := fun hk => hfresh (hk ▸ hi.copyCreated c copy hc)
      simp only [hsessions, Function.update_of_ne hk] at hr
      exact hi.copies c copy hc r hr hcounter

theorem inv_getSession {c : ℕ} {r : SessionItem} (hi : Inv s) (hr : s.db.sessions k = some r)
    (hread : Session.fromRecord now k r = some session) :
    Inv { s with clients := Function.update s.clients c (some session) } := by
  obtain ⟨rfl, -, hcounter, -⟩ := Session.fromRecord_eq_some hread
  have hclients : ∀ d copy, Function.update s.clients c (some session) d = some copy →
      copy = session ∨ s.clients d = some copy := by
    intro d copy hd
    rw [Function.update_apply] at hd
    split at hd
    · exact .inl (Option.some.inj hd).symm
    · exact .inr hd
  refine ⟨hi.keys, hi.created, fun d copy hd => ?_, fun d copy hd => ?_, hi.workers⟩ <;>
    rcases hclients d copy hd with rfl | hold
  · exact hi.created _ r hr (by simp [hcounter])
  · exact hi.copyCreated d copy hold
  · intro r' hr' _
    obtain rfl := Option.some.inj (hr.symm.trans hr')
    exact hasLiveAgentPolling_fromRecord hread
  · exact hi.copies d copy hold

/-- A session whose row or context is missing is not active any more. -/
theorem dead_of_missing (hk : KeyOk s.db k) (hp : Polled s.db k)
    (hmissing : s.db.sessions k = none ∨ s.db.contexts (k, .liveAgent) = none) :
    Dead s.db k := by
  refine ⟨hp.1, fun r hr hactive => ?_⟩
  rcases hmissing with hnone | hnone
  · cases hnone.symm.trans hr
  · exact hk.context r hr hactive (hp.2 r hr hactive) hnone

theorem Dead.polled (h : Dead db k) : Polled db k :=
  ⟨h.1, fun r hr hactive => absurd hactive (h.2 r hr)⟩

theorem WorkerOk.inPoll {worker : Worker} (hw : WorkerOk db worker)
    (h : worker.inPoll = some event) : Polled db event.key := by
  cases worker with
  | polling _ | saving _ | shutDown _ =>
    obtain rfl := Option.some.inj h
    exact hw
  | dropping _ =>
    obtain rfl := Option.some.inj h
    exact Dead.polled hw
  | idle | found _ | reading _ _ | gone _ | rescheduling _ | failing _ _ => cases h

/-- An event is given up only where an item is missing, and then its session is over. -/
theorem workerOk_shouldPoll {reads : Reads} {worker : Worker}
    (hw : WorkerOk db (.reading event reads)) (h : shouldPoll event reads = some worker) :
    WorkerOk db worker := by
  obtain ⟨hp, hsession, hsfdc, hcontext⟩ := hw
  unfold shouldPoll at h
  split at h
  · rename_i session sfdc context
    cases session with
    | none =>
      obtain rfl := Option.some.inj h
      exact hsession rfl
    | some item =>
      cases sfdc with
      | none => exact absurd rfl hsfdc
      | some _ =>
        cases context with
        | none =>
          obtain rfl := Option.some.inj h
          exact hcontext rfl
        | some _ =>
          obtain rfl := Option.some.inj h
          split
          · exact hp
          · trivial
  · cases h

/-- The repositories' own operations. -/
theorem inv_run_op {op : Op} (hi : Inv s)
    (h : ∀ db', op.run s.db = .ok db' → Evolves s.db db' ∧ RowsFrom s.db db') :
    Inv (s.run op) := by
  rcases run_cases s op with heq | ⟨db', hrun, heq⟩ <;> rw [heq]
  · exact hi
  · exact inv_evolves hi (h db' hrun).1 (h db' hrun).2

theorem inv_updateActionTime {seconds w : ℕ} {worker : Worker} (hi : Inv s)
    (h : updateActionTime event now seconds s.db = some (db', event'))
    (hw : WorkerOk s.db worker) : Inv ({ s with db := db' }.setWorker w worker) := by
  obtain ⟨hevolves, hrows⟩ := evolves_updateActionTime hi.keys h
  exact inv_setWorker (inv_evolves hi hevolves hrows) (hevolves.workerOk hw)

theorem inv_deleteEvent {w : ℕ} (hi : Inv s) (hdead : Dead s.db event.key) :
    Inv ({ s with db := deleteEvent event s.db }.setWorker w .idle) :=
  inv_setWorker (inv_evolves hi (evolves_deleteEvent hi.keys hdead) (.of_sessions rfl)) trivial

/-- A failed session is over for the worker that made it fail. -/
theorem inv_setFailed {w : ℕ} {worker : Worker} {message : String} (hi : Inv s)
    (hp : Polled s.db k) (hw : ∀ db, Dead db k → WorkerOk db worker) :
    Inv ((s.run (.setFailed k message none)).setWorker w worker) := by
  have hinv : Inv (s.run (.setFailed k message none)) :=
    inv_run_op hi fun db' hrun => ⟨(evolves_setFailed hi.keys hrun).1,
      (evolves_setFailed hi.keys hrun).2.1⟩
  refine inv_setWorker hinv (hw _ ?_)
  rw [State.run]
  cases hrun : (Op.setFailed k message none).run s.db with
  | ok db' => exact (evolves_setFailed hi.keys hrun).2.2 hp
  | error i => cases hrun

theorem inv_step (h : step s a = some t) (hi : Inv s) : Inv t := by
  cases a with
  | createSession session now seqNo =>
    simp only [step, Option.ite_none_right_eq_some] at h
    obtain ⟨⟨hstatus, hfresh⟩, h⟩ := h
    obtain rfl := Option.some.inj h
    exact inv_createSession hi hstatus hfresh
  | getSession c now key =>
    simp only [step] at h
    split at h
    · rename_i session hread
      simp only [Option.ite_none_right_eq_some] at h
      obtain rfl := Option.some.inj h.2
      obtain ⟨r, hr, hread⟩ := Option.bind_eq_some_iff.mp hread
      exact inv_getSession hi hr hread
    · cases h
  | createSessionContexts c now seqNo =>
    simp only [step, Option.map_eq_some_iff] at h
    obtain ⟨session, hc, rfl⟩ := h
    exact inv_run_op hi fun _ => evolves_createSessionContexts hi.keys (hi.copies c session hc)
  | deleteSession session seqNo =>
    obtain rfl := Option.some.inj h
    exact inv_run_op hi fun _ => evolves_deleteSession hi.keys
  | queryEvent w event =>
    simp only [step] at h
    split at h
    · simp only [Option.ite_none_right_eq_some] at h
      obtain ⟨hrow, h⟩ := h
      obtain rfl := Option.some.inj h
      exact inv_setWorker hi ((hi.keys event.key).polled event.activeAt (by simp [EventAt, hrow]))
    · cases h
  | lock w now refreshSeconds =>
    simp only [step] at h
    split at h
    · rename_i event hworker
      have hw := hi.worker hworker
      split at h
      · rename_i db' event' hmove
        obtain rfl := Option.some.inj h
        have hkey := (updateActionTime_eq_some hmove).1
        exact inv_updateActionTime hi hmove
          ⟨hkey ▸ hw, fun h => (by cases h), fun h => (by cases h), fun h => (by cases h)⟩
      · obtain rfl := Option.some.inj h
        exact inv_setWorker hi trivial
    · cases h
  | readSession w =>
    simp only [step] at h
    split at h
    · rename_i event reads hworker
      obtain rfl := Option.some.inj h
      obtain ⟨hp, -, hsfdc, hcontext⟩ := hi.worker hworker
      refine inv_setWorker hi ⟨hp, fun hnone => ?_, hsfdc, hcontext⟩
      exact dead_of_missing (hi.keys _) hp (.inl (Option.some.inj hnone))
    · cases h
  | readSfdc w =>
    simp only [step] at h
    split at h
    · rename_i event reads hworker
      obtain rfl := Option.some.inj h
      obtain ⟨hp, hsession, -, hcontext⟩ := hi.worker hworker
      exact inv_setWorker hi ⟨hp, hsession, fun hnone => hp.1 (Option.some.inj hnone), hcontext⟩
    · cases h
  | readContext w =>
    simp only [step] at h
    split at h
    · rename_i event reads hworker
      obtain rfl := Option.some.inj h
      obtain ⟨hp, hsession, hsfdc, -⟩ := hi.worker hworker
      refine inv_setWorker hi ⟨hp, hsession, hsfdc, fun hnone => ?_⟩
      exact dead_of_missing (hi.keys _) hp (.inr (Option.some.inj hnone))
    · cases h
  | shouldPoll w =>
    simp only [step] at h
    split at h
    · rename_i event reads hworker
      obtain ⟨worker, hpoll, rfl⟩ := Option.map_eq_some_iff.mp h
      exact inv_setWorker hi (workerOk_shouldPoll (hi.worker hworker) hpoll)
    · cases h
  | deleteGone w =>
    simp only [step] at h
    split at h
    · rename_i event hworker
      obtain rfl := Option.some.inj h
      exact inv_deleteEvent hi (hi.worker hworker)
    · cases h
  | poll w shutdown =>
    simp only [step] at h
    split at h
    · rename_i event hworker
      obtain rfl := Option.some.inj h
      have hw : Polled s.db event.key := hi.worker hworker
      refine inv_setWorker hi ?_
      split <;> exact hw
    · cases h
  | updateSessionContext w =>
    simp only [step] at h
    split at h
    · rename_i event hworker
      obtain rfl := Option.some.inj h
      have hw : Polled s.db event.key := hi.worker hworker
      exact inv_setWorker hi hw
    · cases h
  | reschedule w now =>
    simp only [step] at h
    split at h
    · split at h <;> obtain rfl := Option.some.inj h
      · rename_i hmove
        exact inv_updateActionTime hi hmove trivial
      · exact inv_setWorker hi trivial
    · cases h
  | setFailed w =>
    simp only [step] at h
    split at h
    · rename_i event hworker
      obtain rfl := Option.some.inj h
      exact inv_setFailed hi (hi.worker hworker) fun _ hdead => hdead
    · rename_i event message hworker
      obtain rfl := Option.some.inj h
      exact inv_setFailed hi (hi.worker hworker) fun _ _ => trivial
    · cases h
  | deleteShutDown w =>
    simp only [step] at h
    split at h
    · rename_i event hworker
      obtain rfl := Option.some.inj h
      exact inv_deleteEvent hi (hi.worker hworker)
    · cases h
  | raise w message =>
    simp only [step, Option.map_eq_some_iff] at h
    obtain ⟨event, hpoll, rfl⟩ := h
    exact inv_setWorker hi ((hi.workers w).inPoll hpoll)
  | stop w =>
    obtain rfl := Option.some.inj h
    exact inv_setWorker hi trivial

theorem inv_initial : Inv initial := by
  constructor
  · intro k
    constructor <;> simp [EventAt, initial, Db.empty]
  · simp [initial, Db.empty]
  · simp [initial]
  · simp [initial]
  · intro w
    trivial

/-- Clients connect and delete sessions while workers poll, each on its own copy of an event: a
session id has at most one event, and an active session with the omni channel has exactly one. -/
theorem active_sessions_scheduled_once (h : Run step Free initial xs s) : Scheduled s.db := by
  have hi : Inv s := h.invariant (fun _ _ _ _ => inv_step) inv_initial
  exact ⟨fun k => (hi.keys k).once, fun k => (hi.keys k).event⟩

/-- Two workers take one event. The slower one finds it moved and puts nothing off. -/
theorem two_workers_one_event : ∃ s, Run step Free initial
    [.createSession (sampleSession "s") 0 1, .getSession 0 0 ⟨1, "s"⟩,
      .createSessionContexts 0 5 2, .queryEvent 0 ⟨5, ⟨1, "s"⟩, "user"⟩,
      .queryEvent 1 ⟨5, ⟨1, "s"⟩, "user"⟩, .lock 0 10 60, .lock 1 10 60, .readSession 0,
      .readSfdc 0, .readContext 0, .shouldPoll 0, .poll 0 false, .updateSessionContext 0,
      .reschedule 0 20] s ∧
    s.db.pendingEvents (20, ⟨1, "s"⟩) = some "user" ∧ Scheduled s.db := by
  obtain ⟨s, hrun, hp⟩ := exists_run_of_exec free_of_check step initial
    [.createSession (sampleSession "s") 0 1, .getSession 0 0 ⟨1, "s"⟩,
      .createSessionContexts 0 5 2, .queryEvent 0 ⟨5, ⟨1, "s"⟩, "user"⟩,
      .queryEvent 1 ⟨5, ⟨1, "s"⟩, "user"⟩, .lock 0 10 60, .lock 1 10 60, .readSession 0,
      .readSfdc 0, .readContext 0, .shouldPoll 0, .poll 0 false, .updateSessionContext 0,
      .reschedule 0 20]
    (fun s => s.db.pendingEvents (20, ⟨1, "s"⟩) = some "user") (by decide)
  exact ⟨s, hrun, of_decide_eq_true hp, active_sessions_scheduled_once hrun⟩

end ShimService.LiveAgentPoll
