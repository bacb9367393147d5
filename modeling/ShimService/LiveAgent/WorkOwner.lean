import ShimService.Library.Transition
import ShimService.LiveAgent.WorkStored

/-! Work is looked up, closed and written about only by the user that has accepted it. -/
namespace ShimService.WorkIdMapRepo

open CondTable Transition
open ExecuteWithEvent (Written written_of_step)

variable {ttlSeconds clock tenantId c : ℕ} {calls : ℕ → ApiCall} {s t : State} {a : Act}
  {xs : List Act} {log older : List ℕ} {workTargetId workId : String}
  {table : Table SequenceRepo.SeqKey SequenceRepo.Sequence} {db : Db}

/-- The call accepts the work of a target for a user. -/
structure Accepts (calls : ℕ → ApiCall) (d tenantId : ℕ) (workTargetId userId workId : String) :
    Prop where
  action : (calls d).action = .acceptWork workId workTargetId
  tenantId : (calls d).session.key.tenantId = tenantId
  userId : (calls d).session.userId = userId

/-- The row is that of the last call in the log that has accepted the target's work. -/
def LastAccepted (calls : ℕ → ApiCall) (log : List ℕ) (tenantId : ℕ) (workTargetId : String)
    (w : WorkIdMap) : Prop :=
  ∃ newer d older, log = newer ++ d :: older ∧
    Accepts calls d tenantId workTargetId w.userId w.workId ∧
    (calls d).session.key.sessionId = w.sessionId ∧
    ∀ e ∈ newer, ∀ userId workId, ¬ Accepts calls e tenantId workTargetId userId workId

/-- If the call looks up a target, its user has accepted that target's work under this id. -/
def Owns (calls : ℕ → ApiCall) (log : List ℕ) (c : ℕ) (foundWorkId : String) : Prop :=
  ∀ workTargetId, (calls c).action.looksUp = some workTargetId →
    ∃ d ∈ log, Accepts calls d (calls c).session.key.tenantId workTargetId
      (calls c).session.userId foundWorkId

/-- Nobody else writes to the table of work or changes an event; rows of work expire. -/
def OthersKeep (_ : State) : Act → Prop
  | .events (.other write) => ∀ t u, write t = some u →
      (∀ key w, u.works key = some w → t.works key = some w) ∧
      (∀ key event, t.db.events key = some event → u.db.events key = some event) ∧
      ∀ key data, t.eventData key = some data → u.eventData key = some data
  | _ => True

/-- What a phase has is what the call's action asks for, with a work id its user has accepted. -/
def Phase.Holds (calls : ℕ → ApiCall) (log : List ℕ) (c : ℕ) : Phase → Prop
  | .ready | .finished none _ => True
  | .posting _ data | .requesting data =>
    ∃ foundWorkId, Owns calls log c foundWorkId ∧
      data = (calls c).action.eventData foundWorkId
  | .storing data _ _ | .finished (some data) _ =>
    ∃ foundWorkId sfdcResponse sfdcTime, Owns calls log c foundWorkId ∧
      data = (calls c).eventData foundWorkId sfdcResponse sfdcTime

/-- The event of a call is stored, and names work that its user had accepted before. -/
def Recorded (calls : ℕ → ApiCall) (tables : Tables) (c : ℕ) (older : List ℕ) : Prop :=
  ∃ foundWorkId sfdcResponse sfdcTime seqNo,
    tables.db.events ((calls c).session.key.tenantId, seqNo) = some (calls c).event ∧
    tables.eventData ((calls c).session.key.tenantId, seqNo) =
      some ((calls c).eventData foundWorkId sfdcResponse sfdcTime) ∧
    Owns calls older c foundWorkId

structure Inv (calls : ℕ → ApiCall) (s : State) : Prop where
  phases : ∀ c, (s.phases c).Holds calls s.events.log c
  works : ∀ tenantId workTargetId w, s.works (tenantId, workTargetId) = some w →
    LastAccepted calls s.events.log tenantId workTargetId w
  versions : ∀ works ∈ s.versions, ∀ tenantId workTargetId w,
    works (tenantId, workTargetId) = some w →
      ∃ d ∈ s.events.log, Accepts calls d tenantId workTargetId w.userId w.workId
  logged : ∀ newer c older, s.events.log = newer ++ c :: older →
    Recorded calls s.events.store c older

/-! ### A longer log -/

theorem Owns.cons {foundWorkId : String} (h : Owns calls log c foundWorkId) (d : ℕ) :
    Owns calls (d :: log) c foundWorkId := by
  intro workTargetId hlooks
  obtain ⟨e, he, haccepts⟩ := h workTargetId hlooks
  exact ⟨e, List.mem_cons_of_mem d he, haccepts⟩

theorem Phase.Holds.cons {phase : Phase} (h : phase.Holds calls log c) (d : ℕ) :
    phase.Holds calls (d :: log) c := by
  match phase with
  | .ready | .finished none _ => trivial
  | .posting _ _ | .requesting _ =>
    obtain ⟨foundWorkId, howns, hdata⟩ := h
    exact ⟨foundWorkId, howns.cons d, hdata⟩
  | .storing _ _ _ | .finished (some _) _ =>
    obtain ⟨foundWorkId, sfdcResponse, sfdcTime, howns, hdata⟩ := h
    exact ⟨foundWorkId, sfdcResponse, sfdcTime, howns.cons d, hdata⟩

theorem LastAccepted.accepted {w : WorkIdMap}
    (h : LastAccepted calls log tenantId workTargetId w) :
    ∃ d ∈ log, Accepts calls d tenantId workTargetId w.userId w.workId := by
  obtain ⟨newer, d, older, rfl, haccepts, -, -⟩ := h
  exact ⟨d, by simp, haccepts⟩

/-- What has been stored stays so when events are only added. -/
theorem Recorded.mono {before after : Tables} (h : Recorded calls before c older)
    (hevents : ∀ key event, before.db.events key = some event → after.db.events key = some event)
    (hdata : ∀ key event data, before.db.events key = some event →
      before.eventData key = some data → after.eventData key = some data) :
    Recorded calls after c older := by
  obtain ⟨foundWorkId, sfdcResponse, sfdcTime, seqNo, hevent, hstored, howns⟩ := h
  exact ⟨foundWorkId, sfdcResponse, sfdcTime, seqNo, hevents _ _ hevent,
    hdata _ _ _ hevent hstored, howns⟩

/-! ### One step -/

/-- A call that moves on by itself changes nothing but its own phase. -/
theorem Inv.setPhase {phase : Phase} (hi : Inv calls s)
    (h : phase.Holds calls s.events.log c) : Inv calls (s.setPhase c phase) := by
  refine ⟨fun d => ?_, hi.works, hi.versions, hi.logged⟩
  by_cases hd : d = c
  · subst hd
    simpa [State.setPhase] using h
  · simpa [State.setPhase, hd] using hi.phases d

theorem Inv.works_of_version (hi : Inv calls s) {works : WorkTable}
    (hmem : works ∈ s.works :: s.versions) {w : WorkIdMap}
    (hw : works (tenantId, workTargetId) = some w) :
    ∃ d ∈ s.events.log, Accepts calls d tenantId workTargetId w.userId w.workId := by
  rcases List.mem_cons.mp hmem with rfl | hmem
  · exact (hi.works _ _ _ hw).accepted
  · exact hi.versions works hmem _ _ _ hw

theorem getWorkId_eq_ok {works : WorkTable} {userId : String} {inPath : Bool}
    (h : getWorkId works tenantId userId workTargetId inPath = .ok workId) :
    ∃ w, works (tenantId, workTargetId) = some w ∧ w.userId = userId ∧ w.workId = workId := by
  unfold getWorkId at h
  split at h
  · split at h <;> cases h
  · rename_i w hw
    split at h
    · cases h
    · rename_i huser
      exact ⟨w, hw, not_not.mp huser, Except.ok.inj h⟩

theorem holds_proceed {foundWorkId : String} (h : Owns calls log c foundWorkId) :
    (proceed (calls c).action foundWorkId).Holds calls log c := by
  unfold proceed
  split <;> exact ⟨foundWorkId, h, rfl⟩

theorem inv_begin {version : ℕ} (hi : Inv calls s)
    (h : step ttlSeconds calls s (.begin c version) = some t) : Inv calls t := by
  simp only [step] at h
  split at h
  · split at h
    · rename_i hlooks
      obtain rfl := Option.some.inj h
      refine hi.setPhase (holds_proceed fun workTargetId hsome => ?_)
      rw [hlooks] at hsome
      cases hsome
    · rename_i workTargetId hlooks
      obtain ⟨works, hworks, rfl⟩ := Option.map_eq_some_iff.mp h
      split
      · rename_i workId hfound
        refine hi.setPhase (holds_proceed fun workTargetId' hsome => ?_)
        obtain rfl := Option.some.inj (hlooks.symm.trans hsome)
        obtain ⟨w, hw, huser, hwork⟩ := getWorkId_eq_ok hfound
        obtain ⟨d, hd, haccepts⟩ := hi.works_of_version (List.mem_of_getElem? hworks) hw
        exact ⟨d, hd, huser ▸ hwork ▸ haccepts⟩
      · exact hi.setPhase trivial
  · cases h

theorem inv_post {raises : Bool} (hi : Inv calls s)
    (h : step ttlSeconds calls s (.post c raises) = some t) : Inv calls t := by
  simp only [step] at h
  split at h
  · rename_i hphase
    have hholds := hi.phases c
    rw [hphase] at hholds
    obtain rfl := Option.some.inj h
    refine hi.setPhase ?_
    split
    · trivial
    · split <;> exact hholds
  · cases h

theorem inv_answer {status : Option ℕ} {millis : ℕ} (hi : Inv calls s)
    (h : step ttlSeconds calls s (.answer c status millis) = some t) : Inv calls t := by
  simp only [step] at h
  split at h
  · rename_i data hphase
    obtain ⟨foundWorkId, howns, rfl⟩ : (Phase.requesting data).Holds calls s.events.log c :=
      hphase ▸ hi.phases c
    split at h
    · obtain rfl := Option.some.inj h
      exact hi.setPhase trivial
    · rename_i sfdcResponse
      split at h <;> obtain rfl := Option.some.inj h
      · exact hi.setPhase trivial
      · exact hi.setPhase ⟨foundWorkId, sfdcResponse, millis, howns, rfl⟩
  · cases h

theorem inv_finish (hi : Inv calls s)
    (h : step ttlSeconds calls s (.finish c) = some t) : Inv calls t := by
  simp only [step] at h
  split at h
  · rename_i hphase _
    have hholds := hi.phases c
    rw [hphase] at hholds
    obtain rfl := Option.some.inj h
    exact hi.setPhase hholds
  · cases h

/-- The work that a call accepts is that of the last call that has accepted it. -/
theorem lastAccepted_mapWork {expireTime : ℕ} {works : WorkTable} {w : WorkIdMap}
    (hworks : ∀ w, works (tenantId, workTargetId) = some w →
      LastAccepted calls log tenantId workTargetId w)
    (hw : (calls c).mapWork expireTime works (tenantId, workTargetId) = some w) :
    LastAccepted calls (c :: log) tenantId workTargetId w := by
  by_cases haccepts : ∃ userId workId, Accepts calls c tenantId workTargetId userId workId
  · obtain ⟨userId, workId, haction, htenant, huser⟩ := haccepts
    simp only [ApiCall.mapWork, haction, htenant, Function.update_self] at hw
    obtain rfl := Option.some.inj hw
    exact ⟨[], c, log, rfl, ⟨haction, htenant, rfl⟩, rfl, by simp⟩
  · have hold : works (tenantId, workTargetId) = some w := by
      cases haction : (calls c).action <;> simp only [ApiCall.mapWork, haction] at hw
      case acceptWork workId target =>
        rwa [Function.update_of_ne] at hw
        rintro heq
        obtain ⟨rfl, rfl⟩ := Prod.mk.inj heq
        exact haccepts ⟨_, _, haction, rfl, rfl⟩
      all_goals exact hw
    obtain ⟨newer, d, older, rfl, hd, hsession, hnewer⟩ := hworks w hold
    refine ⟨c :: newer, d, older, rfl, hd, hsession, ?_⟩
    intro e he userId workId hacc
    rcases List.mem_cons.mp he with rfl | he
    · exact haccepts ⟨_, _, hacc⟩
    · exact hnewer e he userId workId hacc

/-- A step of the events that leaves the log as it is, takes nothing from the events and adds no
work. -/
theorem Inv.of_kept {events : ExecuteWithEvent.State Tables} (hi : Inv calls s)
    (hlog : events.log = s.events.log)
    (hworks : ∀ key w, events.store.works key = some w → s.works key = some w)
    (hevents : ∀ key event, s.events.store.db.events key = some event →
      events.store.db.events key = some event)
    (hdata : ∀ key data, s.events.store.eventData key = some data →
      events.store.eventData key = some data) :
    Inv calls { s with events := events, versions := s.works :: s.versions } := by
  constructor
  · intro c
    rw [hlog]
    exact hi.phases c
  · intro tenantId workTargetId w hw
    rw [hlog]
    exact hi.works _ _ _ (hworks _ _ hw)
  · intro works hmem tenantId workTargetId w hw
    rw [hlog]
    exact hi.works_of_version hmem hw
  · intro newer c older heq
    rw [hlog] at heq
    exact (hi.logged newer c older heq).mono hevents fun key _ data _ => hdata key data

/-- The transaction of a call that stores its event. -/
theorem Inv.of_committed {events : ExecuteWithEvent.State Tables} {data : EventData}
    {now sfdcResponse seqNo : ℕ} (hi : Inv calls s)
    (hphase : s.phases c = .storing data now sfdcResponse)
    (hlog : events.log = c :: s.events.log)
    (hstore : transact (((calls c).touch ttlSeconds now data).requests seqNo) s.events.store =
      .ok events.store) :
    Inv calls { s with events := events, versions := s.works :: s.versions } := by
  obtain ⟨foundWorkId, response, sfdcTime, howns, rfl⟩ :
      (Phase.storing data now sfdcResponse).Holds calls s.events.log c := hphase ▸ hi.phases c
  have hstored := stored_of_touch hstore
  constructor
  · intro d
    rw [hlog]
    exact (hi.phases d).cons c
  · intro tenantId workTargetId w hw
    rw [hlog]
    have hw : events.store.works (tenantId, workTargetId) = some w := hw
    rw [hstored.works] at hw
    exact lastAccepted_mapWork (hi.works tenantId workTargetId) hw
  · intro works hmem tenantId workTargetId w hw
    rw [hlog]
    obtain ⟨d, hd, haccepts⟩ := hi.works_of_version hmem hw
    exact ⟨d, List.mem_cons_of_mem c hd, haccepts⟩
  · intro newer d older heq
    rw [hlog] at heq
    rcases List.cons_eq_append_iff.mp heq with ⟨rfl, hrest⟩ | ⟨newer, rfl, hrest⟩
    · obtain ⟨rfl, rfl⟩ := List.cons.inj hrest
      refine ⟨foundWorkId, response, sfdcTime, seqNo, ?_, ?_, howns⟩
      · rw [hstored.events, Function.update_self]
      · rw [hstored.eventData, Function.update_self]
    · -- The event's key is free, so it is that of no event there is.
      refine (hi.logged newer d older hrest).mono ?_ ?_
      · intro key event hevent
        rwa [hstored.events, Function.update_of_ne]
        rintro rfl
        rw [hstored.free] at hevent
        cases hevent
      · intro key event data hevent hdata
        rwa [hstored.eventData, Function.update_of_ne]
        rintro rfl
        rw [hstored.free] at hevent
        cases hevent

theorem inv_step (hok : OthersKeep s a) (h : step ttlSeconds calls s a = some t)
    (hi : Inv calls s) : Inv calls t := by
  cases a with
  | begin c version => exact inv_begin hi h
  | post c raises => exact inv_post hi h
  | answer c status millis => exact inv_answer hi h
  | finish c => exact inv_finish hi h
  | events a =>
    obtain ⟨hstoring, h⟩ := Option.ite_none_right_eq_some.mp h
    obtain ⟨events, hstep, rfl⟩ := Option.map_eq_some_iff.mp h
    cases written_of_step _ hstep with
    | nothing hstore hlog =>
      exact hi.of_kept hlog (fun _ _ => by rw [hstore]; exact id)
        (fun _ _ => by rw [hstore]; exact id) fun _ _ => by rw [hstore]; exact id
    | committed c reply held ha hstore hlog =>
      subst ha
      have hphase : (s.phases c).isStoring = true := hstoring
      cases hcase : s.phases c with
      | storing data now sfdcResponse =>
        simp only [State.touches, hcase] at hstore
        exact hi.of_committed hcase hlog hstore
      | ready | posting | requesting | finished =>
        rw [hcase] at hphase
        cases hphase
    | other write ha hstore hlog =>
      subst ha
      obtain ⟨hworks, hevents, hdata⟩ := hok _ _ hstore
      exact hi.of_kept hlog hworks hevents hdata

theorem inv_initial : Inv calls (initial clock table db) := by
  constructor
  · intro c
    trivial
  · intro tenantId workTargetId w h
    simp [initial, State.works, ExecuteWithEvent.initial] at h
  · intro works h
    simp [initial] at h
  · intro newer c older h
    simp [initial, ExecuteWithEvent.initial] at h

/-! ### Whole runs -/

theorem inv_run (h : Run (step ttlSeconds calls) OthersKeep (initial clock table db) xs s) :
    Inv calls s :=
  h.invariant (fun _ _ _ hok hstep hi => inv_step hok hstep hi) inv_initial

/-- In every run a user is given the work id that the last call to accept the target's work has
stored, and only if that call was the user's; and every event in the log is stored, where the
event of a call that looks up its target names the work id under which the same user has accepted
that target earlier in the log. -/
theorem work_owned_by_accepter
    (h : Run (step ttlSeconds calls) OthersKeep (initial clock table db) xs s) :
    (∀ tenantId userId workTargetId inPath workId,
      getWorkId s.works tenantId userId workTargetId inPath = .ok workId →
        ∃ w, LastAccepted calls s.events.log tenantId workTargetId w ∧ w.userId = userId ∧
          w.workId = workId) ∧
      ∀ newer c older, s.events.log = newer ++ c :: older →
        Recorded calls s.events.store c older := by
  have hi := inv_run h
  refine ⟨?_, hi.logged⟩
  intro tenantId userId workTargetId inPath workId hfound
  obtain ⟨w, hw, huser, hwork⟩ := getWorkId_eq_ok hfound
  exact ⟨w, hi.works _ _ _ hw, huser, hwork⟩

/-- One user's session, and a call that accepts work, one that closes it, and one of a user who has
not accepted it. -/
def oneSession : Db := { Db.empty with
  sessions := fun k => if k = ⟨1, "s"⟩ then some {} else none
  userSessions := fun u => if u = ⟨1, "u"⟩ then some ⟨"s", none, 0, 0⟩ else none
  sfdcSessions := fun k => if k = ⟨1, "s"⟩ then some 0 else none }

def acceptsAndCloses (c : ℕ) : ApiCall :=
  match c with
  | 0 => ⟨⟨⟨1, "s"⟩, "u", 60⟩, .acceptWork "work" "target"⟩
  | 1 => ⟨⟨⟨1, "s"⟩, "u", 60⟩, .closeWork "target"⟩
  | _ => ⟨⟨⟨1, "z"⟩, "v", 60⟩, .closeWork "target"⟩

/-- A call from Salesforce's answer on. -/
def storesEvent (c : ℕ) : List Act :=
  [.answer c (some 200) 5, .events (.seq (.find c)), .events (.seq (.stamp c)),
    .events (.seq (.check c)), .events (.seq (.take c)), .events (.transact c .answered),
    .events (.seq (.release c)), .finish c]

def noOther (_ : State) : Act → Bool
  | .events (.other _) => false
  | _ => true

theorem othersKeep_of_noOther (s : State) (a : Act) (h : noOther s a = true) : OthersKeep s a := by
  match a with
  | .events (.other _) => cases h
  | .begin _ _ | .post _ _ | .answer _ _ _ | .finish _ | .events (.seq _)
  | .events (.transact _ _) => trivial

theorem work_owned_by_accepter_closed : ∃ s : State,
    Run (step 600 acceptsAndCloses) OthersKeep (initial 0 (fun _ => none) oneSession)
      ([.begin 0 0] ++ storesEvent 0 ++ [.begin 2 0, .begin 1 0, .post 1 false, .post 1 false] ++
        storesEvent 1) s ∧
      s.events.log = [1, 0] ∧ Recorded acceptsAndCloses s.events.store 1 [0] ∧
      ∃ w, LastAccepted acceptsAndCloses s.events.log 1 "target" w ∧ w.userId = "u" ∧
        w.workId = "work" := by
  obtain ⟨s, hrun, hs⟩ := exists_run_of_exec othersKeep_of_noOther (step 600 acceptsAndCloses)
    (initial 0 (fun _ => none) oneSession)
    ([.begin 0 0] ++ storesEvent 0 ++ [.begin 2 0, .begin 1 0, .post 1 false, .post 1 false] ++
      storesEvent 1)
    (fun s => decide (s.events.log = [1, 0] ∧
      s.works (1, "target") = some ⟨"u", "work", "s", 600⟩))
    (by decide +kernel)
  obtain ⟨hlog, hw⟩ := of_decide_eq_true hs
  have hfound : getWorkId s.works 1 "u" "target" false = .ok "work" := by
    unfold getWorkId
    rw [hw]
    rfl
  obtain ⟨howner, hrecorded⟩ := work_owned_by_accepter hrun
  exact ⟨s, hrun, hlog, hrecorded [] 1 [0] hlog, howner 1 "u" "target" false "work" hfound⟩

end ShimService.WorkIdMapRepo
