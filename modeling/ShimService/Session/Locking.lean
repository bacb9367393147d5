import ShimService.Library.Transition
import ShimService.Session.Store

/-!
Optimistic locking of the session row: writes from a copy read earlier, and the two writers that
leave `stateCounter` alone.
-/
namespace ShimService.SessionCopies

open CondTable Transition

/-- A session as it was read, and how many times its row had been changed by then. -/
structure Copy where
  session : Session
  version : ℕ
  deriving DecidableEq

/-- The tables, the changes counted for each row, the count at the last `set_failed` of the row,
and the copies that clients hold. -/
structure State where
  db : Db
  version : SessionKey → ℕ
  failedAt : SessionKey → Option ℕ
  copies : ℕ → Option Copy

inductive Act where
  | find (c now : ℕ) (key : SessionKey)
  | drop (c : ℕ)
  | update (c : ℕ) (session : Session) (now seqNo : ℕ)
  | activate (c : ℕ) (now seqNo : ℕ)
  | touch (key : SessionKey) (userId : String) (expirationSeconds : ℕ) (type : EventType)
      (now seqNo : ℕ)
  | setFailed (key : SessionKey) (message : String) (pendingEvent : Option ℕ)

/-- The client whose copy an action writes from. -/
def Act.writer : Act → Option ℕ
  | .update c _ _ _ | .activate c _ _ => some c
  | _ => none

/-- The client whose copy an action reads, drops or writes from. -/
def Act.client : Act → Option ℕ
  | .find c _ _ | .drop c => some c
  | a => a.writer

/-- Commits an operation that changes the row of `key`. -/
def commit (s : State) (op : Op) (key : SessionKey) : Option State :=
  match op.run s.db with
  | .ok db => some { s with
      db := db
      version := Function.update s.version key (s.version key + 1) }
  | .error _ => none

/-- One action, or `none` where it is not enabled or its transaction is refused. -/
def step (s : State) : Act → Option State
  | .find c now key =>
    match (s.db.sessions key).bind (Session.fromRecord now key) with
    | some session => some { s with
        copies := Function.update s.copies c (some ⟨session, s.version key⟩) }
    | none => none
  | .drop c => some { s with copies := Function.update s.copies c none }
  -- Any edit of the copy but of its key and its counter.
  | .update c session now seqNo =>
    match s.copies c with
    | some copy =>
      if session.key = copy.session.key ∧ session.stateCounter = copy.session.stateCounter then
        commit s (.updateSession session now seqNo) session.key
      else none
    | none => none
  | .activate c now seqNo =>
    match s.copies c with
    | some copy => commit s (.createSessionContexts copy.session now seqNo) copy.session.key
    | none => none
  | .touch key userId expirationSeconds type now seqNo =>
    commit s (.touchWithEvent key userId expirationSeconds type now seqNo) key
  | .setFailed key message pendingEvent =>
    (commit s (.setFailed key message pendingEvent) key).map fun t =>
      { t with failedAt := Function.update t.failedAt key (some (t.version key)) }

/-- No client holds a copy; the tables are any. -/
def initial (db : Db) : State := ⟨db, fun _ => 0, fun _ => none, fun _ => none⟩

def State.counter (s : State) (key : SessionKey) : Option ℕ :=
  (s.db.sessions key).bind SessionItem.stateCounter

variable {s t : State} {a : Act} {xs : List Act} {c : ℕ} {key : SessionKey}

/-- A write from a copy commits only at the version that was read, so never after a later
`set_failed`. -/
def NoUpdateLost (s : State) : Prop :=
  ∀ a c copy, a.writer = some c → s.copies c = some copy → (step s a).isSome →
    s.version copy.session.key = copy.version ∧
      ∀ v, s.failedAt copy.session.key = some v → v ≤ copy.version

/-- `touch` and `set_failed` come only while no client holds a copy with the stored counter. -/
def Uncopied (s : State) : Act → Prop
  | .touch key _ _ _ _ _ | .setFailed key _ _ => ∀ c copy, s.copies c = some copy →
      copy.session.key = key → s.counter key ≠ some copy.session.stateCounter
  | _ => True

/-- What an action does to one session's counter and version and to the copies. -/
inductive Effect (s : State) (a : Act) (t : State) : Prop where
  | read (c : ℕ) (copy : Copy) (ha : a.client = some c) (hw : a.writer = none)
      (hcounter : s.counter copy.session.key = some copy.session.stateCounter)
      (hversion : copy.version = s.version copy.session.key)
      (ht : t = { s with copies := Function.update s.copies c (some copy) })
  | dropped (c : ℕ) (ha : a.client = some c) (hw : a.writer = none)
      (ht : t = { s with copies := Function.update s.copies c none })
  | written (c : ℕ) (copy : Copy) (ha : a.writer = some c) (hc : s.copies c = some copy)
      (hcounter : s.counter copy.session.key = some copy.session.stateCounter)
      (hnew : t.counter copy.session.key = some (copy.session.stateCounter + 1))
      (hother : ∀ k, k ≠ copy.session.key → t.counter k = s.counter k)
      (hversion : t.version = Function.update s.version copy.session.key
        (s.version copy.session.key + 1))
      (hfailed : t.failedAt = s.failedAt) (hcopies : t.copies = s.copies)
  | marked (key : SessionKey) (hw : a.writer = none)
      (ha : Uncopied s a → ∀ c copy, s.copies c = some copy → copy.session.key = key →
        s.counter key ≠ some copy.session.stateCounter)
      (hcounter : t.counter = s.counter)
      (hversion : t.version = Function.update s.version key (s.version key + 1))
      (hfailed : t.failedAt = s.failedAt ∨
        t.failedAt = Function.update s.failedAt key (some (s.version key + 1)))
      (hcopies : t.copies = s.copies)

theorem commit_eq_some {op : Op} : commit s op key = some t ↔ ∃ db, op.run s.db = .ok db ∧
    t = { s with db := db, version := Function.update s.version key (s.version key + 1) } := by
  unfold commit
  cases h : op.run s.db <;> simp [eq_comm]

/-- Setting attributes of one item changes no other item's counter. -/
theorem counter_of_set {r patch : SessionItem} (hsessions : t.db.sessions =
      Function.update s.db.sessions key (some (r.set patch))) (k : SessionKey) :
    t.counter k = if k = key then (r.set patch).stateCounter else s.counter k := by
  unfold State.counter
  rw [hsessions]
  by_cases hk : k = key <;> simp [hk]

theorem written_of_set {copy : Copy} {r patch : SessionItem} (ha : a.writer = some c)
    (hc : s.copies c = some copy) (hr : s.db.sessions copy.session.key = some r)
    (hcheck : r.stateCounter = some copy.session.stateCounter)
    (hpatch : patch.stateCounter = some (copy.session.stateCounter + 1))
    (hsessions : t.db.sessions =
      Function.update s.db.sessions copy.session.key (some (r.set patch)))
    (hversion : t.version = Function.update s.version copy.session.key
      (s.version copy.session.key + 1))
    (hfailed : t.failedAt = s.failedAt) (hcopies : t.copies = s.copies) : Effect s a t := by
  refine .written c copy ha hc ?_ ?_ ?_ hversion hfailed hcopies
  · simp [State.counter, hr, hcheck]
  · simp [counter_of_set hsessions, SessionItem.set, hpatch]
  · intro k hk
    simp [counter_of_set hsessions, hk]

theorem step_effect (h : step s a = some t) : Effect s a t := by
  cases a with
  | find c now key =>
    simp only [step] at h
    split at h <;> cases h
    rename_i session hread
    obtain ⟨r, hr, hs⟩ := Option.bind_eq_some_iff.mp hread
    obtain ⟨rfl, _, hcounter, _⟩ := Session.fromRecord_eq_some hs
    have hstored : s.counter session.key = some session.stateCounter := by
      simp [State.counter, hr, hcounter]
    exact .read c ⟨session, s.version session.key⟩ rfl rfl hstored rfl rfl
  | drop c =>
    cases h
    exact .dropped c rfl rfl rfl
  | update c session now seqNo =>
    simp only [step] at h
    split at h
    · rename_i copy hc
      split at h
      · rename_i hsame
        obtain ⟨db, hrun, rfl⟩ := commit_eq_some.mp h
        obtain ⟨r, hr, hcheck, hsessions, _⟩ := updateSession_ok hrun
        simp only [Session.stateCheck, decide_eq_true_eq] at hcheck
        rw [hsame.1] at hr hsessions ⊢
        exact written_of_set rfl hc hr (hsame.2 ▸ hcheck) (by simp [Session.statePatch, hsame.2])
          hsessions rfl rfl rfl
      · cases h
    · cases h
  | activate c now seqNo =>
    simp only [step] at h
    split at h
    · rename_i copy hc
      obtain ⟨db, hrun, rfl⟩ := commit_eq_some.mp h
      obtain ⟨r, hr, hcheck, hsessions, _⟩ := createSessionContexts_ok hrun
      simp only [Session.stateCheck, decide_eq_true_eq] at hcheck
      exact written_of_set rfl hc hr hcheck rfl hsessions rfl rfl rfl
    · cases h
  | touch key userId expirationSeconds type now seqNo =>
    obtain ⟨db, hrun, rfl⟩ := commit_eq_some.mp h
    obtain ⟨r, _, hr, _, hsessions, _⟩ := touchWithEvent_ok hrun
    refine .marked key rfl (fun hok => hok) ?_ rfl (.inl rfl) rfl
    funext k
    rw [counter_of_set hsessions]
    split
    · subst k
      simp [State.counter, hr, SessionItem.set]
    · rfl
  | setFailed key message pendingEvent =>
    obtain ⟨u, hu, rfl⟩ := Option.map_eq_some_iff.mp h
    obtain ⟨db, hrun, rfl⟩ := commit_eq_some.mp hu
    obtain ⟨hsessions, _⟩ := setFailed_ok hrun
    refine .marked key rfl (fun hok => hok) ?_ rfl (.inr (by simp)) rfl
    funext k
    simp only [State.counter, hsessions, Table.upsert_apply]
    split
    · subst k
      cases s.db.sessions key <;> simp [SessionItem.set]
    · rfl

theorem step_other_copy {d : ℕ} (h : step s a = some t) (hd : a.client ≠ some d) :
    t.copies d = s.copies d := by
  cases step_effect h with
  | read c copy ha _ _ _ ht =>
    have hdc : d ≠ c := fun hdc => hd (hdc ▸ ha)
    simp [ht, hdc]
  | dropped c ha _ ht =>
    have hdc : d ≠ c := fun hdc => hd (hdc ▸ ha)
    simp [ht, hdc]
  | written c copy _ _ _ _ _ _ _ hcopies => rw [hcopies]
  | marked key _ _ _ _ _ hcopies => rw [hcopies]

/-- A copy's counter is not ahead of the stored one, and a copy with the stored counter is of the
stored version. -/
structure Inv (s : State) : Prop where
  behind : ∀ c copy, s.copies c = some copy → ∃ n, s.counter copy.session.key = some n ∧
    copy.session.stateCounter ≤ n ∧
      (copy.session.stateCounter = n → copy.version = s.version copy.session.key)
  failed : ∀ k v, s.failedAt k = some v → v ≤ s.version k

theorem inv_initial (db : Db) : Inv (initial db) := by
  refine ⟨?_, ?_⟩ <;> intro _ _ h <;> cases h

theorem inv_step (hok : Uncopied s a) (h : step s a = some t) (hi : Inv s) : Inv t := by
  cases step_effect h with
  | read c copy _ _ hcounter hversion ht =>
    subst t
    refine ⟨?_, hi.failed⟩
    intro d copy' hd
    by_cases hdc : d = c
    · obtain rfl : copy = copy' := by simpa [hdc] using hd
      exact ⟨_, hcounter, le_rfl, fun _ => hversion⟩
    · exact hi.behind d copy' (by simpa [hdc] using hd)
  | dropped c _ _ ht =>
    subst t
    refine ⟨?_, hi.failed⟩
    intro d copy hd
    by_cases hdc : d = c
    · simp [hdc] at hd
    · exact hi.behind d copy (by simpa [hdc] using hd)
  | written c copy ha hc hcounter hnew hother hversion hfailed hcopies =>
    constructor
    · intro d copy' hd
      obtain ⟨n, hn, hle, heq⟩ := hi.behind d copy' (hcopies ▸ hd)
      by_cases hk : copy'.session.key = copy.session.key
      · rw [hk, hcounter, Option.some.injEq] at hn
        refine ⟨_, hk ▸ hnew, by omega, fun _ => by omega⟩
      · refine ⟨n, (hother _ hk).trans hn, hle, fun he => ?_⟩
        rw [hversion, Function.update_of_ne hk]
        exact heq he
    · intro k v hv
      have hle := hi.failed k v (hfailed ▸ hv)
      by_cases hk : k = copy.session.key
      · subst k
        rw [hversion, Function.update_self]
        omega
      · rwa [hversion, Function.update_of_ne hk]
  | marked key _ ha hcounter hversion hfailed hcopies =>
    constructor
    · intro d copy hd
      rw [hcopies] at hd
      obtain ⟨n, hn, hle, heq⟩ := hi.behind d copy hd
      refine ⟨n, hcounter ▸ hn, hle, fun he => ?_⟩
      by_cases hk : copy.session.key = key
      · exact (ha hok d copy hd hk (by rw [← hk, hn, he])).elim
      · rw [hversion, Function.update_of_ne hk]
        exact heq he
    · intro k v hv
      by_cases hk : k = key
      · subst k
        rw [hversion, Function.update_self]
        rcases hfailed with hf | hf
        · have := hi.failed key v (hf ▸ hv)
          omega
        · simp only [hf, Function.update_self, Option.some.injEq] at hv
          omega
      · rw [hversion, Function.update_of_ne hk]
        apply hi.failed k v
        rcases hfailed with hf | hf
        · exact hf ▸ hv
        · simpa [hf, hk] using hv

theorem noUpdateLost_of_inv (hi : Inv s) : NoUpdateLost s := by
  intro a c copy ha hc hsome
  obtain ⟨t, ht⟩ := Option.isSome_iff_exists.mp hsome
  have hversion : s.version copy.session.key = copy.version := by
    cases step_effect ht with
    | written d copy' ha' hd hcounter =>
      obtain rfl : c = d := by simpa [ha] using ha'
      obtain rfl : copy = copy' := by simpa [hc] using hd
      obtain ⟨n, hn, _, heq⟩ := hi.behind c copy hc
      rw [hcounter, Option.some.injEq] at hn
      exact (heq hn).symm
    | read d copy' _ hw => simp [hw] at ha
    | dropped d _ hw => simp [hw] at ha
    | marked key hw => simp [hw] at ha
  exact ⟨hversion, fun v hv => hversion ▸ hi.failed _ v hv⟩

/-- Where `touch` and `set_failed` never come between a read and a write from its copy, a write
from a copy commits only on the row that was read: in every run, from any tables. -/
theorem session_update_not_lost {db : Db} (h : Run step Uncopied (initial db) xs s) :
    NoUpdateLost s :=
  noUpdateLost_of_inv (h.invariant (fun _ _ _ hok hstep hi => inv_step hok hstep hi)
    (inv_initial db))

def activeSession : Session := { sampleSession "a" with status := .active }

/-- One active session and nothing else. -/
def oneRow : Db :=
  { Db.empty with
    sessions := fun k => if k = activeSession.key then some activeSession.toRecord else none }

/-- Only client 0 reads, and a row is marked only while it holds no copy with the counter. -/
def soleCheck (s : State) (a : Act) : Bool :=
  a.client.all (· == 0) &&
    match a with
    | .touch key _ _ _ _ _ | .setFailed key _ _ =>
      (s.copies 0).all fun copy => s.counter key != some copy.session.stateCounter
    | _ => true

theorem uncopied_of_soleCheck (hs : ∀ c, c ≠ 0 → s.copies c = none)
    (h : soleCheck s a = true) : Uncopied s a := by
  have hsole : ∀ c copy key, s.copies c = some copy → ((s.copies 0).all fun copy =>
      s.counter key != some copy.session.stateCounter) = true →
      s.counter key ≠ some copy.session.stateCounter := by
    intro c copy key hc hall
    obtain rfl : c = 0 := by
      by_contra hne
      simp [hs c hne] at hc
    simpa [hc] using hall
  have hcheck := (Bool.and_eq_true_iff.mp h).2
  cases a with
  | touch key | setFailed key => exact fun c copy hc _ => hsole c copy key hc hcheck
  | _ => trivial

theorem session_update_not_lost_after_failure :
    ∃ s, s.version activeSession.key = 2 ∧ s.counter activeSession.key = some 2 ∧
      NoUpdateLost s := by
  obtain ⟨s, hs, hp⟩ := exists_run_of_exec
    (fun s a (h : soleCheck s a = true) => h) step (initial oneRow)
    [.setFailed activeSession.key "shutdown" none, .find 0 0 activeSession.key,
      .update 0 activeSession 0 1]
    (fun s => s.version activeSession.key == 2 && s.counter activeSession.key == some 2)
    (by decide)
  simp only [Bool.and_eq_true, beq_iff_eq] at hp
  have hkeep : ∀ s a t, soleCheck s a = true → step s a = some t →
      (∀ c, c ≠ 0 → s.copies c = none) → ∀ c, c ≠ 0 → t.copies c = none := by
    intro s a t hok hstep hs c hc
    rw [step_other_copy hstep, hs c hc]
    intro ha
    simp [soleCheck, ha, hc] at hok
  exact ⟨s, hp.1, hp.2, session_update_not_lost
    (hs.strengthen hkeep (fun _ _ => uncopied_of_soleCheck) fun c _ => rfl)⟩

/-- A client reads the active session, a poller marks it as failed, and the client's update still
finds the counter it read and makes the session active again. -/
theorem failed_session_updated_from_old_copy : ¬ ∀ (db : Db) (s : State) (xs : List Act),
    Run step Free (initial db) xs s → NoUpdateLost s := by
  intro hall
  obtain ⟨s, hs, hp⟩ := exists_run_of_exec free_of_check step (initial oneRow)
    [.find 0 0 activeSession.key, .setFailed activeSession.key "shutdown" none]
    (fun s => s.copies 0 == some ⟨activeSession, 0⟩ && s.version activeSession.key == 1 &&
      (step s (.update 0 activeSession 0 1)).isSome) (by decide)
  simp only [Bool.and_eq_true, beq_iff_eq] at hp
  obtain ⟨⟨hcopy, hversion⟩, hsome⟩ := hp
  have := (hall oneRow s _ hs _ 0 _ rfl hcopy hsome).1
  simp [hversion] at this

end ShimService.SessionCopies
