import ShimService.Session.Owner

/-!
The two rows behind a session and their expire times: the clients of `session.manager`, beside the
keepalives and web requests that touch a session they have loaded.
-/
namespace ShimService.SessionExpiry

open CondTable Transition SessionManager

/-- `loaded` is the session that each keepalive or web request has loaded. -/
structure State where
  base : SessionManager.State
  loaded : ℕ → Option Session

inductive Act where
  | manager (a : SessionManager.Act)
  | load (d now : ℕ) (key : SessionKey)
  | touch (d : ℕ) (eventType : EventType) (now seqNo : ℕ)

/-- The `touch_with_event` of a loaded session. -/
def touchLoaded (session : Session) (eventType : EventType) (now seqNo : ℕ) : Op :=
  .touchWithEvent session.key session.userId session.expirationSeconds eventType now seqNo

/-- One action, or `none` where it is not enabled. -/
def step (maxRetries : ℕ) (s : State) : Act → Option State
  | .manager a => (SessionManager.step maxRetries s.base a).map fun base => { s with base := base }
  -- `__load_session`, which lets only an ACTIVE session through.
  | .load d now key =>
    match (s.base.db.sessions key).bind (Session.fromRecord now key) with
    | some session =>
      if session.status = .active then
        some { s with loaded := Function.update s.loaded d (some session) }
      else none
    | none => none
  | .touch d eventType now seqNo =>
    match s.loaded d with
    | some session =>
      match (touchLoaded session eventType now seqNo).run s.base.db with
      | .ok db => some { s with base := s.base.setDb db }
      | .error _ => some s
    | none => none

def initial : State := ⟨SessionManager.initial, fun _ => none⟩

/-- A user-session row that points to a session row expires with it. -/
def ExpireTogether (db : Db) : Prop :=
  ∀ u row r, db.userSessions u = some row → db.sessions ⟨u.tenantId, row.sessionId⟩ = some r →
    r.expireTime = some (some row.expireTime)

/-- An update carries the expire time of the user's row that points to its session, and a touch
finds no other session behind the user's row, unless it expires at the same time. -/
def Together (db : Db) : Op → Prop
  | .updateSession session _ _ => ∀ row ∈ db.userSessions session.userKey,
      row.sessionId = session.key.sessionId → session.expirationTime = some row.expireTime
  | .touchWithEvent key userId expirationSeconds _ now _ =>
    ∀ row ∈ db.userSessions ⟨key.tenantId, userId⟩, row.sessionId ≠ key.sessionId →
      ∀ r ∈ db.sessions ⟨key.tenantId, row.sessionId⟩,
        r.expireTime = some (some (getSystemTimeInSeconds now + expirationSeconds))
  | _ => True

/-- The transaction that an action tries to commit. -/
def transaction (s : State) : Act → Option Op
  | .manager a => SessionManager.transaction s.base a
  | .touch d eventType now seqNo => (s.loaded d).map (touchLoaded · eventType now seqNo)
  | .load _ _ _ => none

/-- A transaction that commits keeps the two rows together. -/
def TogetherCommits (s : State) (a : Act) : Prop :=
  ∀ op ∈ transaction s a, (op.run s.base.db).isOk → Together s.base.db op

instance (db : Db) : DecidablePred (Together db)
  | .updateSession session _ _ => inferInstanceAs (Decidable (∀ row ∈ db.userSessions _,
      row.sessionId = session.key.sessionId → session.expirationTime = some row.expireTime))
  | .touchWithEvent key userId _ _ _ _ => inferInstanceAs (Decidable
      (∀ row ∈ db.userSessions ⟨key.tenantId, userId⟩, row.sessionId ≠ key.sessionId →
        ∀ r ∈ db.sessions ⟨key.tenantId, row.sessionId⟩, r.expireTime = _))
  | .createSession .. | .createSessionContexts .. | .setFailed .. | .deleteSession ..
  | .fixOrphanedUserSession .. => isTrue trivial

instance (s : State) (a : Act) : Decidable (TogetherCommits s a) :=
  inferInstanceAs (Decidable (∀ op ∈ transaction s a, _ → _))

variable {maxRetries : ℕ} {s t : State} {a : Act} {xs : List Act} {db db' : Db}
  {owner : SessionKey → Option String} {k : SessionKey} {op : Op}

/-- A user's row points to a session that is there. -/
def Backed (db : Db) : Prop :=
  ∀ u row, db.userSessions u = some row → ∃ r, db.sessions ⟨u.tenantId, row.sessionId⟩ = some r

/-- Only the row of its owner points to a session. -/
theorem userKey_of_points {u : UserKey} {row : UserSession} {userId : String}
    (h : UsersOwned owner db.userSessions) (hu : db.userSessions u = some row)
    (hk : (⟨u.tenantId, row.sessionId⟩ : SessionKey) = k) (howner : owner k = some userId) :
    u = ⟨k.tenantId, userId⟩ := by
  have hrow := h u row hu
  rw [hk, howner, Option.some.injEq] at hrow
  subst hk hrow
  rfl

/-- The one row that a write of an item can part from its session. -/
theorem expireTogether_written {r' : SessionItem} (hg : ExpireTogether db)
    (hsessions : db'.sessions = Function.update db.sessions k (some r'))
    (husers : db'.userSessions = db.userSessions) :
    ExpireTogether db' ↔ ∀ u row, db.userSessions u = some row →
      (⟨u.tenantId, row.sessionId⟩ : SessionKey) = k →
        r'.expireTime = some (some row.expireTime) := by
  unfold ExpireTogether
  rw [hsessions, husers]
  constructor
  · intro h u row hu hk
    exact h u row r' hu (by simp [hk])
  · intro h u row r hu hr
    rcases Table.update_eq_some.mp hr with ⟨hk, rfl⟩ | ⟨_, hold⟩
    · exact h u row hu hk
    · exact hg u row r hu hold

/-- Deletions part no two rows. -/
theorem expireTogether_fewer (hg : ExpireTogether db)
    (hsessions : ∀ k r, db'.sessions k = some r → db.sessions k = some r)
    (husers : ∀ u row, db'.userSessions u = some row → db.userSessions u = some row) :
    ExpireTogether db' :=
  fun u row r hu hr => hg u row r (husers u row hu) (hsessions _ r hr)

section

variable {session : Session} {now seqNo : ℕ}

theorem created_together (h : UsersOwned owner db.userSessions)
    (howner : owner session.key = some session.userId) (hg : ExpireTogether db)
    (hrun : (Op.createSession session now seqNo).run db = .ok db') : ExpireTogether db' := by
  obtain ⟨_, _, hsessions, husers⟩ := createSession_ok hrun
  intro u row r hu hr
  rw [husers] at hu
  rw [hsessions] at hr
  rcases Table.update_eq_some.mp hu with ⟨rfl, rfl⟩ | ⟨hne, hold⟩
  · rcases Table.update_eq_some.mp hr with ⟨_, rfl⟩ | ⟨hne, _⟩
    · rfl
    · exact (hne rfl).elim
  · rcases Table.update_eq_some.mp hr with ⟨hk, _⟩ | ⟨_, hr⟩
    · exact (hne (userKey_of_points h hold hk howner)).elim
    · exact hg u row r hold hr

theorem updated_together_iff (h : UsersOwned owner db.userSessions)
    (howner : owner session.key = some session.userId) (hg : ExpireTogether db)
    (hrun : (Op.updateSession session now seqNo).run db = .ok db') :
    ExpireTogether db' ↔ Together db (.updateSession session now seqNo) := by
  obtain ⟨r, _, _, hsessions, husers⟩ := updateSession_ok hrun
  rw [expireTogether_written hg hsessions husers]
  constructor
  · intro hall row hrow hid
    have hkey : (⟨session.userKey.tenantId, row.sessionId⟩ : SessionKey) = session.key := by
      rw [hid]
      rfl
    exact Option.some.inj (hall session.userKey row hrow hkey)
  · intro hok u row hu hk
    obtain rfl := userKey_of_points h hu hk howner
    exact congrArg some (hok row hu (congrArg SessionKey.sessionId hk))

end

theorem touched_together_iff {key : SessionKey} {userId : String} {expirationSeconds : ℕ}
    {type : EventType} {now seqNo : ℕ} (h : UsersOwned owner db.userSessions)
    (howner : owner key = some userId) (hg : ExpireTogether db)
    (hrun : (Op.touchWithEvent key userId expirationSeconds type now seqNo).run db = .ok db') :
    ExpireTogether db' ↔
      Together db (.touchWithEvent key userId expirationSeconds type now seqNo) := by
  obtain ⟨r, row, hr, hrow, hsessions, husers⟩ := touchWithEvent_ok hrun
  unfold ExpireTogether
  rw [hsessions, husers]
  constructor
  · intro hall v hv hid r' hr'
    obtain rfl : row = v := by simpa [hrow] using hv
    have hne : (⟨key.tenantId, row.sessionId⟩ : SessionKey) ≠ key :=
      fun hk => hid (congrArg SessionKey.sessionId hk)
    exact hall _ _ r' (Function.update_self ..) ((Function.update_of_ne hne ..).trans hr')
  · intro hok u v r' hu hr'
    rcases Table.update_eq_some.mp hr' with ⟨hk, rfl⟩ | ⟨hk, hr'⟩
    · -- The touched session: only its owner's row points to it, and this one is touched too.
      rcases Table.update_eq_some.mp hu with ⟨_, rfl⟩ | ⟨hne, hold⟩
      · rfl
      · exact (hne (userKey_of_points h hold hk howner)).elim
    · rcases Table.update_eq_some.mp hu with ⟨rfl, rfl⟩ | ⟨_, hold⟩
      · refine hok row hrow (fun hid => hk ?_) r' hr'
        rw [hid]
      · exact hg u v r' hold hr'

theorem expireTogether_run (h : UsersOwned owner db.userSessions) (hb : Backed db)
    (hop : OpOwned owner op) (hheld : OpHeld owner op) (hg : ExpireTogether db)
    (hrun : op.run db = .ok db') : ExpireTogether db' ↔ Together db op := by
  cases op with
  | createSession session now seqNo => exact iff_of_true (created_together h hop hg hrun) trivial
  | updateSession session now seqNo => exact updated_together_iff h hop hg hrun
  | touchWithEvent key userId expirationSeconds type now seqNo =>
    exact touched_together_iff h hheld hg hrun
  | createSessionContexts session now seqNo =>
    obtain ⟨r, hr, _, hsessions, husers⟩ := createSessionContexts_ok hrun
    refine iff_of_true ((expireTogether_written hg hsessions husers).mpr ?_) trivial
    intro u row hu hk
    exact hg u row r hu (hk ▸ hr)
  | setFailed key message pendingEvent =>
    obtain ⟨hsessions, husers⟩ := setFailed_ok hrun
    refine iff_of_true ((expireTogether_written hg hsessions husers).mpr ?_) trivial
    -- The row is there, so its expire time stays as it is.
    rintro u row hu rfl
    obtain ⟨r, hr⟩ := hb u row hu
    rw [hr]
    exact hg u row r hu hr
  | deleteSession session seqNo =>
    obtain ⟨hsessions, husers⟩ := deleteSession_ok hrun
    rw [Table.remove] at husers
    refine iff_of_true (expireTogether_fewer hg ?_ ?_) trivial
    · intro k r hk
      rw [hsessions] at hk
      exact (Table.update_none_eq_some.mp hk).2
    · intro u row hu
      rw [husers] at hu
      exact (Table.update_none_eq_some.mp hu).2
  | fixOrphanedUserSession session =>
    obtain ⟨hsessions, husers⟩ := fixOrphanedUserSession_ok hrun
    refine iff_of_true (expireTogether_fewer hg (fun k r hk => hsessions ▸ hk) ?_) trivial
    intro u row hu
    rw [husers] at hu
    exact (Table.update_none_eq_some.mp hu).2

/-- A write of one session leaves every session that is there. -/
theorem backed_written {r' : SessionItem} (hb : Backed db)
    (hsessions : db'.sessions = Function.update db.sessions k (some r'))
    (husers : ∀ u row', db'.userSessions u = some row' →
      ∃ row, db.userSessions u = some row ∧ row.sessionId = row'.sessionId) : Backed db' := by
  intro u row' hu
  obtain ⟨row, hrow, hid⟩ := husers u row' hu
  obtain ⟨r, hr⟩ := hb u row hrow
  rw [hsessions, ← hid]
  by_cases hk : (⟨u.tenantId, row.sessionId⟩ : SessionKey) = k
  · exact ⟨r', by rw [hk, Function.update_self]⟩
  · exact ⟨r, by rw [Function.update_of_ne hk, hr]⟩

theorem backed_created {session : Session} {now seqNo : ℕ} (hb : Backed db)
    (hrun : (Op.createSession session now seqNo).run db = .ok db') : Backed db' := by
  obtain ⟨hfree, _, hsessions, husers⟩ := createSession_ok hrun
  intro u row hu
  rw [husers] at hu
  rw [hsessions]
  rcases Table.update_eq_some.mp hu with ⟨rfl, rfl⟩ | ⟨_, hold⟩
  · exact ⟨_, Table.update_eq_some.mpr (.inl ⟨rfl, rfl⟩)⟩
  · obtain ⟨r, hr⟩ := hb u row hold
    refine ⟨r, Table.update_eq_some.mpr (.inr ⟨?_, hr⟩)⟩
    intro hk
    simp [hk, hfree] at hr

/-- The deletion of a session takes the one row that points to it. -/
theorem backed_deleted {session : Session} {seqNo : ℕ} (h : UsersOwned owner db.userSessions)
    (howner : owner session.key = some session.userId) (hb : Backed db)
    (hrun : (Op.deleteSession session seqNo).run db = .ok db') : Backed db' := by
  obtain ⟨hsessions, husers⟩ := deleteSession_ok hrun
  intro u row hu
  rw [husers] at hu
  rw [hsessions]
  obtain ⟨hne, hold⟩ := Table.update_none_eq_some.mp hu
  obtain ⟨r, hr⟩ := hb u row hold
  refine ⟨r, Table.update_none_eq_some.mpr ⟨?_, hr⟩⟩
  exact fun hk => hne (userKey_of_points h hold hk howner)

theorem backed_run (h : UsersOwned owner db.userSessions) (hheld : OpHeld owner op)
    (hb : Backed db) (hrun : op.run db = .ok db') : Backed db' := by
  cases op with
  | createSession session now seqNo => exact backed_created hb hrun
  | updateSession session now seqNo =>
    obtain ⟨_, _, _, hsessions, husers⟩ := updateSession_ok hrun
    exact backed_written hb hsessions fun u row hu => ⟨row, husers ▸ hu, rfl⟩
  | touchWithEvent key userId expirationSeconds type now seqNo =>
    obtain ⟨_, row, _, hrow, hsessions, husers⟩ := touchWithEvent_ok hrun
    apply backed_written hb hsessions
    intro u v hu
    rw [husers] at hu
    rcases Table.update_eq_some.mp hu with ⟨rfl, rfl⟩ | ⟨_, hold⟩
    · exact ⟨row, hrow, rfl⟩
    · exact ⟨v, hold, rfl⟩
  | createSessionContexts session now seqNo =>
    obtain ⟨_, _, _, hsessions, husers⟩ := createSessionContexts_ok hrun
    exact backed_written hb hsessions fun u row hu => ⟨row, husers ▸ hu, rfl⟩
  | setFailed key message pendingEvent =>
    obtain ⟨hsessions, husers⟩ := setFailed_ok hrun
    exact backed_written hb hsessions fun u row hu => ⟨row, husers ▸ hu, rfl⟩
  | deleteSession session seqNo => exact backed_deleted h hheld hb hrun
  | fixOrphanedUserSession session =>
    obtain ⟨hsessions, husers⟩ := fixOrphanedUserSession_ok hrun
    intro u row hu
    rw [husers] at hu
    rw [hsessions]
    exact hb u row (Table.update_none_eq_some.mp hu).2

/-- Whose the rows are, and the sessions that processes and requests go on to write. -/
structure Inv (s : State) : Prop where
  procs : ∀ c, (s.base.procs c).Owned s.base.owner
  holds : HoldsOwned s.base.owner s.base.procs
  loaded : ∀ d session, s.loaded d = some session → s.base.owner session.key = some session.userId
  sessions : SessionsOwned s.base.owner s.base.db.sessions
  users : UsersOwned s.base.owner s.base.db.userSessions
  backed : Backed s.base.db

theorem inv_initial : Inv initial := by
  refine ⟨fun _ => trivial, ?_, ?_, ?_, ?_, ?_⟩
  · intro c session h
    cases h
  · intro d session h
    cases h
  · intro k r u h
    cases h
  · intro u row h
    cases h
  · intro u row h
    cases h

/-- What an action commits is of the owner's session. -/
theorem transaction_owned (hi : Inv s) (hop : op ∈ transaction s a) :
    OpOwned s.base.owner op ∧ OpHeld s.base.owner op := by
  cases a with
  | manager a =>
    cases a with
    | commit c now seqNo =>
      exact ⟨opOwned_of_owned (hi.procs c) hop, opHeld_of_holds (hi.holds c) hop⟩
    | _ => cases hop
  | load d now key => cases hop
  | touch d eventType now seqNo =>
    obtain ⟨session, hloaded, rfl⟩ := Option.map_eq_some_iff.mp hop
    exact ⟨trivial, hi.loaded d session hloaded⟩

/-- A step commits its transaction, or leaves the tables as they are. -/
theorem step_db (h : step maxRetries s a = some t) :
    (∃ op ∈ transaction s a, op.run s.base.db = .ok t.base.db) ∨
      t.base.db = s.base.db ∧ TogetherCommits s a := by
  cases a with
  | manager a =>
    obtain ⟨base, hbase, rfl⟩ := Option.map_eq_some_iff.mp h
    refine (SessionManager.step_db hbase).imp_right fun hsame => ⟨hsame.1, ?_⟩
    intro op hop hok
    obtain ⟨index, herr⟩ := hsame.2 op hop
    simp [herr, Except.isOk, Except.toBool] at hok
  | load d now key =>
    simp only [step] at h
    (repeat' split at h) <;> cases h
    exact .inr ⟨rfl, fun _ hop => by cases hop⟩
  | touch d eventType now seqNo =>
    simp only [step] at h
    split at h
    · rename_i session hloaded
      split at h <;> cases h <;> rename_i hrun
      · exact .inl ⟨_, by simp [transaction, hloaded], hrun⟩
      · refine .inr ⟨rfl, ?_⟩
        intro op hop hok
        simp only [transaction, hloaded, Option.map_some, Option.mem_some_iff] at hop
        subst hop
        simp [hrun, Except.isOk, Except.toBool] at hok
    · cases h

theorem step_owner {u : String} (h : step maxRetries s a = some t)
    (hk : s.base.owner k = some u) : t.base.owner k = some u := by
  cases a with
  | manager a =>
    obtain ⟨base, hbase, rfl⟩ := Option.map_eq_some_iff.mp h
    exact SessionManager.step_owner hbase hk
  | load d now key | touch d eventType now seqNo =>
    simp only [step] at h
    (repeat' split at h) <;> cases h <;> exact hk

theorem step_loaded (h : step maxRetries s a = some t) (hi : Inv s) (d : ℕ) (session : Session)
    (hd : t.loaded d = some session) : s.base.owner session.key = some session.userId := by
  cases a with
  | manager a =>
    obtain ⟨base, _, rfl⟩ := Option.map_eq_some_iff.mp h
    exact hi.loaded d session hd
  | load e key =>
    simp only [step] at h
    split at h
    · rename_i current hread
      split at h <;> cases h
      by_cases hde : d = e
      · obtain rfl : current = session := by simpa [hde] using hd
        obtain ⟨r, hr, hsession⟩ := Option.bind_eq_some_iff.mp hread
        obtain ⟨rfl, huser, _⟩ := Session.fromRecord_eq_some hsession
        exact hi.sessions _ r _ hr huser
      · exact hi.loaded d session (by simpa [hde] using hd)
    · cases h
  | touch e eventType now seqNo =>
    simp only [step] at h
    (repeat' split at h) <;> cases h <;> exact hi.loaded d session hd

theorem step_procs (h : step maxRetries s a = some t) (hi : Inv s) :
    (∀ c, (t.base.procs c).Owned t.base.owner) ∧ HoldsOwned t.base.owner t.base.procs := by
  cases a with
  | manager a =>
    obtain ⟨base, hbase, rfl⟩ := Option.map_eq_some_iff.mp h
    exact ⟨step_owned hbase hi.sessions hi.procs, step_holdsOwned hbase hi.sessions hi.holds⟩
  | load d now key | touch d eventType now seqNo =>
    simp only [step] at h
    (repeat' split at h) <;> cases h <;> exact ⟨hi.procs, hi.holds⟩

theorem inv_step (h : step maxRetries s a = some t) (hi : Inv s) : Inv t := by
  obtain ⟨hprocs, hholds⟩ := step_procs h hi
  have hloaded := fun d session hd => step_owner h (step_loaded h hi d session hd)
  have hrows : SessionsOwned s.base.owner t.base.db.sessions ∧
      UsersOwned s.base.owner t.base.db.userSessions ∧ Backed t.base.db := by
    rcases step_db h with ⟨op, hop, hrun⟩ | ⟨hdb, _⟩
    · obtain ⟨howned, hheld⟩ := transaction_owned hi hop
      exact ⟨sessionsOwned_run hi.sessions howned hrun, usersOwned_run hi.users howned hrun,
        backed_run hi.users hheld hi.backed hrun⟩
    · rw [hdb]
      exact ⟨hi.sessions, hi.users, hi.backed⟩
  obtain ⟨hsessions, husers, hbacked⟩ := hrows
  exact ⟨hprocs, hholds, hloaded, fun k r u hk hu => step_owner h (hsessions k r u hk hu),
    fun u row hu => step_owner h (husers u row hu), hbacked⟩

theorem expireTogether_step (h : step maxRetries s a = some t) (hi : Inv s)
    (hg : ExpireTogether s.base.db) : ExpireTogether t.base.db ↔ TogetherCommits s a := by
  rcases step_db h with ⟨op, hop, hrun⟩ | ⟨hdb, hok⟩
  · obtain ⟨howned, hheld⟩ := transaction_owned hi hop
    rw [expireTogether_run hi.users hi.backed howned hheld hg hrun]
    constructor
    · intro hok op' hop' _
      obtain rfl : op = op' := Option.mem_unique hop hop'
      exact hok
    · intro hok
      exact hok op hop (by simp [hrun, Except.isOk, Except.toBool])
  · exact iff_of_true (hdb ▸ hg) hok

theorem expireTogether_initial : ExpireTogether initial.base.db := by
  intro u row r h
  cases h

/-- Every state of a run keeps the expire times of the two rows alike exactly when every update
that commits carries the expire time of its user's row, and no touch commits while the user's row
points to another session of another expire time: in every run of the clients, from the empty
tables. -/
theorem expire_together_iff (h : Run (step maxRetries) Free initial xs s) :
    Run (step maxRetries) (fun s _ => ExpireTogether s.base.db) initial xs s ∧
        ExpireTogether s.base.db ↔
      Run (step maxRetries) TogetherCommits initial xs s :=
  h.always_iff (fun _ _ _ hstep hi => inv_step hstep hi)
    (fun _ _ _ hstep hi hg => expireTogether_step hstep hi hg) inv_initial expireTogether_initial

/-- A keepalive of a connected session moves the expire time of both rows. -/
theorem expire_together_iff_touched :
    ∃ s : State, (s.base.db.userSessions ⟨1, "user"⟩).any (·.expireTime == 3605) = true ∧
      (s.base.db.sessions ⟨1, "a"⟩).isSome ∧ ExpireTogether s.base.db := by
  obtain ⟨s, hs, hp⟩ := exists_run_of_exec
    (fun s a (h : decide (TogetherCommits s a) = true) => of_decide_eq_true h) (step 10) initial
    [.manager (.create 0 (sampleSession "a") true), .manager (.commit 0 0 1),
      .manager (.invoke 0 1), .manager (.deliver 1), .manager (.read 1 0), .manager (.connect 1),
      .manager (.commit 1 0 2), .load 0 0 ⟨1, "a"⟩, .touch 0 .sessionTouched 5000 3]
    (fun s => (s.base.db.userSessions ⟨1, "user"⟩).any (·.expireTime == 3605) &&
      (s.base.db.sessions ⟨1, "a"⟩).isSome) (by decide)
  obtain ⟨htouched, hthere⟩ := Bool.and_eq_true_iff.mp hp
  exact ⟨s, htouched, hthere, ((expire_together_iff hs.free).mpr hs).2⟩

/-- The user of session `a` signs in again with a new access token: the replacement writes the
expire time of the refused create to the session row alone. -/
theorem replacement_parts_expire_times : ¬ ∀ (maxRetries : ℕ) (s : State) (xs : List Act),
    Run (step maxRetries) Free initial xs s → ExpireTogether s.base.db := by
  intro hall
  obtain ⟨s, hs, hp⟩ := exists_run_of_exec free_of_check (step 10) initial
    [.manager (.create 0 (sampleSession "a") true), .manager (.commit 0 0 1),
      .manager (.create 1 { sampleSession "b" with accessToken := "new" } true),
      .manager (.commit 1 10000 2), .manager (.findUser 1 (some ⟨"a", none, 0, 3600⟩)),
      .manager (.read 1 0), .manager (.commit 1 10000 3)]
    (fun s => s.base.db.userSessions ⟨1, "user"⟩ == some ⟨"a", none, 0, 3600⟩ &&
      (s.base.db.sessions ⟨1, "a"⟩).any (·.expireTime == some (some 3610))) (by decide)
  simp only [Bool.and_eq_true, beq_iff_eq, Option.any_eq_true] at hp
  obtain ⟨huser, r, hr, hexpire⟩ := hp
  have := hall 10 s _ hs _ _ r huser hr
  simp [hexpire] at this

end ShimService.SessionExpiry
