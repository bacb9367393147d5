import ShimService.Session.Owner

/-! One live session per user, and the deletion that takes the user row of another session. -/
namespace ShimService.SessionManager

open CondTable Transition

variable {maxRetries : ℕ} {s t : State} {a : Act} {xs : List Act} {db db' : Db}
  {owner : SessionKey → Option String} {k : SessionKey} {p : Proc}

/-- A session row whose status is not FAILED. -/
def Live (db : Db) (k : SessionKey) : Prop :=
  ∃ r, db.sessions k = some r ∧ r.sessionStatus ≠ some .failed

/-- The user-session row of a key names a session. -/
def PointsTo (db : Db) (u : UserKey) (sessionId : String) : Prop :=
  ∃ row, db.userSessions u = some row ∧ row.sessionId = sessionId

/-- Every live session is the one its user's row points to, so a user has at most one. -/
structure OneLivePerUser (db : Db) : Prop where
  pointed : ∀ k r, db.sessions k = some r → r.sessionStatus ≠ some .failed →
    ∃ u, r.userId = some u ∧ PointsTo db ⟨k.tenantId, u⟩ k.sessionId
  unique : ∀ k k' r r', db.sessions k = some r → db.sessions k' = some r' →
    r.sessionStatus ≠ some .failed → r'.sessionStatus ≠ some .failed →
    k.tenantId = k'.tenantId → r.userId = r'.userId → k = k'

/-- A commit does not delete a user row that points to another live session, and does not write
another status over a session that has failed. -/
def Harmless (db : Db) : Op → Prop
  | .deleteSession session _ => ∀ row, db.userSessions session.userKey = some row →
      row.sessionId ≠ session.key.sessionId → ¬ Live db ⟨session.key.tenantId, row.sessionId⟩
  | .fixOrphanedUserSession session => ∀ row, db.userSessions session.userKey = some row →
      ¬ Live db ⟨session.key.tenantId, row.sessionId⟩
  | .updateSession session _ _ => session.status ≠ .failed → Live db session.key
  | .createSessionContexts session _ _ => Live db session.key
  | _ => True

/-- Every transaction that commits is harmless. -/
def HarmlessCommits (s : State) : Act → Prop
  | .commit c now seqNo => ∀ op db, (s.procs c).op now seqNo = some op → op.run s.db = .ok db →
      Harmless s.db op
  | _ => True

/-- A stored session belongs to the user its id was drawn for, whose row points to it while it
is live. -/
structure Pointed (owner : SessionKey → Option String) (db : Db) : Prop where
  owned : ∀ k r u, db.sessions k = some r → r.userId = some u → owner k = some u
  pointed : ∀ k r, db.sessions k = some r → r.sessionStatus ≠ some .failed →
    ∃ u, r.userId = some u ∧ PointsTo db ⟨k.tenantId, u⟩ k.sessionId

theorem pointed_unique (h : Pointed owner db) : OneLivePerUser db := by
  refine ⟨h.pointed, ?_⟩
  intro k k' r r' hk hk' hr hr' htenant huser
  obtain ⟨u, hu, row, hrow, hid⟩ := h.pointed k r hk hr
  obtain ⟨u', hu', row', hrow', hid'⟩ := h.pointed k' r' hk' hr'
  obtain rfl : u = u' := by simpa [hu, hu'] using huser
  rw [htenant, hrow', Option.some.injEq] at hrow
  subst hrow
  cases k
  cases k'
  simp_all

/-- A write over a stored item that keeps its user, and makes it live only if it was. -/
theorem pointed_update {r' : SessionItem} (h : Pointed owner db)
    (howned : SessionsOwned owner db'.sessions)
    (hsessions : db'.sessions = Function.update db.sessions k (some r'))
    (husers : ∀ u id, PointsTo db u id → PointsTo db' u id)
    (hlive : r'.sessionStatus ≠ some .failed → Live db k ∧ r'.userId.isSome) :
    Pointed owner db' := by
  refine ⟨howned, ?_⟩
  intro j r hj hr
  have hj' := hj
  rw [hsessions] at hj
  rcases Table.update_eq_some.mp hj with ⟨rfl, rfl⟩ | ⟨_, hold⟩
  · -- The user it was pointed to by is the owner of the id, and so is the user written now.
    obtain ⟨⟨r₀, hr₀, hlive₀⟩, hsome⟩ := hlive hr
    obtain ⟨u₀, hu₀, hpoints⟩ := h.pointed j r₀ hr₀ hlive₀
    obtain ⟨u, hu⟩ := Option.isSome_iff_exists.mp hsome
    have howner := (h.owned j r₀ u₀ hr₀ hu₀).symm.trans (howned j _ u hj' hu)
    obtain rfl : u₀ = u := Option.some.inj howner
    exact ⟨u₀, hu, husers _ _ hpoints⟩
  · obtain ⟨u, hu, hpoints⟩ := h.pointed j r hold hr
    exact ⟨u, hu, husers _ _ hpoints⟩

/-- A deletion of a user row that no live session left behind needs. -/
theorem pointed_removed {u₀ : UserKey} (h : Pointed owner db)
    (howned : SessionsOwned owner db'.sessions)
    (hsessions : ∀ k r, db'.sessions k = some r → db.sessions k = some r)
    (husers : db'.userSessions = db.userSessions.remove u₀)
    (hfree : ∀ k r row, db'.sessions k = some r → r.sessionStatus ≠ some .failed →
      k.tenantId = u₀.tenantId → db.userSessions u₀ = some row → row.sessionId ≠ k.sessionId) :
    Pointed owner db' := by
  refine ⟨howned, ?_⟩
  intro k r hk hr
  obtain ⟨u, hu, row, hrow, hid⟩ := h.pointed k r (hsessions k r hk) hr
  refine ⟨u, hu, row, ?_, hid⟩
  rw [husers, Table.remove_apply, if_neg, hrow]
  rintro rfl
  exact hfree k r row hk hr rfl hrow hid

theorem pointed_created {session : Session} {now seqNo : ℕ} (h : Pointed owner db)
    (howned : SessionsOwned owner db'.sessions)
    (hrun : (Op.createSession session now seqNo).run db = .ok db') : Pointed owner db' := by
  obtain ⟨_, huser, hsessions, husers⟩ := createSession_ok hrun
  refine ⟨howned, ?_⟩
  intro k r hk hr
  rw [hsessions] at hk
  rcases Table.update_eq_some.mp hk with ⟨rfl, rfl⟩ | ⟨_, hold⟩
  · exact ⟨session.userId, rfl, _, by rw [husers]; exact Function.update_self .., rfl⟩
  · obtain ⟨u, hu, row, hrow, hid⟩ := h.pointed k r hold hr
    refine ⟨u, hu, row, ?_, hid⟩
    rw [husers, Function.update_of_ne, hrow]
    rintro heq
    simp [heq, huser] at hrow

/-- What a commit does to the two tables, for each operation. -/
theorem pointed_run {op : Op} (h : Pointed owner db) (hop : OpOwned owner op)
    (hok : Harmless db op) (hrun : op.run db = .ok db') : Pointed owner db' := by
  have howned := sessionsOwned_run h.owned hop hrun
  cases op with
  | createSession session now seqNo => exact pointed_created h howned hrun
  | updateSession session now seqNo =>
    obtain ⟨r, hr, _, hsessions, husers⟩ := updateSession_ok hrun
    apply pointed_update h howned hsessions (fun _ _ hp => by simpa [PointsTo, husers] using hp)
    intro hlive
    have hstatus : session.status ≠ .failed := by
      intro hf
      exact hlive (by simp [SessionItem.set, Session.statePatch, Session.toRecord, hf])
    exact ⟨hok hstatus, rfl⟩
  | touchWithEvent key userId expirationSeconds type now seqNo =>
    obtain ⟨r, row, hr, hrow, hsessions, husers⟩ := touchWithEvent_ok hrun
    refine pointed_update h howned hsessions ?_ ?_
    · rintro u id ⟨v, hv, hid⟩
      rw [PointsTo, husers]
      by_cases hu : u = ⟨key.tenantId, userId⟩
      · subst u
        rw [hrow, Option.some.injEq] at hv
        exact ⟨_, Function.update_self .., by simpa [hv] using hid⟩
      · exact ⟨v, by simpa [hu] using hv, hid⟩
    · intro hlive
      obtain ⟨u, hu, _⟩ := h.pointed key r hr hlive
      exact ⟨⟨r, hr, hlive⟩, by simp [SessionItem.set, hu]⟩
  | createSessionContexts session now seqNo =>
    obtain ⟨r, hr, _, hsessions, husers⟩ := createSessionContexts_ok hrun
    refine pointed_update h howned hsessions
      (fun _ _ hp => by simpa [PointsTo, husers] using hp) fun _ => ⟨hok, ?_⟩
    obtain ⟨r', hr', hlive⟩ := hok
    obtain ⟨u, hu, _⟩ := h.pointed _ r' hr' hlive
    obtain rfl : r = r' := by simpa [hr] using hr'
    simp [SessionItem.set, Session.statePatch, hu]
  | setFailed key message pendingEvent =>
    obtain ⟨hsessions, husers⟩ := setFailed_ok hrun
    exact pointed_update h howned hsessions
      (fun _ _ hp => by simpa [PointsTo, husers] using hp) fun hlive => (hlive rfl).elim
  | deleteSession session seqNo =>
    obtain ⟨hsessions, husers⟩ := deleteSession_ok hrun
    have hkept : ∀ k r, db'.sessions k = some r → k ≠ session.key ∧ db.sessions k = some r := by
      intro k r hk
      rw [hsessions] at hk
      exact Table.update_none_eq_some.mp hk
    apply pointed_removed h howned (fun k r hk => (hkept k r hk).2) husers
    intro k r row hk hr htenant hrow hid
    obtain ⟨hkey, hk⟩ := hkept k r hk
    have htenant : k.tenantId = session.key.tenantId := htenant
    refine hok row hrow (fun hsame => hkey ?_) ⟨r, by rw [hid, ← htenant]; exact hk, hr⟩
    cases k
    cases hs : session.key
    simp_all
  | fixOrphanedUserSession session =>
    obtain ⟨hsessions, husers⟩ := fixOrphanedUserSession_ok hrun
    apply pointed_removed h howned (fun k r hk => hsessions ▸ hk) husers
    intro k r row hk hr htenant hrow hid
    have htenant : k.tenantId = session.key.tenantId := htenant
    exact hok row hrow ⟨r, by rw [hid, ← htenant]; exact hsessions ▸ hk, hr⟩

structure Inv (s : State) : Prop where
  procs : ∀ c, (s.procs c).Owned s.owner
  db : Pointed s.owner s.db

theorem inv_initial : Inv initial := by
  refine ⟨fun _ => trivial, ⟨?_, ?_⟩⟩ <;> intro _ _ <;> intros <;> simp_all [initial, Db.empty]

theorem inv_step (hok : HarmlessCommits s a) (h : step maxRetries s a = some t) (hi : Inv s) :
    Inv t := by
  refine ⟨step_owned h hi.db.owned hi.procs, ?_⟩
  have hgrown : ∀ {db}, Pointed s.owner db → Pointed t.owner db :=
    fun hp => ⟨fun k r u hk hu => step_owner h (hp.owned k r u hk hu), hp.pointed⟩
  rcases step_db h with ⟨op, hop, hrun⟩ | ⟨hdb, _⟩
  · cases a with
    | commit c now seqNo =>
      exact hgrown (pointed_run hi.db (opOwned_of_owned (hi.procs c) hop) (hok op t.db hop hrun)
        hrun)
    | _ => simp [transaction] at hop
  · rw [hdb]
    exact hgrown hi.db

/-- Where no committed delete takes the user row of another live session and no update or
activation is written over a failed one, every live session is its user's: in every run of the
clients from the empty tables. -/
theorem one_live_session_per_user (h : Run (step maxRetries) HarmlessCommits initial xs s) :
    OneLivePerUser s.db :=
  pointed_unique (h.invariant (fun _ _ _ hok hs hi => inv_step hok hs hi) inv_initial).db

def liveCheck (db : Db) (k : SessionKey) : Bool :=
  (db.sessions k).any fun r => r.sessionStatus != some .failed

theorem live_iff_check : Live db k ↔ liveCheck db k = true := by
  unfold Live liveCheck
  cases db.sessions k <;> simp

def harmlessCheck (db : Db) : Op → Bool
  | .deleteSession session _ => (db.userSessions session.userKey).all fun row =>
      row.sessionId == session.key.sessionId ||
        !liveCheck db ⟨session.key.tenantId, row.sessionId⟩
  | .fixOrphanedUserSession session => (db.userSessions session.userKey).all fun row =>
      !liveCheck db ⟨session.key.tenantId, row.sessionId⟩
  | .updateSession session _ _ => session.status == .failed || liveCheck db session.key
  | .createSessionContexts session _ _ => liveCheck db session.key
  | _ => true

def harmlessCommitsCheck (s : State) : Act → Bool
  | .commit c now seqNo => ((s.procs c).op now seqNo).all (harmlessCheck s.db)
  | _ => true

theorem harmlessCommits_of_check (s : State) (a : Act) (h : harmlessCommitsCheck s a = true) :
    HarmlessCommits s a := by
  cases a with
  | commit c now seqNo =>
    intro op db hop _
    simp only [harmlessCommitsCheck, hop, Option.all_some] at h
    cases op <;> simp only [harmlessCheck, Harmless, live_iff_check] at h ⊢
    case deleteSession =>
      intro row hrow hne
      simpa [hrow, hne] using h
    case fixOrphanedUserSession =>
      intro row hrow
      simpa [hrow] using h
    case updateSession =>
      intro hne
      simpa [hne] using h
    case createSessionContexts => exact h
  | _ => trivial

/-- A session is created, connected and deleted, and its user creates the next one. -/
theorem one_live_session_per_user_recreated :
    ∃ s : State, Live s.db ⟨1, "b"⟩ ∧ s.db.sessions ⟨1, "a"⟩ = none ∧ OneLivePerUser s.db := by
  obtain ⟨s, hs, hp⟩ := exists_run_of_exec harmlessCommits_of_check (step 10) initial
    [.create 0 (sampleSession "a") true, .commit 0 0 1, .invoke 0 1, .deliver 1, .read 1 0,
      .connect 1, .commit 1 0 2, .delete 2 ⟨1, "a"⟩, .read 2 0, .commit 2 0 3,
      .create 3 (sampleSession "b") false, .commit 3 0 4]
    (fun s => liveCheck s.db ⟨1, "b"⟩ && (s.db.sessions ⟨1, "a"⟩).isNone) (by decide)
  obtain ⟨hlive, hnone⟩ := Bool.and_eq_true_iff.mp hp
  exact ⟨s, live_iff_check.mpr hlive, by simpa using hnone, one_live_session_per_user hs⟩

/-- Session `a` fails, its user creates session `b`, and the deletion of `a` takes the user row
that points to `b`. -/
theorem delete_of_failed_session_takes_user_row : ¬ ∀ (maxRetries : ℕ) (s : State) (xs : List Act),
    Run (step maxRetries) Free initial xs s → OneLivePerUser s.db := by
  intro hall
  obtain ⟨s, hs, hp⟩ := exists_run_of_exec free_of_check (step 10) initial
    [.create 0 (sampleSession "a") true, .commit 0 0 1, .invokeFails 0 "timeout", .read 0 0,
      .commit 0 0 2, .create 1 (sampleSession "b") true, .commit 1 0 3,
      .findUser 1 (some ⟨"a", none, 0, 3600⟩), .read 1 0, .commit 1 0 4, .commit 1 0 4,
      .delete 2 ⟨1, "a"⟩, .read 2 0, .commit 2 0 5]
    (fun s => liveCheck s.db ⟨1, "b"⟩ && (s.db.userSessions ⟨1, "user"⟩).isNone &&
      (s.db.sessions ⟨1, "b"⟩).any fun r => r.userId == some "user") (by decide)
  simp only [Bool.and_eq_true, Option.isNone_iff_eq_none, Option.any_eq_true, beq_iff_eq] at hp
  obtain ⟨⟨hlive, hnone⟩, r, hr, huser⟩ := hp
  obtain ⟨r', hr', hlive⟩ := live_iff_check.mpr hlive
  obtain ⟨u, hu, row, hrow, _⟩ := (hall 10 s _ hs).pointed _ r' hr' hlive
  obtain rfl : r = r' := by simpa [hr] using hr'
  obtain rfl : "user" = u := by simpa [huser] using hu
  simp [hnone] at hrow

end ShimService.SessionManager
