import ShimService.Session.Manager

/-!
Whose a session is: the rows and the operations keep to the user that the session's id was drawn
for, in every step of the clients.
-/
namespace ShimService.SessionManager

open CondTable

variable {maxRetries : ℕ} {s t : State} {a : Act} {db db' : Db}
  {owner : SessionKey → Option String} {k : SessionKey} {p : Proc} {session : Session}

/-- Whose session an operation writes over. -/
def OpOwned (owner : SessionKey → Option String) : Op → Prop
  | .createSession session _ _ | .updateSession session _ _ =>
    owner session.key = some session.userId
  | _ => True

/-- A stored session names the user its id was drawn for. -/
def SessionsOwned (owner : SessionKey → Option String) (sessions : Table SessionKey SessionItem) :
    Prop :=
  ∀ k r u, sessions k = some r → r.userId = some u → owner k = some u

/-- A user's row points to a session whose id was drawn for this user. -/
def UsersOwned (owner : SessionKey → Option String) (users : Table UserKey UserSession) : Prop :=
  ∀ u row, users u = some row → owner ⟨u.tenantId, row.sessionId⟩ = some u.userId

theorem SessionsOwned.update {sessions : Table SessionKey SessionItem} {r' : SessionItem}
    (h : SessionsOwned owner sessions) (hr : ∀ u, r'.userId = some u → owner k = some u) :
    SessionsOwned owner (Function.update sessions k (some r')) := by
  intro j r u hj hu
  rcases Table.update_eq_some.mp hj with ⟨rfl, rfl⟩ | ⟨_, hold⟩
  · exact hr u hu
  · exact h j r u hold hu

theorem UsersOwned.update {users : Table UserKey UserSession} {u₀ : UserKey} {row : UserSession}
    (h : UsersOwned owner users) (hrow : owner ⟨u₀.tenantId, row.sessionId⟩ = some u₀.userId) :
    UsersOwned owner (Function.update users u₀ (some row)) := by
  intro u v hv
  rcases Table.update_eq_some.mp hv with ⟨rfl, rfl⟩ | ⟨_, hold⟩
  · exact hrow
  · exact h u v hold

theorem UsersOwned.remove {users : Table UserKey UserSession} (h : UsersOwned owner users)
    (u₀ : UserKey) : UsersOwned owner (users.remove u₀) :=
  fun u v hv => h u v (Table.update_none_eq_some.mp hv).2

theorem sessionsOwned_run {op : Op} (h : SessionsOwned owner db.sessions)
    (hop : OpOwned owner op) (hrun : op.run db = .ok db') : SessionsOwned owner db'.sessions := by
  cases op with
  | createSession session now seqNo =>
    obtain ⟨_, _, hsessions, _⟩ := createSession_ok hrun
    rw [hsessions]
    apply h.update
    rintro u ⟨⟩
    exact hop
  | updateSession session now seqNo =>
    obtain ⟨_, _, _, hsessions, _⟩ := updateSession_ok hrun
    rw [hsessions]
    apply h.update
    rintro u ⟨⟩
    exact hop
  | touchWithEvent key userId expirationSeconds type now seqNo =>
    obtain ⟨r, _, hr, _, hsessions, _⟩ := touchWithEvent_ok hrun
    rw [hsessions]
    exact h.update fun u hu => h key r u hr hu
  | createSessionContexts session now seqNo =>
    obtain ⟨r, hr, _, hsessions, _⟩ := createSessionContexts_ok hrun
    rw [hsessions]
    exact h.update fun u hu => h _ r u hr hu
  | setFailed key message pendingEvent =>
    rw [(setFailed_ok hrun).1]
    apply h.update
    intro u hu
    cases hr : db.sessions key with
    | none => simp [SessionItem.set, hr] at hu
    | some r => exact h key r u hr (by simpa [SessionItem.set, hr] using hu)
  | deleteSession session seqNo =>
    intro k r u hk
    rw [(deleteSession_ok hrun).1] at hk
    exact h k r u (Table.update_none_eq_some.mp hk).2
  | fixOrphanedUserSession session => exact (fixOrphanedUserSession_ok hrun).1 ▸ h

theorem usersOwned_run {op : Op} (h : UsersOwned owner db.userSessions)
    (hop : OpOwned owner op) (hrun : op.run db = .ok db') :
    UsersOwned owner db'.userSessions := by
  cases op with
  | createSession session now seqNo =>
    obtain ⟨_, _, _, husers⟩ := createSession_ok hrun
    rw [husers]
    exact h.update hop
  | updateSession session now seqNo =>
    obtain ⟨_, _, _, _, husers⟩ := updateSession_ok hrun
    exact husers ▸ h
  | touchWithEvent key userId expirationSeconds type now seqNo =>
    obtain ⟨_, row, _, hrow, _, husers⟩ := touchWithEvent_ok hrun
    rw [husers]
    exact h.update (h _ row hrow)
  | createSessionContexts session now seqNo =>
    obtain ⟨_, _, _, _, husers⟩ := createSessionContexts_ok hrun
    exact husers ▸ h
  | setFailed key message pendingEvent => exact (setFailed_ok hrun).2 ▸ h
  | deleteSession session seqNo => exact (deleteSession_ok hrun).2 ▸ h.remove _
  | fixOrphanedUserSession session => exact (fixOrphanedUserSession_ok hrun).2 ▸ h.remove _

/-- The sessions a process may write belong to the users their ids were drawn for. -/
def Proc.Owned (owner : SessionKey → Option String) : Proc → Prop
  | .creating r | .userExists r | .checking r _ | .touching r _ | .fixing r =>
    owner r.session.key = some r.session.userId
  | .updating r copy => owner r.session.key = some r.session.userId ∧
      owner copy.key = some copy.userId
  | .failing copy => owner copy.key = some copy.userId
  | _ => True

theorem owned_checkReplaceSession {r : Request} {session : Option Session}
    (hr : owner r.session.key = some r.session.userId)
    (hs : ∀ current, session = some current → owner current.key = some current.userId) :
    (checkReplaceSession r session).Owned owner := by
  unfold checkReplaceSession
  split
  · exact hr
  · rename_i current
    split_ifs with _ hcan
    · exact hr
    · trivial
    · trivial
    · exact hr
    · refine ⟨hr, ?_⟩
      have huser : current.userId = r.session.userId := by
        simp only [Session.canReplaceSession, Bool.not_eq_true', Bool.not_eq_false,
          Bool.and_eq_true, decide_eq_true_eq] at hcan
        exact hcan.1.2
      exact huser ▸ hs current rfl

theorem owned_found {session : Option Session} (hp : p.Owned owner)
    (hs : ∀ current, session = some current → owner current.key = some current.userId) :
    (p.found session).Owned owner := by
  cases p <;> try exact hp
  case checking r _ => exact owned_checkReplaceSession hp hs
  case invokeFailed =>
    cases session with
    | none => trivial
    | some current => exact hs current rfl
  case loading =>
    cases session with
    | none => trivial
    | some current =>
      simp only [Proc.found]
      split <;> trivial
  case loadingDelete => cases session <;> trivial

theorem owned_read {now : ℕ} {key : SessionKey} {row : Option SessionItem} (hp : p.Owned owner)
    (hrow : ∀ r u, row = some r → r.userId = some u → owner key = some u) :
    (p.read now key row).Owned owner := by
  unfold Proc.read
  split
  · exact owned_found hp fun _ h => by cases h
  · rename_i item
    split
    · trivial
    · rename_i session hsession
      apply owned_found hp
      rintro _ ⟨⟩
      obtain ⟨rfl, hu, _⟩ := Session.fromRecord_eq_some hsession
      exact hrow item _ rfl hu

theorem owned_again {key : SessionKey} {tries : ℕ} : (Proc.again key tries).Owned owner := by
  unfold Proc.again
  split <;> trivial

theorem owned_committed (now : ℕ) (hp : p.Owned owner) : (p.committed now).Owned owner := by
  cases p <;> try trivial
  case creating r =>
    simp only [Proc.committed]
    split <;> trivial

theorem owned_refused (now index : ℕ) (hp : p.Owned owner) :
    (p.refused now index).Owned owner := by
  cases p <;> try first | exact hp | trivial
  case creating r =>
    simp only [Proc.refused]
    split
    · exact hp
    · trivial
  case updating r copy => exact hp.1
  case finishCommitting session tries => exact owned_again

theorem opOwned_of_owned {now seqNo : ℕ} {op : Op} (hp : p.Owned owner)
    (hop : p.op now seqNo = some op) : OpOwned owner op := by
  cases p <;> cases hop <;> first | trivial | exact hp | exact hp.2

theorem Proc.Owned.mono {owner' : SessionKey → Option String} (hp : p.Owned owner)
    (h : ∀ k u, owner k = some u → owner' k = some u) : p.Owned owner' := by
  cases p <;> first | trivial | exact h _ _ hp | exact ⟨h _ _ hp.1, h _ _ hp.2⟩

/-- The transaction that an action tries to commit. -/
def transaction (s : State) : Act → Option Op
  | .commit c now seqNo => (s.procs c).op now seqNo
  | _ => none

/-- A step commits its transaction, or leaves the tables as they are. -/
theorem step_db (h : step maxRetries s a = some t) :
    (∃ op ∈ transaction s a, op.run s.db = .ok t.db) ∨
      t.db = s.db ∧ ∀ op ∈ transaction s a, ∃ index, op.run s.db = .error index := by
  cases step_effect h with
  | committed hop hrun => exact .inl ⟨_, hop, hrun⟩
  | refused hop hrun =>
    refine .inr ⟨rfl, ?_⟩
    intro op' hop'
    obtain rfl := Option.mem_unique hop hop'
    exact ⟨_, hrun⟩
  | _ => exact .inr ⟨rfl, by simp [transaction]⟩

/-- An id that was drawn for a user stays the user's. -/
theorem step_owner {u : String} (h : step maxRetries s a = some t) (hk : s.owner k = some u) :
    t.owner k = some u := by
  cases step_effect h with
  | @create c session _ _ hfresh =>
    have hne : k ≠ session.key := by
      rintro rfl
      simp [hfresh] at hk
    exact (Function.update_of_ne hne ..).trans hk
  | _ => exact hk

theorem procs_setProc (c : ℕ) (hprocs : ∀ d, (s.procs d).Owned owner) (hp : p.Owned owner) :
    ∀ d, ((s.setProc c p).procs d).Owned owner := by
  intro d
  by_cases hd : d = c
  · simpa [hd] using hp
  · simpa [hd] using hprocs d

theorem step_owned (h : step maxRetries s a = some t)
    (hsessions : SessionsOwned s.owner s.db.sessions)
    (hprocs : ∀ c, (s.procs c).Owned s.owner) : ∀ c, (t.procs c).Owned t.owner := by
  have hgrown : ∀ c, (s.procs c).Owned t.owner :=
    fun c => (hprocs c).mono fun k u => step_owner h
  cases step_effect h with
  | @create c => exact procs_setProc c hgrown (Function.update_self ..)
  | @read c now key => exact procs_setProc c hprocs (owned_read (hprocs c) (hsessions key))
  | @findUser c _ r hc =>
    have hr : (s.procs c).Owned s.owner := hprocs c
    rw [hc] at hr
    exact procs_setProc c hprocs hr
  | @committed c now => exact procs_setProc c hprocs (owned_committed now (hprocs c))
  | @refused c now _ index => exact procs_setProc c hprocs (owned_refused now index (hprocs c))
  | @invoke c j => exact procs_setProc c (procs_setProc j hprocs trivial) trivial
  | @conflicts c => exact procs_setProc c hprocs owned_again
  | _ => exact procs_setProc _ hprocs trivial

/-- The session that a process has read and goes on to touch or to delete. -/
def Proc.holds : Proc → Option Session
  | .touching _ current => some current
  | .deleting session => some session
  | _ => none

theorem holds_checkReplaceSession {r : Request} {current : Option Session}
    (h : (checkReplaceSession r current).holds = some session) : current = some session := by
  unfold checkReplaceSession at h
  split at h
  · cases h
  · split_ifs at h <;> first | exact h | cases h

theorem holds_found {found : Option Session} (h : (p.found found).holds = some session) :
    p.holds = some session ∨ found = some session := by
  cases p <;> try exact .inl h
  case checking r _ => exact .inr (holds_checkReplaceSession h)
  case invokeFailed => cases found <;> cases h
  case loading =>
    cases found with
    | none => cases h
    | some current =>
      simp only [Proc.found] at h
      split at h <;> cases h
  case loadingDelete =>
    cases found with
    | none => cases h
    | some current => exact .inr h

/-- A session that a process newly holds is the one in the row it has read. -/
theorem holds_read {now : ℕ} {key : SessionKey} {row : Option SessionItem}
    (h : (p.read now key row).holds = some session) :
    p.holds = some session ∨ ∃ r, row = some r ∧ Session.fromRecord now key r = some session := by
  unfold Proc.read at h
  split at h
  · exact (holds_found h).imp_right fun hnone => by cases hnone
  · rename_i item
    split at h
    · cases h
    · rename_i current hread
      refine (holds_found h).imp_right fun hsame => ⟨item, rfl, ?_⟩
      rw [hread, hsame]

theorem holds_again {key : SessionKey} {tries : ℕ} : (Proc.again key tries).holds = none := by
  unfold Proc.again
  split <;> rfl

theorem holds_committed {now : ℕ} : (p.committed now).holds = none := by
  cases p <;> try rfl
  case creating r =>
    simp only [Proc.committed]
    split <;> rfl

theorem holds_refused {now index : ℕ} : (p.refused now index).holds = none := by
  cases p <;> try rfl
  case creating r =>
    simp only [Proc.refused]
    split <;> rfl
  case finishCommitting => exact holds_again

/-- The sessions that processes touch and delete belong to the users their ids were drawn for. -/
def HoldsOwned (owner : SessionKey → Option String) (procs : ℕ → Proc) : Prop :=
  ∀ c session, (procs c).holds = some session → owner session.key = some session.userId

theorem holdsOwned_setProc (c : ℕ) (hprocs : HoldsOwned owner s.procs)
    (hp : ∀ session, p.holds = some session → owner session.key = some session.userId) :
    HoldsOwned owner (s.setProc c p).procs := by
  intro d session hd
  rw [State.setProc_procs] at hd
  split at hd
  · exact hp session hd
  · exact hprocs d session hd

/-- A process may move on to any place where it holds no session. -/
theorem holdsOwned_setProc_free (c : ℕ) (hprocs : HoldsOwned owner s.procs)
    (hp : p.holds = none) : HoldsOwned owner (s.setProc c p).procs :=
  holdsOwned_setProc c hprocs fun session hs => by simp [hp] at hs

theorem step_holdsOwned (h : step maxRetries s a = some t)
    (hsessions : SessionsOwned s.owner s.db.sessions) (hprocs : HoldsOwned s.owner s.procs) :
    HoldsOwned t.owner t.procs := by
  have hgrown : HoldsOwned t.owner s.procs :=
    fun c session hc => step_owner h (hprocs c session hc)
  cases step_effect h with
  | @read c now key =>
    apply holdsOwned_setProc c hprocs
    intro session hread
    rcases holds_read hread with hheld | ⟨r, hr, hsession⟩
    · exact hprocs c session hheld
    · obtain ⟨rfl, huser, _⟩ := Session.fromRecord_eq_some hsession
      exact hsessions _ r _ hr huser
  | @committed c => exact holdsOwned_setProc_free c hprocs holds_committed
  | @refused c => exact holdsOwned_setProc_free c hprocs holds_refused
  | @invoke c j => exact holdsOwned_setProc_free c (holdsOwned_setProc_free j hprocs rfl) rfl
  | @conflicts c => exact holdsOwned_setProc_free c hprocs holds_again
  | _ => exact holdsOwned_setProc_free _ hgrown rfl

/-- Whose session an operation touches or deletes. -/
def OpHeld (owner : SessionKey → Option String) : Op → Prop
  | .touchWithEvent key userId _ _ _ _ => owner key = some userId
  | .deleteSession session _ => owner session.key = some session.userId
  | _ => True

theorem opHeld_of_holds {now seqNo : ℕ} {op : Op}
    (hp : ∀ session, p.holds = some session → owner session.key = some session.userId)
    (hop : p.op now seqNo = some op) : OpHeld owner op := by
  cases p <;> cases hop <;> first | trivial | exact hp _ rfl

end ShimService.SessionManager
