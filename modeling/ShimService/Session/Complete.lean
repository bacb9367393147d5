import ShimService.Library.Transition
import ShimService.Session.Store

/-! No partial rows and no resurrection, and the failure handler that writes both. -/
namespace ShimService.SessionRows

open CondTable Transition

/-- The tables, and the keys whose row `delete_session` has removed since their last create. -/
structure State where
  db : Db
  removed : SessionKey → Bool

/-- Marks what a committed operation removes or creates. -/
def mark (removed : SessionKey → Bool) : Op → SessionKey → Bool
  | .deleteSession session _ => Function.update removed session.key true
  | .createSession session _ _ => Function.update removed session.key false
  | _ => removed

/-- Any client commits any operation; one whose transaction is refused changes nothing. -/
def step (s : State) (op : Op) : Option State :=
  match op.run s.db with
  | .ok db => some ⟨db, mark s.removed op⟩
  | .error _ => none

def initial : State := ⟨Db.empty, fun _ => false⟩

variable {s t : State} {op : Op} {ops : List Op}

/-- Every row can be read by `from_record`, and a removed row stays away until it is created. -/
structure Sound (s : State) : Prop where
  readable : ∀ now k r, s.db.sessions k = some r → (Session.fromRecord now k r).isSome
  away : ∀ k, s.removed k = true → s.db.sessions k = none

/-- A session is only marked as failed while its row exists. -/
def FailsExisting (s : State) : Op → Prop
  | .setFailed key _ _ => s.db.sessions key ≠ none
  | _ => True

theorem step_eq_some : step s op = some t ↔
    op.run s.db = .ok t.db ∧ t.removed = mark s.removed op := by
  unfold step
  cases h : op.run s.db with
  | error n => simp
  | ok db =>
    obtain ⟨db', removed⟩ := t
    simp [eq_comm]

theorem sound_initial : Sound initial := by
  refine ⟨?_, fun _ _ => rfl⟩
  intro now k r h
  cases h

/-- An operation that puts a complete item under a key, and no longer counts it as removed. -/
theorem sound_put {k : SessionKey} {r : SessionItem} (hs : Sound s) (hr : r.Complete)
    (hsessions : t.db.sessions = Function.update s.db.sessions k (some r))
    (hremoved : ∀ j, j ≠ k → t.removed j = s.removed j) (hk : t.removed k = false) : Sound t := by
  constructor
  · intro now j r' hj
    rw [hsessions] at hj
    rcases Table.update_eq_some.mp hj with ⟨rfl, rfl⟩ | ⟨_, hold⟩
    · exact Session.fromRecord_isSome.mpr hr
    · exact hs.readable now j r' hold
  · intro j hj
    by_cases hjk : j = k
    · simp [hjk, hk] at hj
    · rw [hsessions, Function.update_of_ne hjk]
      exact hs.away j (hremoved j hjk ▸ hj)

/-- An operation that sets attributes of an item that is there. -/
theorem sound_set {k : SessionKey} {r patch : SessionItem} (hs : Sound s)
    (hr : s.db.sessions k = some r)
    (hsessions : t.db.sessions = Function.update s.db.sessions k (some (r.set patch)))
    (hremoved : t.removed = s.removed) : Sound t := by
  refine sound_put hs (Session.fromRecord_isSome.mp (hs.readable 0 k r hr)).set hsessions
    (fun j _ => by rw [hremoved]) ?_
  rw [hremoved]
  by_contra hk
  simp [hs.away k (by simpa using hk)] at hr

theorem sound_step (hok : FailsExisting s op) (h : step s op = some t) (hs : Sound s) :
    Sound t := by
  obtain ⟨hrun, hremoved⟩ := step_eq_some.mp h
  cases op with
  | createSession session now seqNo =>
    obtain ⟨_, _, hsessions, _⟩ := createSession_ok hrun
    apply sound_put hs Session.toRecord_complete hsessions
    · intro j hj
      simp [hremoved, mark, hj]
    · simp [hremoved, mark]
  | updateSession session now seqNo =>
    obtain ⟨r, hr, _, hsessions, _⟩ := updateSession_ok hrun
    exact sound_set hs hr hsessions hremoved
  | touchWithEvent key userId expirationSeconds type now seqNo =>
    obtain ⟨r, _, hr, _, hsessions, _⟩ := touchWithEvent_ok hrun
    exact sound_set hs hr hsessions hremoved
  | createSessionContexts session now seqNo =>
    obtain ⟨r, hr, _, hsessions, _⟩ := createSessionContexts_ok hrun
    exact sound_set hs hr hsessions hremoved
  | setFailed key message pendingEvent =>
    obtain ⟨r, hr⟩ := Option.ne_none_iff_exists'.mp hok
    obtain ⟨hsessions, _⟩ := setFailed_ok hrun
    rw [Table.upsert, hr, Option.getD_some] at hsessions
    exact sound_set hs hr hsessions hremoved
  | deleteSession session seqNo =>
    obtain ⟨hsessions, _⟩ := deleteSession_ok hrun
    constructor
    · intro now k r hk
      rw [hsessions] at hk
      exact hs.readable now k r (Table.update_none_eq_some.mp hk).2
    · intro k hk
      rw [hsessions]
      by_cases hkey : k = session.key
      · simp [hkey]
      · rw [Function.update_of_ne hkey]
        exact hs.away k (by simpa [hremoved, mark, hkey] using hk)
  | fixOrphanedUserSession session =>
    obtain ⟨hsessions, _⟩ := fixOrphanedUserSession_ok hrun
    have hkept : t.removed = s.removed := hremoved
    exact ⟨hsessions ▸ hs.readable, fun k hk => hsessions ▸ hs.away k (hkept ▸ hk)⟩

/-- Where a session is only marked as failed while its row exists, no row is partial and no
removed row comes back but through `create_session`: in every run from the empty tables. -/
theorem session_rows_sound (h : Run step FailsExisting initial ops s) : Sound s :=
  h.invariant (fun _ _ _ hok hstep hs => sound_step hok hstep hs) sound_initial

def failsExistingCheck (s : State) : Op → Bool
  | .setFailed key _ _ => (s.db.sessions key).isSome
  | _ => true

theorem failsExisting_of_check (s : State) (op : Op) (h : failsExistingCheck s op = true) :
    FailsExisting s op := by
  cases op with
  | setFailed key message pendingEvent => simpa [failsExistingCheck, FailsExisting,
      Option.isSome_iff_ne_none] using h
  | _ => trivial

theorem session_rows_sound_failed_then_deleted :
    ∃ s, s.removed ⟨1, "a"⟩ = true ∧ Sound s := by
  obtain ⟨s, hs, hp⟩ := exists_run_of_exec failsExisting_of_check step initial
    [.createSession (sampleSession "a") 0 1, .createSessionContexts (sampleSession "a") 0 2,
      .setFailed ⟨1, "a"⟩ "shutdown" none, .deleteSession (sampleSession "a") 3]
    (fun s => s.removed ⟨1, "a"⟩) (by decide)
  exact ⟨s, hp, session_rows_sound hs⟩

/-- A poller marks a session as failed after it was deleted, and a row of two attributes is
there again. -/
theorem late_failure_writes_partial_row :
    (¬ ∀ (s : State) (ops : List Op), Run step Free initial ops s →
      ∀ now k r, s.db.sessions k = some r → (Session.fromRecord now k r).isSome) ∧
    ¬ ∀ (s : State) (ops : List Op), Run step Free initial ops s →
      ∀ k, s.removed k = true → s.db.sessions k = none := by
  obtain ⟨s, hs, hp⟩ := exists_run_of_exec free_of_check step initial
    [.createSession (sampleSession "a") 0 1, .createSessionContexts (sampleSession "a") 0 2,
      .deleteSession (sampleSession "a") 3, .setFailed ⟨1, "a"⟩ "shutdown" none]
    (fun s => s.removed ⟨1, "a"⟩ && (s.db.sessions ⟨1, "a"⟩).any fun r =>
      (Session.fromRecord 0 ⟨1, "a"⟩ r).isNone) (by decide)
  obtain ⟨hremoved, hrow⟩ := Bool.and_eq_true_iff.mp hp
  obtain ⟨r, hr, hnone⟩ := (Option.any_eq_true _ _).mp hrow
  refine ⟨fun hall => ?_, fun hall => ?_⟩
  · have := hall s _ hs 0 _ r hr
    simp_all
  · have := hall s _ hs _ hremoved
    simp [hr] at this

end ShimService.SessionRows
