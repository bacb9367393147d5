import ShimService.ResourceLock.AutoRefresh

/-! The refresh thread leaves a released lock alone, and `check` keeps its answer. -/
namespace ShimService.AutoRefreshLock

open CondTable Transition

variable {lock : Lock} {s t : State} {a : Act} {choice : Choice} {xs ys : List Act} {r c d : ℕ}

/-- The thread is inside its `with`. -/
def Worker.inMutex : Worker → Bool
  | .locked | .refreshing | .patching _ | .creating _ | .refreshed _ | .unlocking _ | .raising =>
    true
  | _ => false

/-- The thread is inside `source.refresh()`. -/
def Worker.refreshes : Worker → Bool
  | .refreshing | .patching _ | .creating _ => true
  | _ => false

/-- The thread is on its way from a failed refresh to the flag. -/
def Worker.failing : Worker → Bool
  | .refreshed false | .raising | .handling => true
  | _ => false

/-- The thread is on its way from the flag to the end of its loop. -/
def Worker.stopping : Worker → Bool
  | .unlocking _ | .testingFailed | .ended => true
  | _ => false

def Release.inMutex : Release → Bool
  | .locked | .deleting _ | .assigning _ | .unlocking | .raising => true
  | _ => false

/-- The call has seen or set `released`. -/
def Release.done : Release → Bool
  | .unlocking | .notifying | .joining | .returning | .returned _ => true
  | _ => false

/-- A refresh has returned `False` or raised. -/
def FailedRefresh (log : List RefreshEvent) : Prop := .returned false ∈ log ∨ .raised ∈ log

/-- What a call of `check` sees from now on. -/
def Stopped (s : State) : Prop := s.failed = true ∨ s.released ≠ none

/-- What one step of the refresh thread does; `moves` is any that only changes where it stands. -/
inductive WorkerEffect (s : State) : State → Prop where
  | moves {w : Worker} (hfrom : s.worker.inMutex = false) (hnot : s.worker.failing = false)
      (hw : w.inMutex = false) (hw' : w.failing = false)
      (hfailed : s.failed = true → s.worker.stopping = true → w = .ended) :
      WorkerEffect s { s with worker := w }
  | locks (hw : s.worker = .acquiring) (hfree : s.mutex = none) :
      WorkerEffect s { s with worker := .locked, mutex := some .worker }
  | breaks (hw : s.worker = .locked) (hreleased : s.released ≠ none) :
      WorkerEffect s { s with worker := .unlocking true }
  | begins (hw : s.worker = .locked) (hreleased : s.released = none) :
      WorkerEffect s { s with worker := .refreshing, log := s.log ++ [.began] }
  | asks {w : Worker} (hw : s.worker.refreshes = true) (hw' : w.refreshes = true) :
      WorkerEffect s { s with worker := w }
  | writes {table : Table String ResourceLockRepo.LocalDto} {dto : ResourceLockRepo.LocalDto}
      {target : ℕ} (hw : s.worker.refreshes = true) :
      WorkerEffect s { s with
        table, timeoutAt := target, worker := .refreshed true
        log := s.log ++ [.wrote dto, .returned true] }
  | refused (hw : s.worker.refreshes = true) :
      WorkerEffect s { s with worker := .refreshed false, log := s.log ++ [.returned false] }
  | raises (hw : s.worker.refreshes = true) :
      WorkerEffect s { s with worker := .raising, log := s.log ++ [.raised] }
  | notes {result : Bool} (hw : s.worker = .refreshed result) :
      WorkerEffect s { s with worker := .unlocking false, failed := s.failed || !result }
  | unlocks {breaks : Bool} (hw : s.worker = .unlocking breaks) :
      WorkerEffect s
        { s with worker := if breaks then .ended else .testingFailed, mutex := none }
  | leaves (hw : s.worker = .raising) :
      WorkerEffect s { s with worker := .handling, mutex := none }
  | handles (hw : s.worker = .handling) :
      WorkerEffect s { s with worker := .testingFailed, failed := true }

theorem workerStep_effect (h : workerStep lock s choice = some t) : WorkerEffect s t := by
  unfold workerStep at h
  cases choice with
  | goes =>
    dsimp only at h
    split at h
    · rename_i hw
      cases h
      refine .moves (by simp [hw, Worker.inMutex]) (by simp [hw, Worker.failing]) ?_ ?_ ?_
      all_goals split <;> simp_all [Worker.inMutex, Worker.failing]
    · rename_i hw
      cases h
      refine .moves (by simp [hw, Worker.inMutex]) (by simp [hw, Worker.failing]) ?_ ?_
        (by simp [hw, Worker.stopping])
      all_goals split <;> simp [Worker.inMutex, Worker.failing]
    · rename_i hw
      split at h <;> cases h
      exact .moves (by simp [hw, Worker.inMutex]) (by simp [hw, Worker.failing]) rfl rfl
        fun _ _ => rfl
    · rename_i hw
      cases h
      refine .moves (by simp [hw, Worker.inMutex]) (by simp [hw, Worker.failing]) ?_ ?_
        (by simp [hw, Worker.stopping])
      all_goals split <;> simp [Worker.inMutex, Worker.failing]
    · rename_i hw
      split at h <;> cases h
      rename_i hfree
      exact .locks hw hfree
    · rename_i hw
      split at h <;> cases h <;> rename_i hreleased
      · exact .breaks hw (Option.isSome_iff_ne_none.mp hreleased)
      · exact .begins hw (by simpa using hreleased)
    · rename_i hw
      split at h <;> cases h
      · exact .raises (by simp [hw, Worker.refreshes])
      · exact .asks (by simp [hw, Worker.refreshes]) rfl
    · rename_i hw
      split at h <;> cases h
      · exact .writes (by simp [hw, Worker.refreshes])
      · exact .asks (by simp [hw, Worker.refreshes]) rfl
    · rename_i hw
      split at h <;> cases h
      · exact .writes (by simp [hw, Worker.refreshes])
      · exact .refused (by simp [hw, Worker.refreshes])
    · rename_i hw
      cases h
      exact .notes hw
    · rename_i hw
      cases h
      exact .unlocks hw
    · rename_i hw
      cases h
      exact .leaves hw
    · rename_i hw
      cases h
      exact .handles hw
    · cases h
  | timesOut =>
    dsimp only at h
    split at h <;> cases h
    rename_i hw
    exact .moves (by simp [hw, Worker.inMutex]) (by simp [hw, Worker.failing]) rfl rfl
      (by simp [hw, Worker.stopping])
  | raises =>
    dsimp only at h
    split at h <;> cases h <;> rename_i hw <;> exact .raises (by simp [hw, Worker.refreshes])

/-- What one step of a call of `release` does. -/
inductive ReleaseEffect (s : State) (r : ℕ) : State → Prop where
  | moves {p : Release} (hfrom : (s.releases r).inMutex = p.inMutex)
      (hassigns : ∀ result, s.releases r ≠ .assigning result)
      (hdone : p.done = true → (s.releases r).done = true ∨ s.released ≠ none) :
      ReleaseEffect s r (s.setRelease r p)
  | locks (hr : s.releases r = .acquiring) (hfree : s.mutex = none) :
      ReleaseEffect s r ({ s with mutex := some (.release r) }.setRelease r .locked)
  | releases {timeoutAt : ℕ} {table : Table String ResourceLockRepo.LocalDto} {result : Bool}
      (hr : s.releases r = .deleting timeoutAt) :
      ReleaseEffect s r
        ({ s with table, releaseResult := some result }.setRelease r (.assigning result))
  | assigns {result : Bool} (hr : s.releases r = .assigning result) :
      ReleaseEffect s r ({ s with released := some result }.setRelease r .unlocking)
  | unlocks {p : Release} (hr : (s.releases r).inMutex = true) (hp : p.inMutex = false)
      (hassigns : ∀ result, s.releases r ≠ .assigning result)
      (hdone : p.done = true → (s.releases r).done = true) :
      ReleaseEffect s r ({ s with mutex := none }.setRelease r p)
  | notifies (hr : s.releases r = .notifying) :
      ReleaseEffect s r ({ s with signalled := true }.setRelease r .joining)

theorem releaseStep_effect (h : releaseStep lock s r choice = some t) : ReleaseEffect s r t := by
  unfold releaseStep at h
  cases choice with
  | goes =>
    dsimp only at h
    split at h
    · rename_i hr
      cases h
      exact .moves (by simp [hr, Release.inMutex]) (by simp [hr]) (by simp [Release.done])
    · rename_i hr
      cases h
      by_cases hreleased : s.released = none
      · simp only [hreleased, Option.isNone_none, if_true]
        exact .moves (by simp [hr, Release.inMutex]) (by simp [hr]) (by simp [Release.done])
      · rw [if_neg (by simpa using hreleased)]
        exact .moves (by simp [hr, Release.inMutex]) (by simp [hr]) fun _ => .inr hreleased
    · rename_i hr
      split at h <;> cases h
      rename_i hfree
      exact .locks hr hfree
    · rename_i hr
      split at h <;> cases h <;>
        exact .moves (by simp [hr, Release.inMutex]) (by simp [hr]) (by simp [Release.done])
    · rename_i hr
      split at h <;> cases h
      · exact .releases hr
      · exact .releases hr
    · rename_i hr
      cases h
      exact .assigns hr
    · rename_i hr
      cases h
      exact .unlocks (by simp [hr, Release.inMutex]) rfl (by simp [hr]) (by simp [hr, Release.done])
    · rename_i hr
      cases h
      exact .notifies hr
    · rename_i hr
      cases h
      exact .moves (by simp [hr, Release.inMutex]) (by simp [hr]) (by simp [hr, Release.done])
    · rename_i hr
      cases h
      exact .moves (by simp [hr, Release.inMutex]) (by simp [hr]) (by simp [hr, Release.done])
    · rename_i hr
      cases h
      exact .unlocks (by simp [hr, Release.inMutex]) rfl (by simp [hr]) (by simp [Release.done])
    · cases h
    · cases h
  | timesOut => cases h
  | raises =>
    dsimp only at h
    split at h <;> cases h
    rename_i hr
    exact .moves (by simp [hr, Release.inMutex]) (by simp [hr]) (by simp [Release.done])

structure Inv (s : State) : Prop where
  worker : s.worker.inMutex = true → s.mutex = some .worker
  release : ∀ r, (s.releases r).inMutex = true → s.mutex = some (.release r)
  released : s.releaseResult ≠ none →
    s.released ≠ none ∨ ∃ r result, s.releases r = .assigning result
  refreshes : s.worker.refreshes = true → s.released = none ∧ s.releaseResult = none
  done : ∀ r, (s.releases r).done = true → s.released ≠ none
  failed : FailedRefresh s.log →
    s.worker.failing = true ∨ s.failed = true ∧ s.worker.stopping = true
  checks : ∀ c, s.checks c = .returned false → Stopped s

theorem refreshes_inMutex {w : Worker} (h : w.refreshes = true) : w.inMutex = true := by
  cases w <;> simp_all [Worker.refreshes, Worker.inMutex]

theorem refreshes_not_failing {w : Worker} (h : w.refreshes = true) :
    w.failing = false ∧ w.stopping = false := by
  cases w <;> simp_all [Worker.refreshes, Worker.failing, Worker.stopping]

theorem not_refreshes {w : Worker} (h : w.inMutex = false) : w.refreshes = false := by
  cases w <;> simp_all [Worker.refreshes, Worker.inMutex]

/-- What the refresh thread leaves to the others. -/
theorem worker_frame (h : WorkerEffect s t) : t.released = s.released ∧
    t.releaseResult = s.releaseResult ∧ t.releases = s.releases ∧ t.checks = s.checks ∧
    (s.failed = true → t.failed = true) := by
  cases h <;> simp_all

theorem worker_mutex (h : WorkerEffect s t)
    (hs : s.worker.inMutex = true → s.mutex = some .worker) :
    (t.worker.inMutex = true → t.mutex = some .worker) ∧
      (t.mutex = s.mutex ∨ s.mutex = none ∨ s.mutex = some .worker) := by
  cases h with
  | moves _ _ hw => exact ⟨fun hin => absurd hin (by simp [hw]), .inl rfl⟩
  | locks _ hfree => exact ⟨fun _ => rfl, .inr (.inl hfree)⟩
  | breaks hw | begins hw | notes hw =>
    exact ⟨fun _ => hs (by simp [hw, Worker.inMutex]), .inl rfl⟩
  | asks hw | writes hw | refused hw | raises hw =>
    exact ⟨fun _ => hs (refreshes_inMutex hw), .inl rfl⟩
  | @unlocks breaks hw =>
    refine ⟨fun hin => ?_, .inr (.inr (hs (by simp [hw, Worker.inMutex])))⟩
    cases breaks <;> cases hin
  | leaves hw => exact ⟨fun hin => (by cases hin), .inr (.inr (hs (by simp [hw, Worker.inMutex])))⟩
  | handles hw => exact ⟨fun hin => (by cases hin), .inl rfl⟩

/-- A refresh begins only after a look at `released` inside the mutex. -/
theorem worker_refreshes (h : WorkerEffect s t) (ht : t.worker.refreshes = true) :
    s.worker.refreshes = true ∨ s.worker = .locked ∧ s.released = none := by
  cases h with
  | moves _ _ hw => exact absurd ht (by simp [not_refreshes hw])
  | begins hw hreleased => exact .inr ⟨hw, hreleased⟩
  | asks hw => exact .inl hw
  | @unlocks breaks hw => cases breaks <;> cases ht
  | locks | breaks | writes | refused | raises | notes | leaves | handles => cases ht

/-- After a failed refresh the thread is on its way to the flag or, with the flag set, to its
end. -/
theorem worker_failed (h : WorkerEffect s t)
    (hs : FailedRefresh s.log → s.worker.failing = true ∨ s.failed = true ∧
      s.worker.stopping = true) (hlog : FailedRefresh t.log) :
    t.worker.failing = true ∨ t.failed = true ∧ t.worker.stopping = true := by
  have hnone : s.worker.failing = false → s.worker.stopping = false → ¬ FailedRefresh s.log := by
    intro hfailing hstopping hbefore
    simpa [hfailing, hstopping] using hs hbefore
  cases h with
  | moves _ hnot _ _ hfailed =>
    rcases hs hlog with hfailing | ⟨hf, hstop⟩
    · rw [hnot] at hfailing
      cases hfailing
    · exact .inr ⟨hf, by simp [hfailed hf hstop, Worker.stopping]⟩
  | locks hw | breaks hw =>
    exact absurd hlog (hnone (by simp [hw, Worker.failing]) (by simp [hw, Worker.stopping]))
  | begins hw =>
    have hbefore : FailedRefresh s.log := by simpa [FailedRefresh] using hlog
    exact absurd hbefore (hnone (by simp [hw, Worker.failing]) (by simp [hw, Worker.stopping]))
  | asks hw =>
    obtain ⟨hfailing, hstopping⟩ := refreshes_not_failing hw
    exact absurd hlog (hnone hfailing hstopping)
  | writes hw =>
    obtain ⟨hfailing, hstopping⟩ := refreshes_not_failing hw
    have hbefore : FailedRefresh s.log := by simpa [FailedRefresh] using hlog
    exact absurd hbefore (hnone hfailing hstopping)
  | refused | raises => exact .inl rfl
  | @notes result hw =>
    right
    rcases hs hlog with hfailing | ⟨hf, _⟩
    · cases result with
      | false => exact ⟨Bool.or_true _, rfl⟩
      | true => simp [hw, Worker.failing] at hfailing
    · exact ⟨by simp [hf], rfl⟩
  | @unlocks breaks hw =>
    rcases hs hlog with hfailing | ⟨hf, _⟩
    · simp [hw, Worker.failing] at hfailing
    · exact .inr ⟨hf, by cases breaks <;> rfl⟩
  | leaves => exact .inl rfl
  | handles => exact .inr ⟨rfl, rfl⟩

/-- In the mutex, with `released` not set, the underlying lock is not released. -/
theorem locked_not_released (hs : Inv s) (hw : s.worker = .locked) (hr : s.released = none) :
    s.releaseResult = none := by
  by_contra hset
  rcases hs.released hset with hne | ⟨r, result, hassigns⟩
  · exact hne hr
  · have hboth := (hs.worker (by simp [hw, Worker.inMutex])).symm.trans
      (hs.release r (by simp [hassigns, Release.inMutex]))
    cases hboth

theorem inv_worker (h : WorkerEffect s t) (hs : Inv s) : Inv t := by
  obtain ⟨hreleased, hresult, hreleases, hchecks, hf⟩ := worker_frame h
  obtain ⟨hin, hmutex⟩ := worker_mutex h hs.worker
  have hfree : ∀ r, (s.releases r).inMutex = true →
      ¬ (s.mutex = none ∨ s.mutex = some .worker) := by
    intro r hr
    simp [hs.release r hr]
  refine ⟨hin, fun r hr => ?_, ?_, fun ht => ?_, ?_, worker_failed h hs.failed, fun c hc => ?_⟩
  · rw [hreleases] at hr
    rcases hmutex with hsame | hother
    · rw [hsame]
      exact hs.release r hr
    · exact absurd hother (hfree r hr)
  · rw [hresult, hreleased, hreleases]
    exact hs.released
  · rw [hreleased, hresult]
    rcases worker_refreshes h ht with hbefore | ⟨hlocked, hnone⟩
    · exact hs.refreshes hbefore
    · exact ⟨hnone, locked_not_released hs hlocked hnone⟩
  · rw [hreleases, hreleased]
    exact hs.done
  · rw [hchecks] at hc
    rw [Stopped, hreleased]
    exact (hs.checks c hc).imp_left hf

/-- What a call of `release` leaves to the others. -/
theorem release_frame (h : ReleaseEffect s r t) : t.worker = s.worker ∧ t.failed = s.failed ∧
    t.log = s.log ∧ t.checks = s.checks ∧ (s.released ≠ none → t.released ≠ none) ∧
    ∀ q, q ≠ r → t.releases q = s.releases q := by
  cases h <;> simp_all

theorem release_mutex (h : ReleaseEffect s r t)
    (hs : ∀ q, (s.releases q).inMutex = true → s.mutex = some (.release q)) :
    (∀ q, (t.releases q).inMutex = true → t.mutex = some (.release q)) ∧
      (t.mutex = s.mutex ∨ s.mutex = none ∨ s.mutex = some (.release r)) := by
  cases h with
  | @moves p hfrom =>
    refine ⟨fun q hq => ?_, .inl rfl⟩
    rw [setRelease_releases] at hq
    split at hq
    · rename_i heq
      subst heq
      exact hs q (hfrom.trans hq)
    · exact hs q hq
  | locks hr hfree =>
    refine ⟨fun q hq => ?_, .inr (.inl hfree)⟩
    rw [setRelease_releases] at hq
    split at hq
    · rename_i heq
      rw [heq]
      rfl
    · simp [hs q hq] at hfree
  | releases hr | assigns hr =>
    refine ⟨fun q hq => ?_, .inl rfl⟩
    rw [setRelease_releases] at hq
    split at hq
    · rename_i heq
      subst heq
      exact hs q (by simp [hr, Release.inMutex])
    · exact hs q hq
  | unlocks hr hp =>
    refine ⟨fun q hq => ?_, .inr (.inr (hs r hr))⟩
    rw [setRelease_releases] at hq
    split at hq
    · rw [hp] at hq
      cases hq
    · rename_i hne
      have hboth := (hs q hq).symm.trans (hs r hr)
      simp only [Option.some.injEq, Party.release.injEq] at hboth
      exact absurd hboth hne
  | notifies hr =>
    refine ⟨fun q hq => ?_, .inl rfl⟩
    rw [setRelease_releases] at hq
    split at hq
    · cases hq
    · exact hs q hq

/-- A call that has released the underlying lock is about to say so, or has said so. -/
theorem release_released (h : ReleaseEffect s r t)
    (hs : s.releaseResult ≠ none → s.released ≠ none ∨ ∃ q result, s.releases q = .assigning result)
    (ht : t.releaseResult ≠ none) :
    t.released ≠ none ∨ ∃ q result, t.releases q = .assigning result := by
  have hkeep : ∀ {p : Release}, (∀ result, s.releases r ≠ .assigning result) →
      (∃ q result, s.releases q = .assigning result) →
      ∃ q result, (s.setRelease r p).releases q = .assigning result := by
    rintro p hr ⟨q, result, hq⟩
    have hne : q ≠ r := fun heq => hr result (heq ▸ hq)
    exact ⟨q, result, by simp [hne, hq]⟩
  cases h with
  | moves _ hassigns => exact (hs ht).imp_right (hkeep hassigns)
  | locks hr => exact (hs ht).imp_right (hkeep (by simp [hr]))
  | releases hr => exact .inr ⟨r, _, by rw [setRelease_releases, if_pos rfl]⟩
  | assigns hr => exact .inl (by simp)
  | unlocks _ _ hassigns => exact (hs ht).imp_right (hkeep hassigns)
  | notifies hr => exact (hs ht).imp_right (hkeep (by simp [hr]))

/-- Outside the mutex a call of `release` changes neither flag. -/
theorem release_flags (h : ReleaseEffect s r t) (hr : (s.releases r).inMutex = false) :
    t.released = s.released ∧ t.releaseResult = s.releaseResult := by
  cases h with
  | releases hr' | assigns hr' => simp [hr', Release.inMutex] at hr
  | moves | locks | unlocks | notifies => exact ⟨rfl, rfl⟩

theorem release_done (h : ReleaseEffect s r t)
    (hs : ∀ q, (s.releases q).done = true → s.released ≠ none) {q : ℕ}
    (hq : (t.releases q).done = true) : t.released ≠ none := by
  obtain ⟨_, _, _, _, hkeep, hother⟩ := release_frame h
  by_cases hne : q = r
  · subst hne
    cases h with
    | moves _ _ hdone =>
      rw [setRelease_releases, if_pos rfl] at hq
      exact (hdone hq).elim (hs q) id
    | locks => simp [Release.done] at hq
    | releases => simp [Release.done] at hq
    | assigns => simp
    | unlocks _ _ _ hdone =>
      rw [setRelease_releases, if_pos rfl] at hq
      exact hs q (hdone hq)
    | notifies hr => exact hs q (by simp [hr, Release.done])
  · rw [hother q hne] at hq
    exact hkeep (hs q hq)

theorem inv_release (h : ReleaseEffect s r t) (hs : Inv s) : Inv t := by
  obtain ⟨hworker, hf, hlog, hchecks, hkeep, _⟩ := release_frame h
  obtain ⟨hin, hmutex⟩ := release_mutex h hs.release
  refine ⟨fun hw => ?_, hin, release_released h hs.released, fun hw => ?_,
    fun q => release_done h hs.done, fun hfailed => ?_, fun c hc => ?_⟩
  · rw [hworker] at hw
    have hheld := hs.worker hw
    rcases hmutex with hsame | hfree | hmine
    · rw [hsame]
      exact hheld
    · rw [hheld] at hfree
      cases hfree
    · rw [hheld] at hmine
      cases hmine
  · rw [hworker] at hw
    have hout : (s.releases r).inMutex = false := by
      by_contra hr
      have hboth := (hs.worker (refreshes_inMutex hw)).symm.trans (hs.release r (by simpa using hr))
      cases hboth
    obtain ⟨hreleased, hresult⟩ := release_flags h hout
    rw [hreleased, hresult]
    exact hs.refreshes hw
  · rw [hlog] at hfailed
    rw [hworker, hf]
    exact hs.failed hfailed
  · rw [hchecks] at hc
    rw [Stopped, hf]
    exact (hs.checks c hc).imp_right hkeep

/-- What one step of a call of `check` does. -/
theorem checkStep_effect (h : checkStep s c = some t) :
    (s.checks c = .idle ∧ t = s.setCheck c (if s.failed then .returned false else .notFailed)) ∨
      (s.checks c = .notFailed ∧ t = s.setCheck c (.returned s.released.isNone)) := by
  unfold checkStep at h
  split at h <;> cases h <;> rename_i hc
  · exact .inl ⟨hc, rfl⟩
  · exact .inr ⟨hc, rfl⟩

theorem inv_check (h : checkStep s c = some t) (hs : Inv s) : Inv t := by
  have hset : ∀ k, (k = .returned false → Stopped s) → Inv (s.setCheck c k) := by
    intro k hk
    refine ⟨hs.worker, hs.release, hs.released, hs.refreshes, hs.done, hs.failed, fun d hd => ?_⟩
    rw [setCheck_checks] at hd
    split at hd
    · exact hk hd
    · exact hs.checks d hd
  rcases checkStep_effect h with ⟨_, rfl⟩ | ⟨_, rfl⟩
  · refine hset _ fun hreturned => .inl ?_
    by_contra hf
    rw [if_neg hf] at hreturned
    cases hreturned
  · refine hset _ fun hreturned => .inr ?_
    simpa [Option.isSome_iff_ne_none] using hreturned

theorem inv_step (h : step lock s a = some t) (hs : Inv s) : Inv t := by
  cases a with
  | tick millis =>
    cases h
    exact ⟨hs.worker, hs.release, hs.released, hs.refreshes, hs.done, hs.failed, hs.checks⟩
  | others table =>
    cases h
    exact ⟨hs.worker, hs.release, hs.released, hs.refreshes, hs.done, hs.failed, hs.checks⟩
  | worker choice => exact inv_worker (workerStep_effect h) hs
  | release r choice => exact inv_release (releaseStep_effect h) hs
  | check c => exact inv_check h hs

theorem inv_initial {clock timeoutAt : ℕ} {table : Table String ResourceLockRepo.LocalDto} :
    Inv (initial clock table timeoutAt) := by
  refine ⟨?_, ?_, ?_, ?_, ?_, ?_, ?_⟩
  all_goals simp [initial, Worker.inMutex, Release.inMutex, Worker.refreshes, Release.done,
    FailedRefresh]

/-- The flags that `check` reads are never taken back. -/
theorem stopped_step (h : step lock s a = some t) (hs : Stopped s) : Stopped t := by
  cases a with
  | tick millis | others table =>
    cases h
    exact hs
  | worker choice =>
    obtain ⟨hreleased, _, _, _, hf⟩ := worker_frame (workerStep_effect h)
    rw [Stopped, hreleased]
    exact hs.imp_left hf
  | release r choice =>
    obtain ⟨_, hf, _, _, hkeep, _⟩ := release_frame (releaseStep_effect h)
    rw [Stopped, hf]
    exact hs.imp_right hkeep
  | check c =>
    rcases checkStep_effect h with ⟨_, rfl⟩ | ⟨_, rfl⟩ <;> exact hs

theorem worker_log (h : WorkerEffect s t) :
    t.log = s.log ∨ s.worker.refreshes = true ∨ s.worker = .locked ∧ s.released = none := by
  cases h with
  | begins hw hreleased => exact .inr (.inr ⟨hw, hreleased⟩)
  | writes hw | refused hw | raises hw => exact .inr (.inl hw)
  | moves | locks | breaks | asks | notes | unlocks | leaves | handles => exact .inl rfl

theorem release_result (h : ReleaseEffect s r t) (hs : s.releaseResult ≠ none) :
    t.releaseResult ≠ none := by
  cases h <;> simp_all

/-- A step from a state with the underlying lock released leaves it released, and makes no part of
a refresh. -/
theorem released_step (h : step lock s a = some t) (hs : Inv s) (hr : s.releaseResult ≠ none) :
    t.releaseResult ≠ none ∧ t.log = s.log := by
  cases a with
  | tick millis | others table =>
    cases h
    exact ⟨hr, rfl⟩
  | worker choice =>
    have heffect := workerStep_effect h
    obtain ⟨_, hresult, _⟩ := worker_frame heffect
    refine ⟨hresult ▸ hr, ?_⟩
    rcases worker_log heffect with hlog | hrefreshes | ⟨hlocked, hnone⟩
    · exact hlog
    · exact absurd (hs.refreshes hrefreshes).2 hr
    · exact absurd (locked_not_released hs hlocked hnone) hr
  | release r choice =>
    have heffect := releaseStep_effect h
    exact ⟨release_result heffect hr, (release_frame heffect).2.2.1⟩
  | check c =>
    rcases checkStep_effect h with ⟨_, rfl⟩ | ⟨_, rfl⟩ <;> exact ⟨hr, rfl⟩

theorem failed_step (h : step lock s a = some t) (hs : Inv s) (hf : FailedRefresh s.log) :
    t.log = s.log := by
  cases a with
  | tick millis | others table =>
    cases h
    rfl
  | worker choice =>
    rcases worker_log (workerStep_effect h) with hlog | hrefreshes | ⟨hlocked, _⟩
    · exact hlog
    · obtain ⟨hfailing, hstopping⟩ := refreshes_not_failing hrefreshes
      simpa [hfailing, hstopping] using hs.failed hf
    · simpa [hlocked, Worker.failing, Worker.stopping] using hs.failed hf
  | release r choice => exact (release_frame (releaseStep_effect h)).2.2.1
  | check c =>
    rcases checkStep_effect h with ⟨_, rfl⟩ | ⟨_, rfl⟩ <;> rfl

/-- What becomes of a call of `check` that begins when a flag is set. -/
def AnswersFalse (c : ℕ) (s : State) : Prop :=
  Stopped s ∧ (s.checks c = .idle ∨ s.checks c = .notFailed ∧ s.released ≠ none ∨
    s.checks c = .returned false)

theorem answersFalse_step (h : step lock s a = some t) (hs : AnswersFalse c s) :
    AnswersFalse c t := by
  obtain ⟨hstopped, hcheck⟩ := hs
  refine ⟨stopped_step h hstopped, ?_⟩
  cases a with
  | tick millis | others table =>
    cases h
    exact hcheck
  | worker choice =>
    obtain ⟨hreleased, _, _, hchecks, _⟩ := worker_frame (workerStep_effect h)
    rw [hchecks, hreleased]
    exact hcheck
  | release r choice =>
    obtain ⟨_, _, _, hchecks, hkeep, _⟩ := release_frame (releaseStep_effect h)
    rw [hchecks]
    exact hcheck.imp_right (Or.imp_left fun ⟨hc, hr⟩ => ⟨hc, hkeep hr⟩)
  | check d =>
    by_cases hd : c = d
    · subst hd
      rcases checkStep_effect h with ⟨_, rfl⟩ | ⟨hc, rfl⟩
      · rw [setCheck_checks, if_pos rfl]
        rcases hstopped with hf | hr
        · simp [hf]
        · by_cases hf : s.failed = true
          · simp [hf]
          · simp [hf, hr]
      · rw [hc] at hcheck
        have hr : s.released ≠ none := by simpa using hcheck
        rw [setCheck_checks, if_pos rfl]
        exact .inr (.inr (by simpa [Option.isSome_iff_ne_none] using hr))
    · have hsame : t.checks c = s.checks c ∧ t.released = s.released := by
        rcases checkStep_effect h with ⟨_, rfl⟩ | ⟨_, rfl⟩ <;> simp [hd]
      rw [hsame.1, hsame.2]
      exact hcheck

/-- Once the underlying lock is released, or a refresh has failed, the refresh thread does nothing
more to it; and a call of `check` that begins after another has returned `False`, after a call of
`release` has returned, or after a failed refresh has ended the thread, returns `False`. -/
theorem stops_at_release {clock timeoutAt : ℕ} {table : Table String ResourceLockRepo.LocalDto}
    (h : Run (step lock) Free (initial clock table timeoutAt) xs s)
    (h' : Run (step lock) Free s ys t) :
    (s.releaseResult ≠ none → t.log = s.log) ∧ (FailedRefresh s.log → t.log = s.log) ∧
      ∀ c result, s.checks c = .idle → t.checks c = .returned result →
        (∃ d, s.checks d = .returned false) ∨
          (∃ r released, s.releases r = .returned released) ∨
          s.worker = .ended ∧ FailedRefresh s.log → result = false := by
  have hs : Inv s := h.invariant (fun _ _ _ _ => inv_step) inv_initial
  refine ⟨fun hr => ?_, fun hf => ?_, fun c result hidle hreturned hearlier => ?_⟩
  · have hkept := h'.invariant (I := fun u => Inv u ∧ u.releaseResult ≠ none ∧ u.log = s.log)
      (fun _ _ _ _ hstep ⟨hu, hru, hlog⟩ =>
        have hnext := released_step hstep hu hru
        ⟨inv_step hstep hu, hnext.1, hnext.2.trans hlog⟩) ⟨hs, hr, rfl⟩
    exact hkept.2.2
  · have hkept := h'.invariant (I := fun u => Inv u ∧ u.log = s.log)
      (fun _ _ _ _ hstep ⟨hu, hlog⟩ =>
        ⟨inv_step hstep hu, (failed_step hstep hu (hlog ▸ hf)).trans hlog⟩) ⟨hs, rfl⟩
    exact hkept.2
  · have hstopped : Stopped s := by
      rcases hearlier with ⟨d, hd⟩ | ⟨r, released, hr⟩ | ⟨hended, hf⟩
      · exact hs.checks d hd
      · exact .inr (hs.done r (by simp [hr, Release.done]))
      · exact .inl (by simpa [hended, Worker.failing, Worker.stopping] using hs.failed hf)
    have hanswers : AnswersFalse c t :=
      h'.invariant (fun _ _ _ _ => answersFalse_step) ⟨hstopped, .inl hidle⟩
    simpa [hreturned] using hanswers.2

/-- A refresh after a timeout, then a release while the thread waits again, and a check after
it. -/
theorem stops_at_release_waiting :
    ∃ s t, Run (step ⟨"lock", 60⟩) Free
        (initial 0 (Function.update (fun _ => none) "lock" (some ⟨9⟩)) 9)
        (.worker .goes :: .worker .goes :: .worker .timesOut ::
          List.replicate 7 (.worker .goes) ++ List.replicate 10 (.release 0 .goes)) s ∧
      Run (step ⟨"lock", 60⟩) Free s
        (List.replicate 2 (.worker .goes) ++ List.replicate 2 (.check 0)) t ∧
      s.releases 0 = .returned (some true) ∧ .wrote ⟨60⟩ ∈ s.log ∧ t.worker = .ended ∧
      t.log = s.log ∧ t.checks 0 = .returned false := by
  obtain ⟨s, t, hs, ht, hp⟩ := exists_runs_of_exec free_of_check (step ⟨"lock", 60⟩)
    (initial 0 (Function.update (fun _ => none) "lock" (some ⟨9⟩)) 9)
    (.worker .goes :: .worker .goes :: .worker .timesOut ::
      List.replicate 7 (.worker .goes) ++ List.replicate 10 (.release 0 .goes))
    (List.replicate 2 (.worker .goes) ++ List.replicate 2 (.check 0))
    (fun s t => s.releaseResult.isSome && s.releases 0 = .returned (some true) &&
      .wrote ⟨60⟩ ∈ s.log && t.worker = .ended && s.checks 0 = .idle &&
      (t.checks 0 = .returned false || t.checks 0 = .returned true)) (by decide +kernel)
  simp only [Bool.and_eq_true, Bool.or_eq_true, decide_eq_true_eq] at hp
  obtain ⟨⟨⟨⟨⟨hset, hreleased⟩, hwrote⟩, hended⟩, hidle⟩, hchecked⟩ := hp
  obtain ⟨hlog, _, hanswer⟩ := stops_at_release hs ht
  refine ⟨s, t, hs, ht, hreleased, hwrote, hended, hlog (Option.isSome_iff_ne_none.mp hset), ?_⟩
  rcases hchecked with hchecked | hchecked
  · exact hchecked
  · exact absurd (hanswer 0 true hidle hchecked (.inr (.inl ⟨0, _, hreleased⟩))) (by decide)

end ShimService.AutoRefreshLock
