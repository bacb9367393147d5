import ShimService.Tenant.Scheduled

/-! What the counter of a tenant's event does over the re-arms, and which copies delete it. -/
namespace ShimService.TenantPoll

open CondTable AbstractAwsRepo Transition

/-- The tenant and the `stateCounter` of a poller's copy. -/
def Poller.copy : Poller → Option (ℕ × ℕ)
  | .idle => none
  | .queried tenantId event | .claimed tenantId event | .deleting tenantId event
  | .polling tenantId event => some (tenantId, event.stateCounter)

/-- The processes with a record of what they did. `version` counts the calls of `update_or_create`
that have written a tenant's row, and `seen` is the version of the row that a poller has read.
`updates` has the counter before and after each update of an existing row, and `deletions` the
version that the copy was of and the one that was deleted. -/
structure Traced where
  state : State
  version : ℕ → ℕ
  seen : ℕ → ℕ
  updates : List (ℕ × ℕ)
  deletions : List (ℕ × ℕ)

def State.counter (s : State) (tenantId : ℕ) : Option ℕ :=
  (s.events tenantId).map PendingTenantEvent.stateCounter

/-- A call has written the tenant's row. -/
def Traced.wrote (s : Traced) (t : State) (tenantId : ℕ) : Traced where
  state := t
  version := Function.update s.version tenantId (s.version tenantId + 1)
  seen := s.seen
  updates := s.updates ++
    match s.state.counter tenantId, t.counter tenantId with
    | some old, some new => [(old, new)]
    | _, _ => []
  deletions := s.deletions

/-- Only these three give a copy or change a counter. -/
def Act.noted : Act → Bool
  | .query _ _ | .write _ | .delete _ => true
  | _ => false

/-- What the record notes of an action that leads to `t`. -/
def Traced.note (s : Traced) (t : State) : Act → Traced
  | .query p tenantId =>
    { s with state := t, seen := Function.update s.seen p (s.version tenantId) }
  | .write c =>
    match s.state.listeners c with
    | some ⟨_, _, _, .writing tenantId entry _ current⟩ =>
      if (updateOrCreate s.state.events tenantId entry current).isSome then s.wrote t tenantId
      else { s with state := t }
    | _ => { s with state := t }
  | .delete p =>
    match s.state.pollers p with
    | .deleting tenantId event =>
      if (deleteEvent s.state.events tenantId event).isSome then
        { s with state := t, deletions := s.deletions ++ [(s.seen p, s.version tenantId)] }
      else { s with state := t }
    | _ => { s with state := t }
  | _ => { s with state := t }

def tracedStep (s : Traced) (a : Act) : Option Traced := (step s.state a).map (s.note · a)

/-- No process has begun; the rows are any. -/
def tracedInitial (events : Table ℕ PendingTenantEvent) : Traced :=
  ⟨{ initial with events := events }, fun _ => 0, fun _ => 0, [], []⟩

variable {s t : Traced} {a : Act} {xs : List Act} {u v : State} {p c tenantId : ℕ}
  {events : Table ℕ PendingTenantEvent}

/-- Each update of an existing row raises its counter, and a row is only deleted by a copy that no
call of `update_or_create` has written over. -/
structure Stopped (s : Traced) : Prop where
  increases : ∀ update ∈ s.updates, update.1 < update.2
  current : ∀ deletion ∈ s.deletions, deletion.1 = deletion.2

/-- Where what a call has read is still stored: if there is no row, no poller has a copy with the
counter of the entry; if there is one, it has not been re-armed, so its counter is not above that
of the entry, and no poller has a copy of an earlier row that has been. -/
def NotRearmed (s : Traced) : Act → Prop
  | .write c => ∀ batch todo errors tenantId entry tries current,
      s.state.listeners c = some ⟨batch, todo, errors, .writing tenantId entry tries current⟩ →
      s.state.counter tenantId = current.map PendingTenantEvent.stateCounter →
      match s.state.counter tenantId with
      | none => ∀ p, (s.state.pollers p).copy ≠ some (tenantId, entry.stateCounter)
      | some stored => stored ≤ entry.stateCounter ∧
          ∀ p, (s.state.pollers p).copy ≠ some (tenantId, entry.stateCounter + 1)
  | _ => True

/-- A copy with the stored counter is of the row as it stands. -/
def CopiesCurrent (s : Traced) : Prop := ∀ p tenantId n,
  (s.state.pollers p).copy = some (tenantId, n) → s.state.counter tenantId = some n →
    s.seen p = s.version tenantId

/-- The counter that `update_or_create` stores over what the row is. -/
def writtenCounter (entry : PendingTenantEvent) : Option PendingTenantEvent → ℕ
  | none => entry.stateCounter
  | some _ => entry.stateCounter + 1

theorem updateOrCreate_counter {events' : Table ℕ PendingTenantEvent} {entry : PendingTenantEvent}
    {current : Option PendingTenantEvent}
    (h : updateOrCreate events tenantId entry current = some events') :
    ∃ row, events' = Function.update events tenantId (some row) ∧
      row.stateCounter = writtenCounter entry (events tenantId) := by
  cases current with
  | none =>
    obtain ⟨hnone, rfl⟩ := create_eq_some.mp h
    exact ⟨entry, rfl, by rw [hnone]; rfl⟩
  | some current =>
    obtain ⟨row, hrow, _, rfl⟩ := patchWithCondition_eq_some.mp h
    exact ⟨_, rfl, by rw [hrow]; rfl⟩

/-- A call of `update_or_create` writes only over what it has read. -/
theorem counter_of_written {entry : PendingTenantEvent} {current : Option PendingTenantEvent}
    (h : (updateOrCreate u.events tenantId entry current).isSome) :
    u.counter tenantId = current.map PendingTenantEvent.stateCounter := by
  obtain ⟨events', h⟩ := Option.isSome_iff_exists.mp h
  cases current with
  | none =>
    obtain ⟨hnone, _⟩ := create_eq_some.mp h
    simp [State.counter, hnone]
  | some current =>
    obtain ⟨row, hrow, hcounter, _⟩ := patchWithCondition_eq_some.mp h
    simpa [State.counter, hrow] using hcounter

/-- Over a row that has not been re-armed, the counter written is above the stored one, and new
to the pollers. -/
theorem written_of_notRearmed {batch : List (ℕ × ReconstructedSession)}
    {todo : List ReconstructedSession} {errors : Bool} {entry : PendingTenantEvent} {tries : ℕ}
    {current : Option PendingTenantEvent} (hok : NotRearmed s (.write c))
    (hc : s.state.listeners c = some ⟨batch, todo, errors, .writing tenantId entry tries current⟩)
    (hwrites : (updateOrCreate s.state.events tenantId entry current).isSome) :
    (∀ row, s.state.events tenantId = some row →
      row.stateCounter < writtenCounter entry (some row)) ∧
    ∀ p, (s.state.pollers p).copy ≠
      some (tenantId, writtenCounter entry (s.state.events tenantId)) := by
  have h := hok batch todo errors tenantId entry tries current hc (counter_of_written hwrites)
  cases hrow : s.state.events tenantId with
  | none =>
    simp only [State.counter, hrow, Option.map_none] at h
    exact ⟨by simp, h⟩
  | some row =>
    simp only [State.counter, hrow, Option.map_some] at h
    refine ⟨fun row' hrow' => ?_, h.2⟩
    obtain rfl := Option.some.inj hrow'
    exact Nat.lt_succ_of_le h.1

/-- The counters are as they were, and so is every copy that is still held. -/
structure Quiet (u v : State) : Prop where
  counter : v.counter = u.counter
  copy : ∀ p, (v.pollers p).copy = none ∨ (v.pollers p).copy = (u.pollers p).copy

theorem quiet_of_eq (hevents : v.events = u.events) (hpollers : v.pollers = u.pollers) :
    Quiet u v :=
  ⟨by funext; simp [State.counter, hevents], fun _ => .inr (by rw [hpollers])⟩

theorem quiet_setPoller {w : Poller} (hcounter : v.counter = u.counter)
    (hpollers : v.pollers = u.pollers) (hw : w.copy = none ∨ w.copy = (u.pollers p).copy) :
    Quiet u (v.setPoller p w) := by
  refine ⟨hcounter, fun q => ?_⟩
  by_cases hq : q = p
  · subst q
    simpa [State.setPoller] using hw
  · simp [State.setPoller, hq, hpollers]

theorem counter_updateActionTime {events' : Table ℕ PendingTenantEvent} {event : PendingTenantEvent}
    {newActionAt : ℕ} (h : updateActionTime u.events tenantId event newActionAt = some events') :
    ({ u with events := events' } : State).counter = u.counter := by
  obtain ⟨row, hrow, _, rfl⟩ := patchWithCondition_eq_some.mp h
  funext k
  by_cases hk : k = tenantId
  · subst k
    simp [State.counter, hrow]
  · simp [State.counter, hk]

theorem quiet_step (h : step u a = some v) (ha : a.noted = false) : Quiet u v := by
  cases a with
  | commit op =>
    simp only [step] at h
    split at h <;> cases h
    exact quiet_of_eq rfl rfl
  | receive c records =>
    simp only [step] at h
    split at h <;> cases h
    exact quiet_of_eq rfl rfl
  | start c now | find c | fails c =>
    simp only [step] at h
    split at h <;> cases h
    exact quiet_of_eq rfl rfl
  | acknowledge c =>
    simp only [step] at h
    split at h
    · split at h <;> cases h
      exact quiet_of_eq rfl rfl
    · cases h
  | stop c =>
    cases h
    exact quiet_of_eq rfl rfl
  | query p tenantId | write c | delete p => cases ha
  | updateActionTime p newActionAt =>
    simp only [step] at h
    split at h
    · rename_i hp
      split at h <;> cases h
      · rename_i hupdate
        exact quiet_setPoller (counter_updateActionTime hupdate) rfl (.inr (by rw [hp]; rfl))
      · exact quiet_setPoller rfl rfl (.inl rfl)
    · split at h <;> cases h
      · rename_i hupdate
        exact quiet_setPoller (counter_updateActionTime hupdate) rfl (.inl rfl)
      · exact quiet_setPoller rfl rfl (.inl rfl)
    · cases h
  | check p page more =>
    simp only [step] at h
    split at h
    · rename_i hp
      split at h <;> cases h
      · exact quiet_setPoller rfl rfl (.inr (by rw [hp]; rfl))
      · exact quiet_setPoller rfl rfl (.inr (by rw [hp]; rfl))
      · exact quiet_setPoller rfl rfl (.inl rfl)
    · cases h
  | quit p =>
    cases h
    exact quiet_setPoller rfl rfl (.inl rfl)

theorem copiesCurrent_quiet (hstate : Quiet s.state t.state) (hversion : t.version = s.version)
    (hseen : t.seen = s.seen) (h : CopiesCurrent s) : CopiesCurrent t := by
  intro p tenantId n hcopy hcounter
  rw [hseen, hversion]
  rcases hstate.copy p with hnone | hsame
  · simp [hnone] at hcopy
  · exact h p tenantId n (hsame ▸ hcopy) (hstate.counter ▸ hcounter)

theorem note_quiet (ha : a.noted = false) : s.note v a = { s with state := v } := by
  cases a with
  | query p tenantId | write c | delete p => cases ha
  | _ => rfl

/-- What the record notes of a write: nothing, or the row it stored. -/
theorem note_write (h : step s.state (.write c) = some v) :
    (s.note v (.write c) = { s with state := v } ∧ Quiet s.state v) ∨
      ∃ batch todo errors tenantId entry tries current row,
        s.state.listeners c = some ⟨batch, todo, errors, .writing tenantId entry tries current⟩ ∧
        (updateOrCreate s.state.events tenantId entry current).isSome ∧
        s.note v (.write c) = s.wrote v tenantId ∧ v.pollers = s.state.pollers ∧
        v.events = Function.update s.state.events tenantId (some row) ∧
        row.stateCounter = writtenCounter entry (s.state.events tenantId) := by
  simp only [step] at h
  split at h
  · rename_i batch todo errors tenantId entry tries current hc
    split at h <;> cases h
    · rename_i events hwrite
      obtain ⟨row, hevents, hcounter⟩ := updateOrCreate_counter hwrite
      refine .inr ⟨batch, todo, errors, tenantId, entry, tries, current, row, hc, ?_, ?_, rfl,
        hevents, hcounter⟩
      · simp [hwrite]
      · simp [Traced.note, hc, hwrite]
    · rename_i hrefused
      exact .inl ⟨by simp [Traced.note, hc, hrefused], quiet_of_eq rfl rfl⟩
  · cases h

/-- What the record notes of a deletion: nothing, or the copy's version and the row's. -/
theorem note_delete (h : step s.state (.delete p) = some v) :
    (s.note v (.delete p) = { s with state := v } ∧ Quiet s.state v) ∨
      ∃ tenantId event row, s.state.pollers p = .deleting tenantId event ∧
        s.state.events tenantId = some row ∧ row.stateCounter = event.stateCounter ∧
        s.note v (.delete p) = { s with
          state := v, deletions := s.deletions ++ [(s.seen p, s.version tenantId)] } ∧
        v.events = Function.update s.state.events tenantId none ∧
        v.pollers = Function.update s.state.pollers p .idle := by
  simp only [step] at h
  split at h
  · rename_i tenantId event hp
    split at h <;> cases h
    · rename_i events hdelete
      obtain ⟨row, hrow, hcounter, hevents⟩ := deleteWithCondition_eq_some.mp hdelete
      refine .inr ⟨tenantId, event, row, hp, hrow, hcounter, ?_, hevents, rfl⟩
      simp [Traced.note, hp, hdelete]
    · rename_i hrefused
      refine .inl ⟨by simp [Traced.note, hp, hrefused], quiet_setPoller rfl rfl (.inl rfl)⟩
  · cases h

theorem counter_update {row : Option PendingTenantEvent} {k : ℕ}
    (h : v.events = Function.update u.events tenantId row) :
    v.counter k = if k = tenantId then row.map PendingTenantEvent.stateCounter
      else u.counter k := by
  by_cases hk : k = tenantId <;> simp [State.counter, h, hk]

theorem copiesCurrent_step (hok : NotRearmed s a) (h : tracedStep s a = some t)
    (hi : CopiesCurrent s) : CopiesCurrent t := by
  obtain ⟨v, hv, rfl⟩ := Option.map_eq_some_iff.mp h
  cases a with
  | query q tenantId =>
    simp only [step] at hv
    split at hv <;> cases hv
    rename_i event hq hevent
    intro p k n hcopy hcounter
    by_cases hp : p = q
    · subst p
      obtain ⟨rfl, _⟩ : tenantId = k ∧ event.stateCounter = n := by
        simpa [Traced.note, State.setPoller, Poller.copy] using hcopy
      simp [Traced.note]
    · have hold : (s.state.pollers p).copy = some (k, n) := by
        simpa [Traced.note, State.setPoller, hp] using hcopy
      simpa [Traced.note, hp] using hi p k n hold hcounter
  | write c =>
    rcases note_write hv with ⟨hnote, hquiet⟩ |
      ⟨batch, todo, errors, tenantId, entry, tries, current, row, hc, hwrites, hnote, hpollers,
        hevents, hrow⟩
    · rw [hnote]
      exact copiesCurrent_quiet hquiet rfl rfl hi
    · rw [hnote]
      obtain ⟨_, hnew⟩ := written_of_notRearmed hok hc hwrites
      intro p k n hcopy hcounter
      have hold : (s.state.pollers p).copy = some (k, n) := hpollers ▸ hcopy
      have hstored : v.counter k = some n := hcounter
      rw [counter_update hevents] at hstored
      split at hstored
      · rename_i hk
        subst k
        -- The copy has the counter just written, which no copy has.
        have hn : writtenCounter entry (s.state.events tenantId) = n := by
          simpa [hrow] using hstored
        exact absurd (hn ▸ hold) (hnew p)
      · rename_i hk
        simpa [Traced.wrote, hk] using hi p k n hold hstored
  | delete q =>
    rcases note_delete hv with ⟨hnote, hquiet⟩ |
      ⟨tenantId, event, row, hq, _, _, hnote, hevents, hpollers⟩
    · rw [hnote]
      exact copiesCurrent_quiet hquiet rfl rfl hi
    · rw [hnote]
      intro p k n hcopy hcounter
      have hstored : v.counter k = some n := hcounter
      have hold : (v.pollers p).copy = some (k, n) := hcopy
      rw [counter_update hevents] at hstored
      rw [hpollers] at hold
      by_cases hp : p = q
      · simp [hp, Poller.copy] at hold
      · rw [Function.update_of_ne hp] at hold
        split at hstored
        · cases hstored
        · exact hi p k n hold hstored
  | _ =>
    rw [note_quiet rfl]
    exact copiesCurrent_quiet (quiet_step hv rfl) rfl rfl hi

theorem stopped_step (hok : NotRearmed s a) (h : tracedStep s a = some t) (hi : CopiesCurrent s)
    (hs : Stopped s) : Stopped t := by
  obtain ⟨v, hv, rfl⟩ := Option.map_eq_some_iff.mp h
  cases a with
  | write c =>
    rcases note_write hv with ⟨hnote, _⟩ |
      ⟨batch, todo, errors, tenantId, entry, tries, current, row, hc, hwrites, hnote, _, hevents,
        hrow⟩
    · rw [hnote]
      exact ⟨hs.increases, hs.current⟩
    · rw [hnote]
      obtain ⟨hraised, _⟩ := written_of_notRearmed hok hc hwrites
      have hnew : v.counter tenantId = some (writtenCounter entry (s.state.events tenantId)) := by
        simp [State.counter, hevents, hrow]
      refine ⟨fun update hupdate => ?_, hs.current⟩
      rcases List.mem_append.mp hupdate with hupdate | hupdate
      · exact hs.increases update hupdate
      · rw [hnew] at hupdate
        cases hold : s.state.events tenantId with
        | none => simp [State.counter, hold] at hupdate
        | some old =>
          obtain rfl : update = (old.stateCounter, writtenCounter entry (some old)) := by
            simpa [State.counter, hold] using hupdate
          exact hraised old hold
  | delete p =>
    rcases note_delete hv with ⟨hnote, _⟩ | ⟨tenantId, event, row, hp, hrow, hcounter, hnote, _⟩
    · rw [hnote]
      exact ⟨hs.increases, hs.current⟩
    · rw [hnote]
      refine ⟨hs.increases, fun deletion hdeletion => ?_⟩
      rcases List.mem_append.mp hdeletion with hold | hnew
      · exact hs.current deletion hold
      · obtain rfl := List.mem_singleton.mp hnew
        have hcopy : (s.state.pollers p).copy = some (tenantId, event.stateCounter) := by
          rw [hp]
          rfl
        exact hi p tenantId event.stateCounter hcopy (by simp [State.counter, hrow, hcounter])
  | query p tenantId => exact ⟨hs.increases, hs.current⟩
  | _ =>
    rw [note_quiet rfl]
    exact ⟨hs.increases, hs.current⟩

theorem copiesCurrent_initial : CopiesCurrent (tracedInitial events) := by
  intro p tenantId n hcopy
  cases hcopy

/-- Where no row is re-armed a second time, nor written while a poller has a copy of an earlier row
with the same counter, the counter of a row increases with each update and no stale copy deletes
the row. -/
theorem stale_event_not_deleted (h : Run tracedStep NotRearmed (tracedInitial events) xs s) :
    Stopped s := by
  have hboth : CopiesCurrent s ∧ Stopped s := h.invariant
    (I := fun s => CopiesCurrent s ∧ Stopped s)
    (fun _ _ _ hok hs hI => ⟨copiesCurrent_step hok hs hI.1, stopped_step hok hs hI.1 hI.2⟩)
    ⟨copiesCurrent_initial, nofun, nofun⟩
  exact hboth.2

/-- The condition where poller 0 is the only one. -/
def notRearmedCheck (s : Traced) : Act → Bool
  | .query p _ => p = 0
  | .write c =>
    match s.state.listeners c with
    | some ⟨_, _, _, .writing tenantId entry _ _⟩ =>
      match s.state.counter tenantId with
      | none => (s.state.pollers 0).copy != some (tenantId, entry.stateCounter)
      | some stored => decide (stored ≤ entry.stateCounter) &&
          (s.state.pollers 0).copy != some (tenantId, entry.stateCounter + 1)
    | _ => true
  | _ => true

def OnePoller (s : Traced) : Prop := ∀ p, p ≠ 0 → (s.state.pollers p).copy = none

theorem onePoller_step (hok : notRearmedCheck s a = true) (h : tracedStep s a = some t)
    (hi : OnePoller s) : OnePoller t := by
  obtain ⟨v, hv, rfl⟩ := Option.map_eq_some_iff.mp h
  intro p hp
  have hquiet : ∀ v, Quiet s.state v → (v.pollers p).copy = none := by
    intro v hq
    rcases hq.copy p with hnone | hsame
    · exact hnone
    · exact hsame.trans (hi p hp)
  cases a with
  | query q tenantId =>
    obtain rfl : q = 0 := by simpa [notRearmedCheck] using hok
    simp only [step] at hv
    split at hv <;> cases hv
    simpa [Traced.note, State.setPoller, hp] using hi p hp
  | write c =>
    rcases note_write hv with ⟨hnote, hq⟩ | ⟨_, _, _, _, _, _, _, _, _, _, hnote, hpollers, _⟩
    · rw [hnote]
      exact hquiet v hq
    · rw [hnote]
      exact hpollers ▸ hi p hp
  | delete q =>
    rcases note_delete hv with ⟨hnote, hq⟩ | ⟨_, _, _, _, _, _, hnote, _, hpollers⟩
    · rw [hnote]
      exact hquiet v hq
    · rw [hnote]
      by_cases hpq : p = q
      · simp [hpollers, hpq, Poller.copy]
      · simpa [hpollers, hpq] using hi p hp
  | _ =>
    rw [note_quiet rfl]
    exact hquiet v (quiet_step hv rfl)

theorem notRearmed_of_check (hi : OnePoller s) (h : notRearmedCheck s a = true) :
    NotRearmed s a := by
  have hpollers : ∀ copy, (s.state.pollers 0).copy ≠ some copy →
      ∀ p, (s.state.pollers p).copy ≠ some copy := by
    intro copy hcopy p
    by_cases hp : p = 0
    · exact hp ▸ hcopy
    · simp [hi p hp]
  cases a with
  | write c =>
    intro batch todo errors tenantId entry tries current hc _
    simp only [notRearmedCheck, hc] at h
    split at h
    · simp only [bne_iff_ne] at h
      exact hpollers _ h
    · simp only [Bool.and_eq_true, decide_eq_true_eq, bne_iff_ne] at h
      exact ⟨h.1, hpollers _ h.2⟩
  | _ => trivial

/-- The listener arms and re-arms the event of tenant 1, and the poller that has read it since
deletes it. -/
theorem stale_event_not_deleted_once : ∃ s : Traced,
    s.updates = [(0, 1)] ∧ s.deletions = [(2, 2)] ∧ Stopped s := by
  obtain ⟨s, hs, hp⟩ := exists_run_of_exec
    (fun s a (h : notRearmedCheck s a = true) => h) tracedStep (tracedInitial fun _ => none)
    [.commit (.createSession (x1440Session "a" "user") 0 1), .receive 0 [0], .start 0 0, .find 0,
      .write 0, .stop 0, .receive 0 [0], .start 0 0, .find 0, .write 0, .stop 0, .query 0 1,
      .updateActionTime 0 1000, .check 0 [] false, .delete 0]
    (fun s => s.updates = [(0, 1)] && s.deletions = [(2, 2)]) (by decide)
  have hrun : Run tracedStep NotRearmed (tracedInitial fun _ => none) _ s := hs.strengthen
    (fun _ _ _ => onePoller_step) (fun _ _ => notRearmed_of_check) (fun _ _ => rfl)
  obtain ⟨hupdates, hdeletions⟩ := Bool.and_eq_true_iff.mp hp
  exact ⟨s, of_decide_eq_true hupdates, of_decide_eq_true hdeletions,
    stale_event_not_deleted hrun⟩

/-- A second re-arm leaves the counter at 1, so the copy read before it still deletes the row. -/
theorem stale_event_deleted : ¬ ∀ (events : Table ℕ PendingTenantEvent) (s : Traced)
    (xs : List Act), Run tracedStep Free (tracedInitial events) xs s → Stopped s := by
  intro hall
  obtain ⟨s, hs, hp⟩ := exists_run_of_exec free_of_check tracedStep (tracedInitial fun _ => none)
    [.commit (.createSession (x1440Session "a" "user") 0 1), .receive 0 [0], .start 0 0, .find 0,
      .write 0, .stop 0, .receive 0 [0], .start 0 0, .find 0, .write 0, .stop 0, .query 0 1,
      .updateActionTime 0 1000, .receive 0 [0], .start 0 0, .find 0, .write 0,
      .check 0 [] false, .delete 0]
    (fun s => s.updates = [(0, 1), (1, 1)] && s.deletions = [(2, 3)]) (by decide)
  have hdeletions : s.deletions = [(2, 3)] := of_decide_eq_true (Bool.and_eq_true_iff.mp hp).2
  have hcurrent := (hall _ s _ hs).current (2, 3) (by simp [hdeletions])
  simp at hcurrent

end ShimService.TenantPoll
