import ShimService.Poll.PollingGroup

/-! What `submit_count` and `working_count` say about the workers of a group. -/
namespace ShimService.PollingGroup

open Transition

variable {ε : Type*} {max : ℕ} {s t : State ε} {a : Act ε} {xs : List (Act ε)} {i : ℕ} {event : ε}
  {pc pc' : Pc}

/-- The worker has neither begun to poll nor ended: it ends with its `dec_submit_count`, or with
an exception that keeps it from that. -/
def Worker.Waits (w : Worker ε) : Bool :=
  match w.pc with
  | .locking | .deciding | .refused | .beginning => true
  | .polling | .ended => false

def Worker.Polls (w : Worker ε) : Bool := w.pc = .polling

/-- A worker is started with the section of `is_full` that lets it in. -/
def Collector.started : Collector ε → ℕ
  | .starting .. => 1
  | _ => 0

/-- The number of workers that were started and have neither begun to poll nor ended. -/
def State.waiting (s : State ε) : ℕ := s.workers.countP Worker.Waits + s.collector.started

def State.polling (s : State ε) : ℕ := s.workers.countP Worker.Polls

/-- Where the action runs `should_poll`, that does not raise. -/
def Act.ShouldPollReturns : Act ε → Prop
  | .shouldPoll _ found deleteEvent => PollingGroup.shouldPoll found deleteEvent ≠ none
  | _ => True

/-- What a step does to the counters and to the workers behind them. -/
inductive Effect (max : ℕ) (s : State ε) (a : Act ε) (t : State ε) : Prop where
  | quiet (returns : a.ShouldPollReturns) (submit : t.submitCount = s.submitCount)
      (working : t.workingCount = s.workingCount) (waiting : t.waiting = s.waiting)
      (polling : t.polling ≤ s.polling)
  | admits (returns : a.ShouldPollReturns) (room : s.workingCount + s.submitCount < max)
      (submit : t.submitCount = s.submitCount + 1) (working : t.workingCount = s.workingCount)
      (waiting : t.waiting = s.waiting + 1) (polling : t.polling = s.polling)
  | givesBack (returns : a.ShouldPollReturns) (submit : t.submitCount = s.submitCount - 1)
      (working : t.workingCount = s.workingCount) (waiting : t.waiting + 1 = s.waiting)
      (polling : t.polling = s.polling)
  | begins (returns : a.ShouldPollReturns) (submit : t.submitCount = s.submitCount - 1)
      (working : t.workingCount = s.workingCount + 1) (waiting : t.waiting + 1 = s.waiting)
      (polling : t.polling = s.polling + 1)
  | leaks (raises : ¬ a.ShouldPollReturns) (submit : t.submitCount = s.submitCount)
      (working : t.workingCount = s.workingCount) (waiting : t.waiting + 1 = s.waiting)
      (polling : t.polling = s.polling)

theorem started_nextEvent (rest : List ε) (nextToken : Option ℕ) :
    (nextEvent rest nextToken).started = 0 := by
  cases rest <;> cases nextToken <;> rfl

/-- The section that lets an event in has seen room for it. -/
theorem room_of_isFull {increment timeLeft : Bool}
    (h : s.isFull max increment timeLeft = some false) (hincrement : increment = true) :
    s.workingCount + s.submitCount < max := by
  subst hincrement
  grind [State.isFull]

theorem countP_set_worker {workers : List (Worker ε)} {w : Worker ε} (p : Worker ε → Bool)
    (h : workers[i]? = some w) (w' : Worker ε) :
    (workers.set i w').countP p + (if p w then 1 else 0) =
      workers.countP p + if p w' then 1 else 0 := by
  obtain ⟨hi, rfl⟩ := List.getElem?_eq_some_iff.mp h
  have hpos : p workers[i] = true → 0 < workers.countP p :=
    fun hp => List.countP_pos_iff.mpr ⟨_, List.getElem_mem hi, hp⟩
  rw [List.countP_set hi]
  split <;> split <;> grind

theorem waiting_setPc (h : s.workers[i]? = some ⟨event, pc⟩) (pc' : Pc) :
    (s.setPc i event pc').waiting + (if Worker.Waits ⟨event, pc⟩ then 1 else 0) =
      s.waiting + if Worker.Waits ⟨event, pc'⟩ then 1 else 0 := by
  have hcount := countP_set_worker Worker.Waits h ⟨event, pc'⟩
  simp only [State.waiting, State.setPc]
  omega

theorem polling_setPc (h : s.workers[i]? = some ⟨event, pc⟩) (pc' : Pc) :
    (s.setPc i event pc').polling + (if Worker.Polls ⟨event, pc⟩ then 1 else 0) =
      s.polling + if Worker.Polls ⟨event, pc'⟩ then 1 else 0 :=
  countP_set_worker _ h _

@[simp] theorem decSubmitCount_workers : s.decSubmitCount.workers = s.workers := rfl
@[simp] theorem decSubmitCount_waiting : s.decSubmitCount.waiting = s.waiting := rfl
@[simp] theorem decSubmitCount_polling : s.decSubmitCount.polling = s.polling := rfl
@[simp] theorem beginPoll_workers : s.beginPoll.workers = s.workers := rfl
@[simp] theorem beginPoll_waiting : s.beginPoll.waiting = s.waiting := rfl
@[simp] theorem beginPoll_polling : s.beginPoll.polling = s.polling := rfl

/-- A worker moves on while it holds its slot, or ends after it began to poll. -/
theorem effect_setPc (h : s.workers[i]? = some ⟨event, pc⟩) (hreturns : a.ShouldPollReturns)
    (hwaits : Worker.Waits ⟨event, pc'⟩ = Worker.Waits ⟨event, pc⟩)
    (hpolls : Worker.Polls ⟨event, pc'⟩ = false) : Effect max s a (s.setPc i event pc') := by
  have hwaiting := waiting_setPc h pc'
  have hpolling := polling_setPc h pc'
  refine .quiet hreturns rfl rfl ?_ ?_
  · rw [hwaits] at hwaiting
    omega
  · rw [hpolls] at hpolling
    simp only [Bool.false_eq_true, if_false] at hpolling
    omega

theorem workerStep_effect (h : workerStep s a i = some t) : Effect max s a t := by
  unfold workerStep at h
  split at h
  · rename_i hw
    split at h <;> cases h <;> exact effect_setPc hw trivial rfl rfl
  · rename_i hw
    split at h
    · rename_i hdecides
      cases h
      exact effect_setPc hw (by simp [Act.ShouldPollReturns, hdecides]) rfl rfl
    · rename_i hdecides
      cases h
      exact effect_setPc hw (by simp [Act.ShouldPollReturns, hdecides]) rfl rfl
    · rename_i hdecides
      cases h
      exact .leaks (by simp [Act.ShouldPollReturns, hdecides]) rfl rfl (waiting_setPc hw _)
        (polling_setPc hw _)
  · rename_i hw
    cases h
    exact .givesBack trivial rfl rfl (waiting_setPc (s := s.decSubmitCount) hw _)
      (polling_setPc (s := s.decSubmitCount) hw _)
  · rename_i hw
    cases h
    exact .begins trivial rfl rfl (waiting_setPc (s := s.beginPoll) hw _)
      (polling_setPc (s := s.beginPoll) hw _)
  · rename_i hw
    cases h
    exact effect_setPc hw trivial rfl rfl
  · cases h

/-- The collector moves on without taking a slot or starting a thread. -/
theorem effect_collector (hreturns : a.ShouldPollReturns) (hsubmit : t.submitCount = s.submitCount)
    (hworking : t.workingCount = s.workingCount) (hworkers : t.workers = s.workers)
    (hstarted : t.collector.started = s.collector.started) : Effect max s a t := by
  refine .quiet hreturns hsubmit hworking ?_ ?_
  · rw [State.waiting, State.waiting, hworkers, hstarted]
  · rw [State.polling, State.polling, hworkers]

theorem isFullPass_effect {timeLeft : Bool} (h : collectorStep max s (.isFull timeLeft) = some t) :
    Effect max s (.isFull timeLeft) t := by
  simp only [collectorStep] at h
  split at h
  · rename_i hcollector
    split at h
    · cases h
      exact effect_collector trivial rfl rfl rfl rfl
    · cases h
      exact effect_collector trivial rfl rfl rfl (by rw [hcollector]; rfl)
    · rename_i hroom
      cases h
      refine .admits trivial (room_of_isFull hroom rfl) rfl rfl ?_ rfl
      rw [State.waiting, State.waiting, hcollector]
      rfl
  · rename_i hcollector
    split at h <;> cases h <;> exact effect_collector trivial rfl rfl rfl (by rw [hcollector]; rfl)
  · cases h

theorem startThread_effect (h : collectorStep max s .startThread = some t) :
    Effect max s .startThread t := by
  simp only [collectorStep] at h
  split at h
  · rename_i hcollector
    cases h
    refine .quiet trivial rfl rfl ?_ ?_
    · simp only [State.waiting, hcollector, List.countP_append, started_nextEvent]
      rfl
    · simp [State.polling, List.countP_append, Worker.Polls]
  · cases h

theorem collectorStep_effect (h : collectorStep max s a = some t) : Effect max s a t := by
  cases a with
  | queryEvents result =>
    simp only [collectorStep] at h
    split at h
    · rename_i hcollector
      cases h
      exact effect_collector trivial rfl rfl rfl (by rw [hcollector]; exact started_nextEvent _ _)
    · rename_i hcollector
      cases h
      exact effect_collector trivial rfl rfl rfl (by rw [hcollector]; rfl)
    · cases h
  | isFull timeLeft => exact isFullPass_effect h
  | startThread => exact startThread_effect h
  | endCollect =>
    simp only [collectorStep] at h
    split at h
    · rename_i hcollector
      cases h
      exact effect_collector trivial rfl rfl rfl (by rw [hcollector]; rfl)
    · cases h
  | _ => cases h

theorem step_effect (h : step max s a = some t) : Effect max s a t := by
  rcases step_cases h with h | ⟨i, h⟩
  · exact collectorStep_effect h
  · exact workerStep_effect h

/-- The counters against the workers, whatever happens. -/
structure Counted (max : ℕ) (s : State ε) : Prop where
  room : s.workingCount + s.submitCount ≤ max
  waiting : s.waiting ≤ s.submitCount
  polling : s.polling ≤ s.workingCount

theorem counted_initial : Counted max (initial : State ε) where
  room := Int.natCast_nonneg max
  waiting := Int.le_refl 0
  polling := Int.le_refl 0

theorem counted_step (h : step max s a = some t) (hi : Counted max s) : Counted max t := by
  obtain ⟨hroom, hwaiting, hpolling⟩ := hi
  cases step_effect h <;> constructor <;> omega

/-- However the collector, the workers and their exceptions interleave, no more than
`max_working_count` slots are taken, and no more workers poll. -/
theorem capacity_never_exceeded (h : Run (step max) Free (initial : State ε) xs s) :
    s.workingCount + s.submitCount ≤ max ∧ s.polling ≤ max := by
  obtain ⟨hroom, hwaiting, hpolling⟩ :=
    h.invariant (fun _ _ _ _ => counted_step) counted_initial
  exact ⟨hroom, by omega⟩

/-- One slot and two events: the first worker polls while the collector finds the group full. -/
def oneSlot : List (Act ℕ) :=
  [.queryEvents (some ⟨[7, 8], none⟩), .isFull true, .startThread,
    .tryLock 0 (some true) (some true) none, .isFull true, .shouldPoll 0 (some true) none,
    .beginPoll 0, .isFull true, .endCollect]

theorem capacity_never_exceeded_one_slot : ∃ s : State ℕ, s.polling = 1 ∧
    s.workingCount + s.submitCount ≤ (1 : ℕ) ∧ s.polling ≤ 1 := by
  obtain ⟨s, hs, hp⟩ := exists_run_of_exec free_of_check (step 1) initial oneSlot
    (fun s => s.polling = 1) (by decide)
  exact ⟨s, by simpa using hp, capacity_never_exceeded hs⟩

/-- Every slot taken and not in use belongs to a worker that waits exactly where no worker's
`should_poll` has raised. -/
theorem slots_accounted_iff (h : Run (step max) Free (initial : State ε) xs s) :
    s.submitCount = s.waiting ↔
      Run (step max) (fun _ a => a.ShouldPollReturns) (initial : State ε) xs s := by
  apply h.good_iff_guarded (I := Counted max) (G := fun s => s.submitCount = s.waiting)
    (fun _ _ _ => counted_step)
  · intro s a t hs hi hbad
    have hwaiting := hi.waiting
    cases step_effect hs <;> omega
  · intro s a t hok hs _ hgood
    cases step_effect hs with
    | leaks hraises => exact absurd hok hraises
    | _ => omega
  · intro s a t hs hi hraises
    have hwaiting := hi.waiting
    cases step_effect hs with
    | leaks _ hsubmit _ hwaiting' => omega
    | _ => contradiction
  · exact counted_initial
  · rfl

theorem slots_accounted_one_slot : ∃ s : State ℕ, s.workingCount = 1 ∧
    (s.submitCount = s.waiting ↔
      Run (step 1) (fun _ a => a.ShouldPollReturns) initial oneSlot s) := by
  obtain ⟨s, hs, hp⟩ := exists_run_of_exec free_of_check (step 1) initial oneSlot
    (fun s => s.workingCount = 1) (by decide)
  exact ⟨s, by simpa using hp, slots_accounted_iff hs⟩

/-- The lookup in `should_poll` raises: the worker has ended, and its slot stays taken. -/
theorem should_poll_raises_slot_lost : ¬ ∀ (max : ℕ) (xs : List (Act ℕ)) (s : State ℕ),
    Run (step max) Free initial xs s → s.submitCount = s.waiting := by
  intro hall
  obtain ⟨s, hs, hp⟩ := exists_run_of_exec free_of_check (step 1) (initial : State ℕ)
    [.queryEvents (some ⟨[7], none⟩), .isFull true, .startThread,
      .tryLock 0 (some true) (some true) none, .shouldPoll 0 none none]
    (fun s => s.submitCount = 1 ∧ s.waiting = 0) (by decide)
  obtain ⟨hsubmit, hwaiting⟩ := of_decide_eq_true hp
  have hcount := hall 1 _ s hs
  rw [hsubmit, hwaiting] at hcount
  exact absurd hcount (by decide)

end ShimService.PollingGroup
