import ShimService.Threading.Throttler

/-! What one step of the throttler does. -/
namespace ShimService.Throttling

variable {th : Throttler} {s t : State} {a : Act} {w : Worker}

/-- What a step does, without the event's state. -/
inductive Effect (th : Throttler) (s : State) : Act → State → Prop where
  | clock (now : ℤ) : Effect th s (.clock now) { s with clock := now }
  | add (event : SignalEvent) (hopen : s.shutdown = false) : Effect th s .add { s with
      anyWaiting := true
      worker := s.worker.started
      event := event
      unserved := true }
  | addRaises : Effect th s .addRaises s
  | closeAgain (hclosed : s.shutdown = true) : Effect th s .close s
  | close (event : SignalEvent) (hopen : s.shutdown = false) :
      Effect th s .close { s with shutdown := true, event := event }
  | wait (timedOut : Bool) (event : SignalEvent) (hw : s.worker = .waiting) :
      Effect th s (.wait timedOut) { s with event := event, worker := .deciding }
  | invoke (hw : s.worker = .deciding) : Effect th s .decide s.invoke
  | nothing (hw : s.worker = .deciding) (hnone : s.anyWaiting = false) :
      Effect th s .decide { s with worker := .checking }
  | opens (hw : s.worker = .deciding) (hopen : s.shutdown = false) (hnone : s.startTime = none) :
      Effect th s .decide { s with startTime := some s.clock, worker := .checking }
  | early (startTime : ℤ) (hw : s.worker = .deciding) (hopen : s.shutdown = false)
      (hstart : s.startTime = some startTime) (hearly : s.clock - startTime < th.throttleMillis) :
      Effect th s .decide { s with worker := .checking }
  | call (hw : s.worker = .calling) :
      Effect th s .call { s with worker := .inCall, unserved := false }
  | returns (hw : s.worker = .inCall) : Effect th s .returns { s with worker := .checking }
  | ends (hw : s.worker = .checking) (hclosed : s.shutdown = true) :
      Effect th s .check { s with worker := .ended }
  | goesOn (hw : s.worker = .checking) (hopen : s.shutdown = false) :
      Effect th s .check { s with worker := .waiting }

theorem decide_effect (hw : s.worker = .deciding) : Effect th s .decide (th.decideInvoke s) := by
  unfold Throttler.decideInvoke
  split
  · split
    · exact .invoke hw
    · rename_i hopen
      have hopen : s.shutdown = false := by simpa using hopen
      split
      · rename_i hnone
        exact .opens hw hopen hnone
      · rename_i startTime hstart
        split
        · exact .invoke hw
        · rename_i hearly
          exact .early startTime hw hopen hstart (by omega)
  · rename_i hnone
    exact .nothing hw (by simpa using hnone)

theorem step_effect (h : th.step s a = some t) : Effect th s a t := by
  cases a with
  | clock now =>
    obtain rfl := Option.some.inj h
    exact .clock now
  | add =>
    simp only [Throttler.step, addInvocation] at h
    split at h
    · cases h
    · rename_i hopen
      obtain rfl := Option.some.inj h
      exact .add _ (by simpa using hopen)
  | addRaises =>
    simp only [Throttler.step] at h
    split at h
    · obtain rfl := Option.some.inj h
      exact .addRaises
    · cases h
  | close =>
    obtain rfl : close s = t := Option.some.inj h
    unfold close
    split
    · rename_i hclosed
      exact .closeAgain hclosed
    · rename_i hopen
      exact .close _ (by simpa using hopen)
  | wait timedOut =>
    obtain ⟨hw, h⟩ := Option.ite_none_right_eq_some.mp h
    obtain ⟨event, _, rfl⟩ := Option.map_eq_some_iff.mp h
    exact .wait timedOut event hw
  | decide =>
    obtain ⟨hw, h⟩ := Option.ite_none_right_eq_some.mp h
    obtain rfl := Option.some.inj h
    exact decide_effect hw
  | call =>
    obtain ⟨hw, h⟩ := Option.ite_none_right_eq_some.mp h
    obtain rfl := Option.some.inj h
    exact .call hw
  | returns =>
    obtain ⟨hw, h⟩ := Option.ite_none_right_eq_some.mp h
    obtain rfl := Option.some.inj h
    exact .returns hw
  | check =>
    obtain ⟨hw, h⟩ := Option.ite_none_right_eq_some.mp h
    obtain rfl := Option.some.inj h
    split
    · rename_i hclosed
      exact .ends hw hclosed
    · rename_i hopen
      exact .goesOn hw (by simpa using hopen)

theorem step_unserved (h : th.step s a = some t) :
    t.unserved = true ↔ a = .add ∨ (s.unserved = true ∧ a ≠ .call) := by
  cases step_effect h <;> simp [State.invoke]

@[simp] theorem started_ne_absent : w.started ≠ .absent := by
  cases w <;> simp [Worker.started]

theorem started_of_ne (h : w ≠ .absent) : w.started = w := if_neg h

theorem started_eq_ended (h : w.started = .ended) : w = .ended := by
  cases w <;> simp_all [Worker.started]

/-- How many steps the worker is from its section. -/
def Worker.rank : Worker → ℕ
  | .waiting => 1
  | .checking => 2
  | .inCall => 3
  | _ => 0

theorem step_rank (h : th.step s a = some t) (ha : a.OfWorker) : a = .decide ∨
    (s.worker = .calling ∧ a = .call) ∨ t.worker = .ended ∨ t.worker.rank < s.worker.rank := by
  cases step_effect h with
  | clock | add | addRaises | closeAgain | close => exact ha.elim
  | invoke | nothing | opens | early => exact .inl rfl
  | call hw => exact .inr (.inl ⟨hw, rfl⟩)
  | ends => exact .inr (.inr (.inl rfl))
  | wait _ _ hw | returns hw | goesOn hw => simp [hw, Worker.rank]

theorem step_calling (h : th.step s a = some t) (ha : a.OfWorker) (hs : s.worker = .calling) :
    a = .call := by
  cases step_effect h with
  | clock | add | addRaises | closeAgain | close => exact ha.elim
  | call => rfl
  | wait _ _ hw | invoke hw | nothing hw | opens hw | early _ hw | returns hw | ends hw
  | goesOn hw => simp [hw] at hs

/-- The other threads leave a worker where it is. -/
theorem step_worker (h : th.step s a = some t) (ha : ¬ a.OfWorker) (hw : w ≠ .absent)
    (hs : s.worker = w) : t.worker = w := by
  subst hs
  cases step_effect h with
  | add event hopen => exact started_of_ne hw
  | clock | addRaises | closeAgain | close => rfl
  | _ => exact absurd trivial ha

theorem step_startTime {start : ℤ} (h : th.step s a = some t) (ht : t.worker ≠ .calling)
    (hs : s.startTime = some start) : t.startTime = some start := by
  cases step_effect h with
  | invoke => exact absurd rfl ht
  | opens _ _ hnone => simp [hs] at hnone
  | _ => exact hs

/-- A section that does not invoke leaves a window that has not passed. -/
theorem step_decide (h : th.step s .decide = some t) (hwaits : s.anyWaiting = true)
    (ht : t.worker ≠ .calling) : ∃ start, t.startTime = some start ∧
      (s.startTime = some start → s.clock - start < th.throttleMillis) := by
  cases step_effect h with
  | invoke => exact absurd rfl ht
  | nothing _ hnone => simp [hnone] at hwaits
  | opens _ _ hnone => exact ⟨s.clock, rfl, fun hs => by simp [hnone] at hs⟩
  | early start _ _ hstart hearly => exact ⟨start, hstart, fun _ => hearly⟩

theorem step_ended (h : th.step s a = some t) (hs : s.worker = .ended) : t.worker = .ended := by
  cases step_effect h with
  | clock | addRaises | closeAgain | close => exact hs
  | add => exact (started_of_ne (hs ▸ nofun)).trans hs
  | ends => rfl
  | wait _ _ hw | invoke hw | nothing hw | opens hw | early _ hw | call hw | returns hw
  | goesOn hw => simp [hw] at hs

theorem step_call (h : th.step s .call = some t) : s.worker = .calling := by
  cases step_effect h with
  | call hw => exact hw

end ShimService.Throttling
