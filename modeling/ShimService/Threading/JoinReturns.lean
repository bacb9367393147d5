import Mathlib.Algebra.GroupWithZero.Nat
import ShimService.Threading.EachOnce

/-! `join` returns: no run of the group goes on for ever, and none is stuck before that. -/
namespace ShimService.Threading

open Transition

variable {α : Type*} {g : Group} {s t : State α} {a : Act} {xs : List Act} {adds : List (Add α)}
  {total : List α} {sent : List (List α)} {workers : List (Worker α)} {i : ℕ}
  {w old : Worker α} {raises : Bool}

/-! ### Each step lowers a weight -/

/-- The steps a worker takes until it is back at the queue, and its last one. -/
def Worker.weight : Worker α → ℕ
  | .getting => 1
  | .took _ => 3
  | .executing _ => 2
  | .ended => 0

def entryWeight : Option (List α) → ℕ
  | some _ => 3
  | none => 1

/-- An object weighs enough for the batch and the thread that it may cost. -/
def Producer.weight (threads : ℕ) : Producer α → ℕ
  | .adding todo source =>
    40 * (objects todo).length + todo.length + 39 * source.length + 3 * threads + 6
  | .submitting todo source =>
    40 * (objects todo).length + todo.length + 39 * source.length + 3 * threads + 5
  | .starting todo source =>
    40 * (objects todo).length + todo.length + 39 * source.length + 3 * threads + 4
  | .putting todo source =>
    40 * (objects todo).length + todo.length + 30 * source.length + 3 * threads + 5
  | .executing _ => 3 * threads + 4
  | .marking left => 2 * left + threads + 3
  | .waiting joined => threads - joined + 1
  | .returned => 0

def State.weight (s : State α) : ℕ :=
  s.producer.weight s.workers.length + (s.workers.map Worker.weight).sum +
    (s.queue.map entryWeight).sum

theorem weight_processorDone {batch : List α} :
    (s.processorDone batch raises).weight = s.weight := by
  unfold State.processorDone
  split <;> rfl

theorem sum_set_weight (h : workers[i]? = some old) :
    ((workers.set i w).map Worker.weight).sum + old.weight =
      (workers.map Worker.weight).sum + w.weight := by
  obtain ⟨pre, post, rfl, hset⟩ := split_workers h
  rw [hset]
  simp only [List.map_append, List.map_cons, List.sum_append, List.sum_cons]
  omega

theorem weight_setWorker (h : s.workers[i]? = some old) :
    (s.setWorker i w).weight + old.weight = s.weight + w.weight := by
  have hsum := sum_set_weight (w := w) h
  simp only [State.weight, State.setWorker, List.length_set]
  omega

theorem weight_worker (h : workerStep s i raises = some t) : t.weight < s.weight := by
  cases workerStep_works h with
  | @takes batch queue hold hq =>
    have hset := weight_setWorker (s := { s with queue := queue }) (w := .took batch) hold
    simp only [State.weight, hq, List.map_cons, List.sum_cons, entryWeight,
      Worker.weight] at hset ⊢
    omega
  | @ends queue hold hq =>
    have hset := weight_setWorker (s := { s with queue := queue }) (w := .ended) hold
    simp only [State.weight, hq, List.map_cons, List.sum_cons, entryWeight,
      Worker.weight] at hset ⊢
    omega
  | @passes batch hold =>
    have hset := weight_setWorker (s := s.process batch) (w := .executing batch) hold
    simp only [State.weight, State.process, Worker.weight] at hset ⊢
    omega
  | returns hold =>
    have hset := weight_setWorker (w := .getting) hold
    rw [weight_processorDone]
    simp only [Worker.weight] at hset
    omega

/-- The producer moves on. -/
theorem weight_producer {p q : Producer α} (hp : s.producer = q)
    (h : p.weight s.workers.length < q.weight s.workers.length) :
    ({ s with producer := p } : State α).weight < s.weight := by
  simp only [State.weight, hp]
  omega

theorem weight_producerStep (h : g.producerStep s raises = some t) (hi : Inv g total sent s) :
    t.weight < s.weight := by
  have hphase := hi.phase
  cases producerStep_produces h with
  | @fills todo todo' source source' hp hobjects hless =>
    rw [hp] at hphase
    obtain ⟨_, hless⟩ := hless hphase
    have hlength := congrArg List.length hobjects
    rw [List.length_append, List.length_append] at hlength
    apply weight_producer hp
    simp only [Producer.weight]
    omega
  | submits hp | starts hp | joins hp | waits hp | returns hp =>
    apply weight_producer hp
    simp only [Producer.weight]
    omega
  | goesOn hp _ =>
    rw [hp] at hphase
    have hsource := List.length_pos_iff.mpr hphase.1
    apply weight_producer hp
    simp only [Producer.weight]
    omega
  | started hp =>
    -- The thread that is started weighs less than the batch that it is started for.
    rw [hp] at hphase
    have hsource := List.length_pos_iff.mpr hphase.1
    simp only [State.weight, hp, Producer.weight, List.length_append, List.length_singleton,
      List.map_append, List.map_singleton, List.sum_append, List.sum_singleton, Worker.weight]
    omega
  | puts hp =>
    rw [hp] at hphase
    have hsource := List.length_pos_iff.mpr hphase.1
    simp only [State.weight, hp, Producer.weight, List.length_nil, List.map_append,
      List.map_singleton, List.sum_append, List.sum_singleton, entryWeight]
    omega
  | @executes source hp _ =>
    change ({ s with producer := .executing source } : State α).weight < s.weight
    apply weight_producer hp
    simp only [Producer.weight]
    omega
  | executed hp =>
    rw [weight_processorDone]
    apply weight_producer hp
    simp only [Producer.weight]
    omega
  | marks hp =>
    simp only [State.weight, hp, Producer.weight, List.map_append, List.map_singleton,
      List.sum_append, List.sum_singleton, entryWeight]
    omega
  | joined hp hended =>
    have hjoined := (List.getElem?_eq_some_iff.mp hended).1
    apply weight_producer hp
    simp only [Producer.weight]
    omega

theorem weight_step (h : g.step s a = some t) (hi : Inv g total sent s) :
    t.weight < s.weight := by
  cases a with
  | producer raises => exact weight_producerStep h hi
  | worker i raises => exact weight_worker h

/-! ### A marker is put for each thread -/

def Worker.hasEnded : Worker α → Bool
  | .ended => true
  | _ => false

/-- The threads that have not been sent a marker. -/
def Producer.unmarked (threads : ℕ) : Producer α → ℕ
  | .marking left => left
  | .waiting _ | .returned => 0
  | _ => threads

/-- Each thread has ended, or a marker for it is queued or still to come. -/
def Marked (s : State α) : Prop :=
  s.workers.countP Worker.hasEnded + s.queue.countP Option.isNone +
    s.producer.unmarked s.workers.length = s.workers.length

theorem marked_initial : Marked (initial adds) := rfl

theorem marked_processorDone {batch : List α} :
    Marked (s.processorDone batch raises) ↔ Marked s := by
  unfold State.processorDone
  split <;> rfl

theorem marked_producer {p q : Producer α} (hm : Marked s) (hp : s.producer = q)
    (h : p.unmarked s.workers.length = q.unmarked s.workers.length) :
    Marked { s with producer := p } := by
  simp only [Marked, hp] at hm ⊢
  omega

theorem marked_producerStep (h : g.producerStep s raises = some t) (hm : Marked s) : Marked t := by
  cases producerStep_produces h with
  | fills hp | submits hp | starts hp | goesOn hp | joins hp | waits hp | joined hp | returns hp =>
    exact marked_producer hm hp rfl
  | @executes source hp _ =>
    change Marked { s with producer := .executing source }
    exact marked_producer hm hp rfl
  | executed hp =>
    rw [marked_processorDone]
    exact marked_producer hm hp rfl
  | started hp =>
    simp only [Marked, hp, Producer.unmarked, List.length_append, List.length_singleton,
      List.countP_append, List.countP_singleton, Worker.hasEnded, Bool.false_eq_true,
      if_false] at hm ⊢
    omega
  | puts hp =>
    simp only [Marked, hp, Producer.unmarked, List.countP_append, List.countP_singleton,
      Option.isNone_some, Bool.false_eq_true, if_false] at hm ⊢
    omega
  | marks hp =>
    simp only [Marked, hp, Producer.unmarked, List.countP_append, List.countP_singleton,
      Option.isNone_none, if_true] at hm ⊢
    omega

theorem countP_set_ended (h : workers[i]? = some old) :
    (workers.set i w).countP Worker.hasEnded + old.hasEnded.toNat =
      workers.countP Worker.hasEnded + w.hasEnded.toNat := by
  obtain ⟨pre, post, rfl, hset⟩ := split_workers h
  rw [hset]
  simp only [List.countP_append, List.countP_cons]
  cases w <;> cases old <;>
    simp only [Worker.hasEnded, Bool.false_eq_true, if_false, if_true, Bool.toNat_false,
      Bool.toNat_true] <;> omega

theorem marked_workerStep (h : workerStep s i raises = some t) (hm : Marked s) : Marked t := by
  cases workerStep_works h with
  | @takes batch queue hold hq =>
    have hset := countP_set_ended (w := .took batch) hold
    simp only [Marked, hq, List.countP_cons, Option.isNone_some, Bool.false_eq_true,
      if_false] at hm
    simp only [Worker.hasEnded, Bool.toNat_false] at hset
    simp only [Marked, State.setWorker, List.length_set]
    omega
  | ends hold hq =>
    have hset := countP_set_ended (w := .ended) hold
    simp only [Marked, hq, List.countP_cons, Option.isNone_none, if_true] at hm
    simp only [Worker.hasEnded, Bool.toNat_false, Bool.toNat_true] at hset
    simp only [Marked, State.setWorker, List.length_set]
    omega
  | @passes batch hold =>
    have hset := countP_set_ended (w := .executing batch) hold
    simp only [Worker.hasEnded, Bool.toNat_false] at hset
    simp only [Marked, State.setWorker, State.process, List.length_set] at hm ⊢
    omega
  | returns hold =>
    have hset := countP_set_ended (w := .getting) hold
    rw [marked_processorDone]
    simp only [Worker.hasEnded, Bool.toNat_false] at hset
    simp only [Marked, State.setWorker, List.length_set] at hm ⊢
    omega

theorem marked_step (h : g.step s a = some t) (hm : Marked s) : Marked t := by
  cases a with
  | producer raises => exact marked_producerStep h hm
  | worker i raises => exact marked_workerStep h hm

/-! ### Some step is always possible -/

/-- A worker is only ever blocked at an empty queue. -/
theorem worker_can_step (hw : w ∈ s.workers) (hne : w ≠ .ended)
    (hqueue : s.queue ≠ [] ∨ w ≠ .getting) : ∃ a t, g.step s a = some t := by
  obtain ⟨i, hi⟩ := List.mem_iff_getElem?.mp hw
  refine ⟨.worker i false, ?_⟩
  cases w with
  | getting =>
    obtain ⟨x, queue, hq⟩ := List.exists_cons_of_ne_nil (hqueue.resolve_right fun h => h rfl)
    cases x <;> simp [Group.step, workerStep, hi, hq]
  | took | executing => simp [Group.step, workerStep, hi]
  | ended => exact absurd rfl hne

theorem exists_running (h : workers.countP Worker.hasEnded < workers.length) :
    ∃ w ∈ workers, w ≠ .ended := by
  by_contra hall
  refine absurd (List.countP_eq_length.mpr fun w hw => ?_) (Nat.ne_of_lt h)
  have hended : w = .ended := by
    by_contra hne
    exact hall ⟨w, hw, hne⟩
  rw [hended]
  rfl

/-- A full queue has a thread to take from it. -/
theorem full_can_step (hm : Marked s) (hfull : ¬ s.queue.length < g.maxQueueSize)
    (hleft : 0 < s.producer.unmarked s.workers.length) : ∃ a t, g.step s a = some t := by
  have hpos := g.maxQueueSize_pos
  have hqueue : s.queue ≠ [] := by
    rintro hnil
    simp only [hnil, List.length_nil] at hfull
    omega
  have hrunning : s.workers.countP Worker.hasEnded < s.workers.length := by
    unfold Marked at hm
    omega
  obtain ⟨w, hw, hne⟩ := exists_running hrunning
  exact worker_can_step hw hne (.inl hqueue)

theorem can_step (hi : Inv g total sent s) (hm : Marked s) (hne : s.producer ≠ .returned) :
    ∃ a t, g.step s a = some t := by
  have hphase := hi.phase
  cases hp : s.producer with
  | adding todo source =>
    refine ⟨.producer false, ?_⟩
    cases todo with
    | nil =>
      by_cases hs : source = [] <;> simp [Group.step, Group.producerStep, hp, hs]
    | cons add todo =>
      cases add with
      | add obj =>
        by_cases hfull : source.length = g.partitionSize <;>
          simp [Group.step, Group.producerStep, hp, hfull]
      | addAll objs =>
        by_cases hnil : objs = [] <;> by_cases hfull : source.length = g.partitionSize <;>
          simp [Group.step, Group.producerStep, hp, hnil, hfull]
  | submitting todo source =>
    refine ⟨.producer false, ?_⟩
    simp only [Group.step, Group.producerStep, hp]
    split <;> simp
  | starting todo source => exact ⟨.producer false, by simp [Group.step, Group.producerStep, hp]⟩
  | putting todo source =>
    by_cases hroom : s.queue.length < g.maxQueueSize
    · exact ⟨.producer false, by simp [Group.step, Group.producerStep, hp, hroom]⟩
    · rw [hp] at hphase
      apply full_can_step hm hroom
      rw [hp]
      exact List.length_pos_iff.mpr hphase.2.2
  | executing batch => exact ⟨.producer false, by simp [Group.step, Group.producerStep, hp]⟩
  | marking left =>
    cases left with
    | zero => exact ⟨.producer false, by simp [Group.step, Group.producerStep, hp]⟩
    | succ left =>
      by_cases hroom : s.queue.length < g.maxQueueSize
      · exact ⟨.producer false, by simp [Group.step, Group.producerStep, hp, hroom]⟩
      · apply full_can_step hm hroom
        rw [hp]
        exact Nat.succ_pos left
  | waiting joined =>
    cases hw : s.workers[joined]? with
    | none => exact ⟨.producer false, by simp [Group.step, Group.producerStep, hp, hw]⟩
    | some w =>
      by_cases hended : w = .ended
      · exact ⟨.producer false, by simp [Group.step, Group.producerStep, hp, hw, hended]⟩
      · refine worker_can_step (List.mem_of_getElem? hw) hended ?_
        by_contra hblocked
        obtain ⟨hqueue, hgetting⟩ := not_or.mp hblocked
        rw [Marked, hp, not_not.mp hqueue] at hm
        have hall := List.countP_eq_length.mp hm w (List.mem_of_getElem? hw)
        simp [not_not.mp hgetting, Worker.hasEnded] at hall
  | returned => exact absurd hp hne

/-- Every run of the group is of bounded length, and one that has not returned can go on. -/
theorem join_returns (h : Run g.step Free (initial adds) xs s) :
    xs.length ≤ (initial adds).weight ∧ (s.producer = .returned ∨ ∃ a t, g.step s a = some t) := by
  constructor
  · exact h.length_le (I := fun s => ∃ sent, Inv g (objects adds) sent s)
      (fun _ _ _ _ => inv_step)
      (fun _ _ _ _ hstep hi => weight_step hstep hi.choose_spec) ⟨[], inv_initial⟩
  · obtain ⟨sent, hi⟩ : ∃ sent, Inv g (objects adds) sent s :=
      h.invariant (fun _ _ _ _ => inv_step) ⟨[], inv_initial⟩
    have hm : Marked s := h.invariant (fun _ _ _ _ => marked_step) marked_initial
    exact or_iff_not_imp_left.mpr (can_step hi hm)

end ShimService.Threading
