import Mathlib.Data.List.ReduceOption
import ShimService.Threading.GroupSteps

/-! Every object added is in exactly one of the batches processed when `join` returns. -/
namespace ShimService.Threading

open Transition

variable {α : Type*} {g : Group} {s t : State α} {a : Act} {xs : List Act} {adds : List (Add α)}
  {total batch : List α} {sent : List (List α)} {workers : List (Worker α)} {i : ℕ}
  {w old : Worker α} {raises : Bool}

/-- The batch that a worker has taken and not yet passed on. -/
def Worker.taken : Worker α → Option (List α)
  | .took batch => some batch
  | _ => none

def held (workers : List (Worker α)) : List (List α) := workers.filterMap Worker.taken

/-- The objects that no batch has yet. -/
def Producer.left : Producer α → List α
  | .adding todo source | .submitting todo source | .starting todo source
  | .putting todo source => source ++ objects todo
  | _ => []

/-- The producer has not come to `join`. -/
def Producer.Adds : Producer α → Prop
  | .adding _ _ | .submitting _ _ | .starting _ _ | .putting _ _ => True
  | _ => False

/-- What the producer knows of its buffer and its threads. -/
def Producer.Ok (g : Group) (workers : List (Worker α)) : Producer α → Prop
  | .adding _ source => source.length ≤ g.partitionSize
  | .submitting _ source | .starting _ source => source ≠ [] ∧ source.length ≤ g.partitionSize
  | .putting _ source => source ≠ [] ∧ source.length ≤ g.partitionSize ∧ workers ≠ []
  | .waiting joined => ∀ i < joined, ∀ w, workers[i]? = some w → w = .ended
  | .returned => ∀ w ∈ workers, w = .ended
  | .executing _ | .marking _ => True

/-- Each batch sent is processed, held or queued, and a marker only reaches a worker when every
batch has been taken. -/
structure Inv (g : Group) (total : List α) (sent : List (List α)) (s : State α) : Prop where
  order : sent.flatten ++ s.producer.left = total
  accounted : (s.processed ++ held s.workers ++ s.queue.reduceOption).Perm sent
  sized : ∀ batch ∈ sent, batch ≠ [] ∧ batch.length ≤ g.partitionSize
  phase : s.producer.Ok g s.workers
  markersLast : s.queue.Pairwise fun a b => a = none → b = none
  noneLeft : .ended ∈ s.workers ∨ s.workers = [] → ∀ x ∈ s.queue, x = none
  unmarked : s.producer.Adds → (∀ x ∈ s.queue, x ≠ none) ∧ .ended ∉ s.workers

theorem inv_initial : Inv g (objects adds) [] (initial adds) where
  order := by simp [initial, Producer.left]
  accounted := by simp [initial, held]
  sized := by simp
  phase := Nat.zero_le _
  markersLast := List.Pairwise.nil
  noneLeft := by simp [initial]
  unmarked := by simp [initial]

theorem split_workers (h : workers[i]? = some old) : ∃ pre post, workers = pre ++ old :: post ∧
    ∀ w, workers.set i w = pre ++ w :: post := by
  obtain ⟨hi, rfl⟩ := List.getElem?_eq_some_iff.mp h
  refine ⟨workers.take i, workers.drop (i + 1), ?_, fun w => ?_⟩
  · rw [List.getElem_cons_drop, List.take_append_drop]
  · rw [List.set_eq_take_append_cons_drop, if_pos hi]

/-- The producer moves on without sending a batch. -/
theorem inv_producer {p q : Producer α} (hi : Inv g total sent s) (hp : s.producer = q)
    (hleft : p.left = q.left) (hphase : p.Ok g s.workers) (hadds : p.Adds → q.Adds) :
    Inv g total sent { s with producer := p } :=
  { hi with
    order := by rw [hleft, ← hp, hi.order]
    phase := hphase
    unmarked := fun h => hi.unmarked (hp ▸ hadds h) }

theorem inv_processorDone (hi : Inv g total sent s) :
    Inv g total sent (s.processorDone batch raises) := by
  unfold State.processorDone
  split
  · exact { hi with }
  · exact hi

/-- Only how often each batch occurs matters. -/
theorem perm_of_count {now before : List (List α)} (h : before.Perm sent)
    (hcount : ∀ [DecidableEq α] (b : List α), now.count b = before.count b) :
    now.Perm sent := by
  classical
  exact (List.perm_iff_count.mpr hcount).trans h

theorem perm_put {processed held queued : List (List α)}
    (h : (processed ++ held ++ queued).Perm sent) :
    (processed ++ held ++ (queued ++ [batch])).Perm (sent ++ [batch]) := by
  apply perm_of_count (h.append_right [batch])
  intro _ b
  simp only [List.count_append]
  omega

theorem perm_process {processed held queued : List (List α)}
    (h : (processed ++ held ++ queued).Perm sent) :
    (processed ++ [batch] ++ held ++ queued).Perm (sent ++ [batch]) := by
  apply perm_of_count (h.append_right [batch])
  intro _ b
  simp only [List.count_append]
  omega

/-- A worker takes the first batch of the queue. -/
theorem perm_take {processed pre post queued : List (List α)}
    (h : (processed ++ (pre ++ post) ++ batch :: queued).Perm sent) :
    (processed ++ (pre ++ batch :: post) ++ queued).Perm sent := by
  apply perm_of_count h
  intro _ b
  simp only [List.count_append, List.count_cons]
  omega

/-- A worker passes on the batch that it has taken. -/
theorem perm_pass {processed pre post queued : List (List α)}
    (h : (processed ++ (pre ++ batch :: post) ++ queued).Perm sent) :
    (processed ++ [batch] ++ (pre ++ post) ++ queued).Perm sent := by
  apply perm_of_count h
  intro _ b
  simp only [List.count_append, List.count_cons, List.count_nil]
  omega

theorem sized_append (hi : Inv g total sent s) (hne : batch ≠ [])
    (hlen : batch.length ≤ g.partitionSize) :
    ∀ b ∈ sent ++ [batch], b ≠ [] ∧ b.length ≤ g.partitionSize := by
  intro b hb
  rcases List.mem_append.mp hb with hold | hnew
  · exact hi.sized b hold
  · obtain rfl := List.mem_singleton.mp hnew
    exact ⟨hne, hlen⟩

/-- The producer puts a full buffer. -/
theorem inv_put {todo : List (Add α)} (hi : Inv g total sent s)
    (hp : s.producer = .putting todo batch) :
    Inv g total (sent ++ [batch])
      { s with queue := s.queue ++ [some batch], producer := .adding todo [] } := by
  have hphase := hi.phase
  have horder := hi.order
  have hopen := hi.unmarked
  rw [hp] at hphase horder hopen
  obtain ⟨hne, hlen, hworkers⟩ := hphase
  obtain ⟨hunmarked, hended⟩ := hopen trivial
  refine ⟨?_, ?_, sized_append hi hne hlen, Nat.zero_le _, ?_, ?_, ?_⟩
  · simpa [Producer.left] using horder
  · rw [List.reduceOption_append]
    exact perm_put hi.accounted
  · refine List.pairwise_append.mpr ⟨hi.markersLast, by simp, ?_⟩
    intro x hx _ _ hnone
    exact absurd hnone (hunmarked x hx)
  · rintro (hsome | hnil)
    · exact absurd hsome hended
    · exact absurd hnil hworkers
  · refine fun _ => ⟨?_, hended⟩
    intro x hx
    rcases List.mem_append.mp hx with hold | hnew
    · exact hunmarked x hold
    · simp [List.mem_singleton.mp hnew]

/-- `join` processes what is left in the buffer. -/
theorem inv_join (hi : Inv g total sent s) (hp : s.producer = .adding [] batch) (hne : batch ≠ []) :
    Inv g total (sent ++ [batch]) ({ s with producer := .executing batch }.process batch) := by
  have hphase := hi.phase
  have horder := hi.order
  rw [hp] at hphase horder
  refine ⟨?_, perm_process hi.accounted, sized_append hi hne hphase, trivial, hi.markersLast,
    hi.noneLeft, nofun⟩
  simpa [State.process, Producer.left, objects] using horder

/-- `join` puts a marker. -/
theorem inv_mark {n : ℕ} (hi : Inv g total sent s) (hp : s.producer = .marking (n + 1)) :
    Inv g total sent { s with queue := s.queue ++ [none], producer := .marking n } := by
  have horder := hi.order
  rw [hp] at horder
  refine ⟨horder, ?_, hi.sized, trivial, ?_, ?_, nofun⟩
  · rw [List.reduceOption_append]
    simpa using hi.accounted
  · refine List.pairwise_append.mpr ⟨hi.markersLast, by simp, ?_⟩
    intro x _ y hy _
    exact List.mem_singleton.mp hy
  · intro hdone x hx
    rcases List.mem_append.mp hx with hold | hnew
    · exact hi.noneLeft hdone x hold
    · exact List.mem_singleton.mp hnew

/-- `__submit` starts a thread. -/
theorem inv_start {todo : List (Add α)} (hi : Inv g total sent s)
    (hp : s.producer = .starting todo batch) :
    Inv g total sent
      { s with workers := s.workers ++ [.getting], producer := .putting todo batch } := by
  have hphase := hi.phase
  have horder := hi.order
  have hopen := hi.unmarked
  rw [hp] at hphase horder hopen
  obtain ⟨hunmarked, hended⟩ := hopen trivial
  refine ⟨horder, ?_, hi.sized, ⟨hphase.1, hphase.2, by simp⟩, hi.markersLast, ?_, ?_⟩
  · simpa [held, List.filterMap_cons, Worker.taken] using hi.accounted
  · rintro (hsome | hnil)
    · simp [hended] at hsome
    · simp at hnil
  · exact fun _ => ⟨hunmarked, by simp [hended]⟩

theorem step_producer (h : g.producerStep s raises = some t) (hi : Inv g total sent s) :
    ∃ sent, Inv g total sent t := by
  have hphase := hi.phase
  cases producerStep_produces h with
  | fills hp hobjects hless =>
    rw [hp] at hphase
    exact ⟨sent, inv_producer hi hp hobjects (hless hphase).1 fun _ => trivial⟩
  | submits hp hfull =>
    have hpos := g.partitionSize_pos
    refine ⟨sent, inv_producer hi hp rfl ⟨?_, Nat.le_of_eq hfull⟩ fun _ => trivial⟩
    rintro rfl
    simp at hfull
    omega
  | starts hp =>
    rw [hp] at hphase
    exact ⟨sent, inv_producer hi hp rfl hphase fun _ => trivial⟩
  | goesOn hp hworkers =>
    rw [hp] at hphase
    exact ⟨sent, inv_producer hi hp rfl ⟨hphase.1, hphase.2, hworkers⟩ fun _ => trivial⟩
  | started hp => exact ⟨sent, inv_start hi hp⟩
  | puts hp => exact ⟨_, inv_put hi hp⟩
  | joins hp => exact ⟨sent, inv_producer hi hp rfl trivial nofun⟩
  | executes hp hne => exact ⟨_, inv_join hi hp hne⟩
  | executed hp => exact ⟨sent, inv_processorDone (inv_producer hi hp rfl trivial nofun)⟩
  | marks hp => exact ⟨sent, inv_mark hi hp⟩
  | waits hp => exact ⟨sent, inv_producer hi hp rfl (by simp [Producer.Ok]) nofun⟩
  | @joined joined hp hended =>
    rw [hp] at hphase
    refine ⟨sent, inv_producer hi hp rfl ?_ nofun⟩
    intro j hj w hw
    rcases Nat.lt_succ_iff_lt_or_eq.mp hj with hlt | rfl
    · exact hphase j hlt w hw
    · exact (Option.some.inj (hended.symm.trans hw)).symm
  | @returns joined hp hnone =>
    rw [hp] at hphase
    refine ⟨sent, inv_producer hi hp rfl ?_ nofun⟩
    intro w hw
    obtain ⟨j, hj, rfl⟩ := List.getElem_of_mem hw
    have hle := List.getElem?_eq_none_iff.mp hnone
    exact hphase j (by omega) _ (List.getElem?_eq_getElem hj)

theorem phase_set {p : Producer α} (hold : workers[i]? = some old) (hne : old ≠ .ended)
    (h : p.Ok g workers) : p.Ok g (workers.set i w) := by
  cases p with
  | putting todo source => exact ⟨h.1, h.2.1, by simpa using h.2.2⟩
  | waiting joined =>
    intro j hj v hv
    by_cases hij : i = j
    · subst j
      exact absurd (h i hj old hold) hne
    · rw [List.getElem?_set_ne hij] at hv
      exact h j hj v hv
  | returned => exact absurd (h old (List.mem_of_getElem? hold)) hne
  | _ => exact h

theorem ended_of_set (hw : w ≠ .ended) (h : .ended ∈ workers.set i w) : .ended ∈ workers := by
  rcases List.mem_or_eq_of_mem_set h with hmem | heq
  · exact hmem
  · exact absurd heq.symm hw

/-- A worker that does not end takes from the front of the queue or leaves it. -/
theorem inv_setWorker (hi : Inv g total sent s) (hold : s.workers[i]? = some old)
    (hne : old ≠ .ended) (hw : w ≠ .ended) (hproducer : t.producer = s.producer)
    (hworkers : t.workers = s.workers.set i w) (hqueue : t.queue.Sublist s.queue)
    (hacc : (t.processed ++ held t.workers ++ t.queue.reduceOption).Perm sent) :
    Inv g total sent t where
  order := by rw [hproducer, hi.order]
  accounted := hacc
  sized := hi.sized
  phase := by
    rw [hproducer, hworkers]
    exact phase_set hold hne hi.phase
  markersLast := hi.markersLast.sublist hqueue
  noneLeft := by
    rw [hworkers]
    intro hdone x hx
    refine hi.noneLeft (hdone.imp (ended_of_set hw) fun hnil => ?_) x (hqueue.subset hx)
    simpa using hnil
  unmarked := by
    rw [hproducer, hworkers]
    intro hadds
    obtain ⟨hunmarked, hended⟩ := hi.unmarked hadds
    exact ⟨fun x hx => hunmarked x (hqueue.subset hx), fun h => hended (ended_of_set hw h)⟩

/-- A worker takes a marker, behind which there are only markers. -/
theorem inv_end {queue : List (Option (List α))} (hi : Inv g total sent s)
    (hold : s.workers[i]? = some .getting) (hq : s.queue = none :: queue) :
    Inv g total sent ({ s with queue := queue }.setWorker i .ended) := by
  have hlast := hi.markersLast
  rw [hq] at hlast
  obtain ⟨hrest, hsorted⟩ := List.pairwise_cons.mp hlast
  refine ⟨hi.order, ?_, hi.sized, phase_set hold nofun hi.phase, hsorted, ?_, ?_⟩
  · obtain ⟨pre, post, hpre, hset⟩ := split_workers hold
    have hacc := hi.accounted
    rw [hq, hpre] at hacc
    simpa [State.setWorker, held, hset, List.filterMap_cons, Worker.taken] using hacc
  · exact fun _ x hx => hrest x hx rfl
  · intro hadds
    exact absurd rfl ((hi.unmarked hadds).1 none (by simp [hq]))

theorem step_worker (h : workerStep s i raises = some t) (hi : Inv g total sent s) :
    Inv g total sent t := by
  have hacc := hi.accounted
  cases workerStep_works h with
  | @takes batch queue hold hq =>
    obtain ⟨pre, post, hpre, hset⟩ := split_workers hold
    refine inv_setWorker (w := .took batch) hi hold nofun nofun rfl rfl
      (hq ▸ List.sublist_cons_self _ _) ?_
    rw [hq, hpre] at hacc
    simp only [held, List.filterMap_append, List.filterMap_cons, Worker.taken,
      List.reduceOption_cons_of_some] at hacc
    simpa only [State.setWorker, hset, held, List.filterMap_append, List.filterMap_cons,
      Worker.taken] using perm_take hacc
  | ends hold hq => exact inv_end hi hold hq
  | @passes batch hold =>
    obtain ⟨pre, post, hpre, hset⟩ := split_workers hold
    refine inv_setWorker (w := .executing batch) hi hold nofun nofun rfl rfl
      (List.Sublist.refl _) ?_
    rw [hpre] at hacc
    simp only [held, List.filterMap_append, List.filterMap_cons, Worker.taken] at hacc
    simpa only [State.setWorker, State.process, hset, held, List.filterMap_append,
      List.filterMap_cons, Worker.taken] using perm_pass hacc
  | returns hold =>
    obtain ⟨pre, post, hpre, hset⟩ := split_workers hold
    apply inv_processorDone
    refine inv_setWorker (w := .getting) hi hold nofun nofun rfl rfl (List.Sublist.refl _) ?_
    rw [hpre] at hacc
    simpa only [State.setWorker, hset, held, List.filterMap_append, List.filterMap_cons,
      Worker.taken] using hacc

/-- When `join` has returned, the batches processed are a cut of the sequence of objects added into
parts that are neither empty nor larger than the partition size: each object is in exactly one. -/
def EachOnce (g : Group) (adds : List (Add α)) (processed : List (List α)) : Prop :=
  ∃ batches : List (List α), processed.Perm batches ∧ batches.flatten = objects adds ∧
    ∀ batch ∈ processed, batch ≠ [] ∧ batch.length ≤ g.partitionSize

theorem inv_step (h : g.step s a = some t) (hi : ∃ sent, Inv g total sent s) :
    ∃ sent, Inv g total sent t := by
  obtain ⟨sent, hi⟩ := hi
  cases a with
  | producer raises => exact step_producer h hi
  | worker i raises => exact ⟨sent, step_worker h hi⟩

/-- At the end every worker has taken its marker, so nothing is held and no batch is queued. -/
theorem processed_perm (hi : Inv g total sent s) (hreturned : s.producer = .returned) :
    s.processed.Perm sent := by
  have hended : ∀ w ∈ s.workers, w = .ended := by
    have hphase := hi.phase
    rw [hreturned] at hphase
    exact hphase
  have hheld : held s.workers = [] := by
    refine List.filterMap_eq_nil_iff.mpr fun w hw => ?_
    rw [hended w hw]
    rfl
  have hmarkers : ∀ x ∈ s.queue, x = none := by
    apply hi.noneLeft
    cases hworkers : s.workers with
    | nil => exact .inr rfl
    | cons w ws =>
      refine .inl ?_
      rw [← hended w (by simp [hworkers])]
      exact List.mem_cons_self
  have hqueued : s.queue.reduceOption = [] :=
    List.filterMap_eq_nil_iff.mpr fun x hx => hmarkers x hx
  simpa [hheld, hqueued] using hi.accounted

theorem each_object_processed_once (h : Run g.step Free (initial adds) xs s)
    (hreturned : s.producer = .returned) : EachOnce g adds s.processed := by
  obtain ⟨sent, hi⟩ : ∃ sent, Inv g (objects adds) sent s :=
    h.invariant (fun _ _ _ _ => inv_step) ⟨[], inv_initial⟩
  have hperm := processed_perm hi hreturned
  have horder := hi.order
  rw [hreturned] at horder
  refine ⟨sent, hperm, by simpa [Producer.left] using horder, fun batch hbatch => ?_⟩
  exact hi.sized batch (hperm.subset hbatch)

def twoThreads : Group := ⟨2, 2, 1, by decide, by decide, by decide⟩

/-- Two workers take the full batches, the processor raises on one of them, and the joining thread
processes the last object. -/
theorem five_objects_processed_once : ∃ s : State ℕ, s.producer = .returned ∧
    s.errors = [[1, 2]] ∧ EachOnce twoThreads [.add 1, .addAll [2, 3, 4], .add 5] s.processed := by
  obtain ⟨s, hs, hp⟩ := exists_run_of_exec free_of_check twoThreads.step
    (initial [.add 1, .addAll [2, 3, 4], .add 5])
    (List.replicate 11 (Act.producer false) ++ [Act.worker 1 true] ++
      List.replicate 4 (Act.producer false) ++
      [Act.worker 0 false, .producer false, .worker 0 false, .worker 1 true, .worker 0 false,
        .worker 1 true, .worker 0 false] ++
      List.replicate 3 (Act.producer false) ++
      [Act.worker 1 true, .producer false, .producer false])
    (fun s => s.producer = .returned && s.errors = [[1, 2]]) (by decide +kernel)
  obtain ⟨hreturned, herrors⟩ := Bool.and_eq_true_iff.mp hp
  have hreturned : s.producer = .returned := of_decide_eq_true hreturned
  exact ⟨s, hreturned, of_decide_eq_true herrors, each_object_processed_once hs hreturned⟩

end ShimService.Threading
