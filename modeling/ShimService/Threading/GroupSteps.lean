import Mathlib.Data.List.Perm.Basic
import ShimService.Threading.AsyncProcessorGroup

/-! What one step of the producer or of a worker does. -/
namespace ShimService.Threading

variable {α : Type*} {g : Group} {s t : State α} {raises : Bool} {i : ℕ}

/-- A step of the producer; `fills` is any one that leaves it in its adds with no batch sent. -/
inductive Produces (g : Group) (s : State α) (raises : Bool) : State α → Prop
  | fills {todo todo' : List (Add α)} {source source' : List α}
      (hp : s.producer = .adding todo source)
      (hobjects : source' ++ objects todo' = source ++ objects todo)
      (hless : source.length ≤ g.partitionSize → source'.length ≤ g.partitionSize ∧
        (objects todo').length + todo'.length < (objects todo).length + todo.length) :
      Produces g s raises { s with producer := .adding todo' source' }
  | submits {todo : List (Add α)} {source : List α} (hp : s.producer = .adding todo source)
      (hfull : source.length = g.partitionSize) :
      Produces g s raises { s with producer := .submitting todo source }
  | starts {todo : List (Add α)} {source : List α} (hp : s.producer = .submitting todo source) :
      Produces g s raises { s with producer := .starting todo source }
  | goesOn {todo : List (Add α)} {source : List α} (hp : s.producer = .submitting todo source)
      (hworkers : s.workers ≠ []) :
      Produces g s raises { s with producer := .putting todo source }
  | started {todo : List (Add α)} {source : List α} (hp : s.producer = .starting todo source) :
      Produces g s raises
        { s with workers := s.workers ++ [.getting], producer := .putting todo source }
  | puts {todo : List (Add α)} {source : List α} (hp : s.producer = .putting todo source) :
      Produces g s raises
        { s with queue := s.queue ++ [some source], producer := .adding todo [] }
  | joins (hp : s.producer = .adding [] []) :
      Produces g s raises { s with producer := .marking s.workers.length }
  | executes {source : List α} (hp : s.producer = .adding [] source) (hne : source ≠ []) :
      Produces g s raises ({ s with producer := .executing source }.process source)
  | executed {batch : List α} (hp : s.producer = .executing batch) :
      Produces g s raises
        ({ s with producer := .marking s.workers.length }.processorDone batch raises)
  | marks {left : ℕ} (hp : s.producer = .marking (left + 1)) :
      Produces g s raises { s with queue := s.queue ++ [none], producer := .marking left }
  | waits (hp : s.producer = .marking 0) : Produces g s raises { s with producer := .waiting 0 }
  | joined {joined : ℕ} (hp : s.producer = .waiting joined)
      (hended : s.workers[joined]? = some .ended) :
      Produces g s raises { s with producer := .waiting (joined + 1) }
  | returns {joined : ℕ} (hp : s.producer = .waiting joined)
      (hnone : s.workers[joined]? = none) :
      Produces g s raises { s with producer := .returned }

theorem producerStep_produces (h : g.producerStep s raises = some t) :
    Produces g s raises t := by
  unfold Group.producerStep at h
  split at h
  · -- `add`
    rename_i obj todo source hp
    split at h <;> cases h
    · rename_i hfull
      exact .submits hp hfull
    · refine .fills hp (by simp [objects, Add.objects]) fun hlen => ⟨?_, ?_⟩
      · rw [List.length_append, List.length_singleton]
        omega
      · simp only [objects, List.flatMap_cons, List.length_append, Add.objects, List.length_cons]
        omega
  · -- `add_all`
    rename_i objs todo source hp
    split at h
    · rename_i hnil
      cases h
      refine .fills hp (by simp [objects, Add.objects, hnil]) fun hlen => ⟨hlen, ?_⟩
      simp only [objects, List.flatMap_cons, List.length_append, List.length_cons]
      omega
    · rename_i hne
      have hobjs := List.length_pos_iff.mpr hne
      split at h <;> cases h
      · rename_i hfull
        exact .submits hp hfull
      · rename_i hroom
        refine .fills hp ?_ fun hlen => ⟨?_, ?_⟩
        · simp only [objects, List.flatMap_cons, Add.objects, List.append_assoc]
          rw [← List.append_assoc (List.take _ _), List.take_append_drop]
        · rw [List.length_append, List.length_take]
          omega
        · simp only [objects, List.flatMap_cons, List.length_append, Add.objects,
            List.length_cons, List.length_drop]
          omega
  · -- `__submit`, which starts a thread or not
    rename_i todo source hp
    split at h <;> cases h
    · exact .starts hp
    · rename_i hworkers
      exact .goesOn hp fun hnil => hworkers (.inl (by simp [hnil]))
  · rename_i todo source hp
    cases h
    exact .started hp
  · rename_i todo source hp
    split at h <;> cases h
    exact .puts hp
  · -- `join`
    rename_i source hp
    split at h <;> cases h
    · rename_i hnil
      exact .joins (hnil ▸ hp)
    · rename_i hne
      exact .executes hp hne
  · rename_i batch hp
    cases h
    exact .executed hp
  · rename_i left hp
    split at h <;> cases h
    exact .marks hp
  · rename_i hp
    cases h
    exact .waits hp
  · -- The threads are joined in turn.
    rename_i joined hp
    split at h
    · rename_i hended
      cases h
      exact .joined hp hended
    · cases h
    · rename_i hnone
      cases h
      exact .returns hp hnone
  · cases h

/-- A step of a worker. -/
inductive Works (s : State α) (i : ℕ) (raises : Bool) : State α → Prop
  | takes {batch : List α} {queue : List (Option (List α))} (hold : s.workers[i]? = some .getting)
      (hq : s.queue = some batch :: queue) :
      Works s i raises ({ s with queue := queue }.setWorker i (.took batch))
  | ends {queue : List (Option (List α))} (hold : s.workers[i]? = some .getting)
      (hq : s.queue = none :: queue) :
      Works s i raises ({ s with queue := queue }.setWorker i .ended)
  | passes {batch : List α} (hold : s.workers[i]? = some (.took batch)) :
      Works s i raises ((s.process batch).setWorker i (.executing batch))
  | returns {batch : List α} (hold : s.workers[i]? = some (.executing batch)) :
      Works s i raises ((s.setWorker i .getting).processorDone batch raises)

theorem workerStep_works (h : workerStep s i raises = some t) : Works s i raises t := by
  unfold workerStep at h
  split at h
  · rename_i hold
    split at h <;> cases h
    · rename_i batch queue hq
      exact .takes hold hq
    · rename_i queue hq
      exact .ends hold hq
  · rename_i batch hold
    cases h
    exact .passes hold
  · rename_i batch hold
    cases h
    have hcomm : (s.processorDone batch raises).setWorker i .getting =
        (s.setWorker i .getting).processorDone batch raises := by
      unfold State.processorDone
      split <;> rfl
    rw [hcomm]
    exact .returns hold
  · cases h
  · cases h

end ShimService.Threading
