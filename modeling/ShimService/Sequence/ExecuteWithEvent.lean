import ShimService.Sequence.Execute

/-!
`AwsSequenceRepo.execute_with_event`: a call of `execute` on the tenant's event sequence whose
callback writes the caller's requests and the event in one transaction.
-/
namespace ShimService.ExecuteWithEvent

open SequenceRepo

variable {σ : Type*}

/-- One write request: `none` where its condition is refused. -/
abbrev Request (σ : Type*) := σ → Option σ

/-- The arguments of one call. The event is put under the number the call is handed, and
`additionalRequests` are those of the event's listeners. -/
structure EventCall (σ : Type*) where
  tenantId : ℕ
  maxLockSeconds : ℕ
  requestList : List (Request σ)
  putEvent : (seqNo : ℕ) → Request σ
  additionalRequests : List (Request σ)

def EventCall.args (e : EventCall σ) : Args := ⟨e.tenantId, "EventSeq", e.maxLockSeconds⟩

def EventCall.requests (e : EventCall σ) (seqNo : ℕ) : List (Request σ) :=
  e.requestList ++ [e.putEvent seqNo] ++ e.additionalRequests

/-- What the callback gives `execute`: `transact_write` returns the refused request if there is
one, and any other failure is an exception. -/
inductive Outcome where
  | returned (badRequest : Option ℕ)
  | raised
  deriving DecidableEq, Repr

/-- What the caller gets: the callback's outcome, or an `OptimisticLockException` of the sequence
row. -/
inductive Result where
  | outcome (outcome : Outcome)
  | optimisticLock
  deriving DecidableEq, Repr

/-- `failed` is an exception before the transaction reaches the store, `lost` one after. -/
inductive Reply where
  | answered
  | failed
  | lost
  deriving DecidableEq, Repr

/-- `log` lists the calls whose transaction is in the store, the latest first. -/
structure State (σ : Type*) where
  seq : SequenceRepo.State
  store : σ
  log : List ℕ
  callbacks : ℕ → Option Outcome
  results : ℕ → Option Result

/-- `other` is a write to the store by anyone else. -/
inductive Act (σ : Type*) where
  | seq (a : SequenceRepo.Act)
  | transact (c : ℕ) (reply : Reply)
  | other (write : Request σ)

section

variable (calls : ℕ → EventCall σ)

def args (c : ℕ) : Args := (calls c).args

/-- The callback's end, after which `execute` is in its `finally`. -/
def finish (s : State σ) (c : ℕ) (outcome : Outcome) : Option (State σ) :=
  (SequenceRepo.step (args calls) s.seq (.callback c (outcome ≠ .raised))).map fun seq =>
    { s with seq := seq, callbacks := Function.update s.callbacks c (some outcome) }

def State.commit (s : State σ) (c : ℕ) (store : σ) : State σ :=
  { s with store := store, log := c :: s.log }

def step (s : State σ) : Act σ → Option (State σ)
  | .seq (.callback _ _) => none
  | .seq (.release c) =>
    match s.seq.calls c with
    | .releasing held _ =>
      -- An exception of the release replaces whatever the callback has returned or raised.
      let result :=
        if (releaseSlot s.seq.table (args calls c).key held).isSome
        then (s.callbacks c).map .outcome else some .optimisticLock
      (SequenceRepo.step (args calls) s.seq (.release c)).map fun seq =>
        { s with seq := seq, results := Function.update s.results c result }
    | _ => none
  | .seq a =>
    (SequenceRepo.step (args calls) s.seq a).map fun seq =>
      { s with
        seq := seq
        -- The attempts to take the slot are used up.
        results := fun c =>
          if seq.calls c = .raised none then some .optimisticLock else s.results c }
  | .transact c reply =>
    match s.seq.calls c with
    | .running held =>
      match reply, CondTable.transact ((calls c).requests held.nextValue) s.store with
      | .failed, _ => finish calls s c .raised
      | .lost, .error _ => finish calls s c .raised
      | .lost, .ok store => finish calls (s.commit c store) c .raised
      | .answered, .error badRequest => finish calls s c (.returned (some badRequest))
      | .answered, .ok store => finish calls (s.commit c store) c (.returned none)
    | _ => none
  | .other write => (write s.store).map fun store => { s with store := store }

/-- No call has begun; the sequence table and the store are any. -/
def initial (clock : ℕ) (table : CondTable.Table SeqKey Sequence) (store : σ) : State σ :=
  ⟨SequenceRepo.initial clock table, store, [], fun _ => none, fun _ => none⟩

/-- What a step does to the store: nothing, the transaction of one call, or a write by anyone
else. -/
inductive Written (s : State σ) (a : Act σ) (t : State σ) : Prop where
  | nothing (hstore : t.store = s.store) (hlog : t.log = s.log)
  | committed (c : ℕ) (reply : Reply) (held : Sequence) (ha : a = .transact c reply)
      (hstore : CondTable.transact ((calls c).requests held.nextValue) s.store = .ok t.store)
      (hlog : t.log = c :: s.log)
  | other (write : Request σ) (ha : a = .other write) (hstore : write s.store = some t.store)
      (hlog : t.log = s.log)

theorem finish_keeps {s t : State σ} {c : ℕ} {outcome : Outcome}
    (h : finish calls s c outcome = some t) : t.store = s.store ∧ t.log = s.log := by
  obtain ⟨seq, -, rfl⟩ := Option.map_eq_some_iff.mp h
  exact ⟨rfl, rfl⟩

theorem written_of_step {s t : State σ} {a : Act σ} (h : step calls s a = some t) :
    Written calls s a t := by
  cases a with
  | other write =>
    obtain ⟨store, hstore, rfl⟩ := Option.map_eq_some_iff.mp h
    exact .other write rfl hstore rfl
  | transact c reply =>
    simp only [step] at h
    split at h
    · rename_i held hc
      split at h
      · exact .nothing (finish_keeps calls h).1 (finish_keeps calls h).2
      · exact .nothing (finish_keeps calls h).1 (finish_keeps calls h).2
      · rename_i store hstore
        obtain ⟨hs, hl⟩ := finish_keeps calls h
        exact .committed c _ held rfl (hs ▸ hstore) hl
      · exact .nothing (finish_keeps calls h).1 (finish_keeps calls h).2
      · rename_i store hstore
        obtain ⟨hs, hl⟩ := finish_keeps calls h
        exact .committed c _ held rfl (hs ▸ hstore) hl
    · cases h
  | seq b =>
    cases b with
    | callback c returned => cases h
    | release c =>
      simp only [step] at h
      split at h
      · obtain ⟨seq, -, rfl⟩ := Option.map_eq_some_iff.mp h
        exact .nothing rfl rfl
      · cases h
    | tick millis | find c | stamp c | check c | take c =>
      simp only [step] at h
      obtain ⟨seq, -, rfl⟩ := Option.map_eq_some_iff.mp h
      exact .nothing rfl rfl

end

end ShimService.ExecuteWithEvent
