import Mathlib.Data.List.Range
import ShimService.Sequence.ExecuteWithEvent

/-!
`AwsSequenceRepo.execute_with_events` next to `execute_with_event`, and the numbers that both give
to events of a tenant. What the transaction of a call comes to is part of the action.
-/
namespace ShimService.ExecuteWithEvents

open CondTable SequenceRepo Transition
open ExecuteWithEvent (Outcome)

inductive Kind where
  | withEvent
  | withEvents (numRequests : ℕ)
  deriving DecidableEq, Repr

structure EventCall where
  tenantId : ℕ
  maxLockSeconds : ℕ
  kind : Kind
  deriving DecidableEq, Repr

def EventCall.args (e : EventCall) : Args := ⟨e.tenantId, "EventSeq", e.maxLockSeconds⟩

/-- The assertion on `num_requests`. -/
def Kind.allowed : Kind → Bool
  | .withEvent => true
  | .withEvents numRequests => numRequests < 50

/-- The numbers of the loop, which counts up before each event. -/
def eventNumbers : ℕ → ℕ → List ℕ
  | 0, _ => []
  | numRequests + 1, nextValue => (nextValue + 1) :: eventNumbers numRequests (nextValue + 1)

/-- The numbers of the events that a call puts when it is handed `nextValue`. -/
def Kind.used : Kind → ℕ → List ℕ
  | .withEvent, nextValue => [nextValue]
  | .withEvents numRequests, nextValue => eventNumbers numRequests nextValue

/-- `outcomes` says what the transactions came to. The `next_value` that `execute_with_events` puts
back after a bad one is never written. -/
structure State where
  seq : SequenceRepo.State
  outcomes : ℕ → Option Outcome

inductive Act where
  | seq (a : SequenceRepo.Act)
  | transact (c : ℕ) (outcome : Outcome)
  deriving DecidableEq, Repr

section

variable (calls : ℕ → EventCall)

def args (c : ℕ) : Args := (calls c).args

def step (s : State) : Act → Option State
  | .seq (.callback _ _) => none
  | .seq a => (SequenceRepo.step (args calls) s.seq a).map fun seq => { s with seq := seq }
  | .transact c outcome =>
    (SequenceRepo.step (args calls) s.seq (.callback c (outcome ≠ .raised))).map fun seq =>
      ⟨seq, Function.update s.outcomes c (some outcome)⟩

/-- No call has begun, but those the assertion refuses are over; the table is any. -/
def initial (clock : ℕ) (table : Table SeqKey Sequence) : State :=
  ⟨⟨clock, table, fun c => if (calls c).kind.allowed then .start maxTries else .raised none⟩,
    fun _ => none⟩

/-- The numbers that the call has used so far. -/
def State.used (s : State) (c : ℕ) : List ℕ :=
  match (s.seq.calls c).seqNo with
  | none => []
  | some nextValue => (calls c).kind.used nextValue

end

/-- The call has returned, and its transaction is written. -/
def State.Succeeded (s : State) (c : ℕ) : Prop :=
  (∃ nextValue, s.seq.calls c = .returned nextValue) ∧ s.outcomes c = some (.returned none)

/-- Once a call with `numRequests` requests has succeeded, its numbers are consecutive, and every
number the tenant's other calls use from then on is greater. -/
def AdvancesPast (clock : ℕ) (table : Table SeqKey Sequence) (tenantId numRequests : ℕ) : Prop :=
  ∀ (calls : ℕ → EventCall) (c : ℕ), (calls c).tenantId = tenantId →
    (calls c).kind = .withEvents numRequests → ∀ (xs ys : List Act) (s t : State),
      Run (step calls) Free (initial calls clock table) xs s → s.Succeeded c →
      Run (step calls) Free s ys t →
        (∃ first, s.used calls c = List.range' first numRequests) ∧
        ∀ d, (calls d).tenantId = tenantId → s.used calls d = [] →
          ∀ later ∈ t.used calls d, ∀ earlier ∈ s.used calls c, earlier < later

variable {calls : ℕ → EventCall} {s t : State} {a : Act} {xs : List Act} {c d clock : ℕ}
  {table : Table SeqKey Sequence} {tenantId numRequests nextValue tries : ℕ}

theorem eventNumbers_eq_range' (numRequests nextValue : ℕ) :
    eventNumbers numRequests nextValue = List.range' (nextValue + 1) numRequests := by
  induction numRequests generalizing nextValue with
  | zero => rfl
  | succ numRequests ih => rw [eventNumbers, ih, List.range'_succ]

theorem used_eq (h : (s.seq.calls c).seqNo = some nextValue) :
    s.used calls c = (calls c).kind.used nextValue := by
  unfold State.used
  rw [h]

theorem used_eq_nil (h : (s.seq.calls c).seqNo = none) : s.used calls c = [] := by
  unfold State.used
  rw [h]

/-- The numbers of one call are consecutive. -/
theorem used_consecutive (hkind : (calls c).kind = .withEvents numRequests)
    (h : s.Succeeded c) : ∃ first, s.used calls c = List.range' first numRequests := by
  obtain ⟨⟨nextValue, hcall⟩, _⟩ := h
  refine ⟨nextValue + 1, ?_⟩
  have hcall : (s.seq.calls c).seqNo = some nextValue := by rw [hcall]; rfl
  rw [used_eq hcall, hkind]
  exact eventNumbers_eq_range' _ _

theorem setCall_raised {s : SequenceRepo.State} {call : Call} (hc : s.calls c = .raised none)
    (hd : s.calls d ≠ .raised none) : (s.setCall d call).calls c = .raised none := by
  have hcd : c ≠ d := by
    rintro rfl
    exact hd hc
  rw [State.setCall_calls, if_neg hcd, hc]

theorem seq_step_raised {args : ℕ → Args} {s t : SequenceRepo.State} {a : SequenceRepo.Act}
    (h : SequenceRepo.step args s a = some t) (hc : s.calls c = .raised none) :
    t.calls c = .raised none := by
  cases a with
  | tick =>
    obtain rfl := Option.some.inj h
    exact hc
  | find d | stamp d | callback d =>
    simp only [SequenceRepo.step] at h
    split at h <;> cases h
    rename_i hd
    exact setCall_raised hc (by simp [hd])
  | check d =>
    simp only [SequenceRepo.step] at h
    split at h
    · rename_i hd
      split at h <;> cases h <;> exact setCall_raised hc (by simp [hd])
    · cases h
  | take d | release d =>
    simp only [SequenceRepo.step] at h
    split at h
    · rename_i hd
      split at h <;> cases h
      · exact setCall_raised (s := { s with table := _ }) hc (by simp [hd])
      · exact setCall_raised hc (by simp [hd])
    · cases h

/-- A call that the assertion has refused stays so. -/
theorem step_raised (h : step calls s a = some t) (hc : s.seq.calls c = .raised none) :
    t.seq.calls c = .raised none := by
  cases a with
  | seq b =>
    cases b with
    | callback => cases h
    | tick | find | stamp | check | take | release =>
      simp only [step] at h
      obtain ⟨seq, hseq, rfl⟩ := Option.map_eq_some_iff.mp h
      exact seq_step_raised hseq hc
  | transact =>
    obtain ⟨seq, hseq, rfl⟩ := Option.map_eq_some_iff.mp h
    exact seq_step_raised hseq hc

/-- The number that the next call on the row is handed. -/
def nextNumber (row : Option Sequence) : ℕ := (row.map Sequence.nextValue).getD 1

theorem takeSlot_free (table : Table SeqKey Sequence) (key : SeqKey) (nextTimeout : ℕ) :
    takeSlot table key (table key) nextTimeout true =
      some (Function.update table key (some ⟨nextNumber (table key) + 1, nextTimeout⟩),
        ⟨nextNumber (table key), nextTimeout⟩) := by
  cases hrow : table key with
  | none =>
    simp only [takeSlot, nextNumber]
    rw [AbstractAwsRepo.create_eq_some.mpr ⟨hrow, rfl⟩]
    rfl
  | some row =>
    simp only [takeSlot, nextNumber]
    rw [AbstractAwsRepo.patchWithCondition_eq_some.mpr ⟨row, hrow, rfl, rfl⟩]
    rfl

/-- The state in which one call has moved and nothing else. -/
def State.setCall (s : State) (c : ℕ) (call : Call) : State :=
  { s with seq := s.seq.setCall c call }

/-- The state in which the tenant's row is `row` as well. -/
def State.setRow (calls : ℕ → EventCall) (s : State) (c : ℕ) (call : Call) (row : Sequence) :
    State :=
  { s with
    seq := { s.seq with
      table := Function.update s.seq.table (args calls c).key (some row) }.setCall c call }

@[simp] theorem setCall_calls (s : State) (c d : ℕ) (call : Call) :
    (s.setCall c call).seq.calls d = if d = c then call else s.seq.calls d :=
  SequenceRepo.State.setCall_calls _ _ _ _

@[simp] theorem setCall_table (s : State) (c : ℕ) (call : Call) :
    (s.setCall c call).seq.table = s.seq.table := rfl

@[simp] theorem setCall_clock (s : State) (c : ℕ) (call : Call) :
    (s.setCall c call).seq.clock = s.seq.clock := rfl

@[simp] theorem setCall_outcomes (s : State) (c : ℕ) (call : Call) :
    (s.setCall c call).outcomes = s.outcomes := rfl

@[simp] theorem setRow_calls (s : State) (c d : ℕ) (call : Call) (row : Sequence) :
    (s.setRow calls c call row).seq.calls d = if d = c then call else s.seq.calls d :=
  SequenceRepo.State.setCall_calls _ _ _ _

@[simp] theorem setRow_table (s : State) (c : ℕ) (call : Call) (row : Sequence) :
    (s.setRow calls c call row).seq.table (args calls c).key = some row := by
  simp [State.setRow, SequenceRepo.State.setCall]

@[simp] theorem setRow_outcomes (s : State) (c : ℕ) (call : Call) (row : Sequence) :
    (s.setRow calls c call row).outcomes = s.outcomes := rfl

section

variable {current : Option Sequence} {nextTimeout : ℕ} {held row : Sequence} {returned : Bool}

theorem step_find (hc : s.seq.calls c = .start tries) : step calls s (.seq (.find c)) =
    some (s.setCall c (.found tries (s.seq.table (args calls c).key))) := by
  simp [step, SequenceRepo.step, hc, State.setCall, AbstractAwsRepo.find]

theorem step_stamp (hc : s.seq.calls c = .found tries current) :
    step calls s (.seq (.stamp c)) = some (s.setCall c (.stamped tries current
      (getEpochSecondsInFuture (args calls c).maxLockSeconds s.seq.clock))) := by
  simp [step, SequenceRepo.step, hc, State.setCall]

theorem step_check (hc : s.seq.calls c = .stamped tries current nextTimeout)
    (hfree : current.any (slotBusy · s.seq.clock) = false) : step calls s (.seq (.check c)) =
      some (s.setCall c (.ready tries current nextTimeout)) := by
  simp [step, SequenceRepo.step, hc, hfree, State.setCall]

theorem step_take
    (hc : s.seq.calls c = .ready tries (s.seq.table (args calls c).key) nextTimeout) :
    step calls s (.seq (.take c)) = some (s.setRow calls c
      (.running ⟨nextNumber (s.seq.table (args calls c).key), nextTimeout⟩)
      ⟨nextNumber (s.seq.table (args calls c).key) + 1, nextTimeout⟩) := by
  simp [step, SequenceRepo.step, hc, takeSlot_free, State.setRow]

theorem step_release (hc : s.seq.calls c = .releasing held true)
    (hrow : s.seq.table (args calls c).key = some row) (htimeout : row.timeoutAt = held.timeoutAt) :
    step calls s (.seq (.release c)) =
      some (s.setRow calls c (.returned held.nextValue) { row with timeoutAt := 0 }) := by
  have hrelease : releaseSlot s.seq.table (args calls c).key held = some _ :=
    AbstractAwsRepo.patchWithCondition_eq_some.mpr ⟨row, hrow, htimeout, rfl⟩
  simp [step, SequenceRepo.step, hc, hrelease, State.setRow]

theorem step_transact (hc : s.seq.calls c = .running held) :
    step calls s (.transact c (.returned none)) =
      some { s.setCall c (.releasing held true) with
        outcomes := Function.update s.outcomes c (some (.returned none)) } := by
  simp [step, SequenceRepo.step, hc, State.setCall]

end

/-- A call that finds the slot free takes the next number and stores the one after it. -/
theorem run_take (hc : s.seq.calls c = .start tries)
    (hfree : (s.seq.table (args calls c).key).any (slotBusy · s.seq.clock) = false) :
    ∃ t held, Run (step calls) Free s
        [.seq (.find c), .seq (.stamp c), .seq (.check c), .seq (.take c)] t ∧
      held.nextValue = nextNumber (s.seq.table (args calls c).key) ∧
      t.seq.table (args calls c).key = some ⟨held.nextValue + 1, held.timeoutAt⟩ ∧
      t.seq.calls c = .running held ∧ ∀ d, d ≠ c → t.seq.calls d = s.seq.calls d := by
  let row := s.seq.table (args calls c).key
  let held : Sequence :=
    ⟨nextNumber row, getEpochSecondsInFuture (args calls c).maxLockSeconds s.seq.clock⟩
  let found := s.setCall c (.found tries row)
  let stamped := found.setCall c (.stamped tries row held.timeoutAt)
  let ready := stamped.setCall c (.ready tries row held.timeoutAt)
  let taken := ready.setRow calls c (.running held) ⟨held.nextValue + 1, held.timeoutAt⟩
  have hfind : step calls s (.seq (.find c)) = some found := step_find hc
  have hstamp : step calls found (.seq (.stamp c)) = some stamped := step_stamp (by simp [found])
  have hcheck : step calls stamped (.seq (.check c)) = some ready :=
    step_check (by simp [stamped]) hfree
  have hready : ready.seq.calls c =
      .ready tries (ready.seq.table (args calls c).key) held.timeoutAt := by
    simp [ready, stamped, found, row]
  have htake : step calls ready (.seq (.take c)) = some taken := step_take hready
  refine ⟨taken, held, .cons trivial hfind (.cons trivial hstamp (.cons trivial hcheck
    (.cons trivial htake .refl))), rfl, setRow_table _ _ _ _, by simp [taken], ?_⟩
  intro d hd
  simp [taken, ready, stamped, found, hd]

/-- Its transaction is written and its release finds the row as it left it. -/
theorem run_succeed {held : Sequence} (hc : s.seq.calls c = .running held)
    (hrow : s.seq.table (args calls c).key = some ⟨held.nextValue + 1, held.timeoutAt⟩) :
    ∃ t, Run (step calls) Free s [.transact c (.returned none), .seq (.release c)] t ∧
      t.seq.calls c = .returned held.nextValue ∧ t.outcomes c = some (.returned none) ∧
      t.seq.table (args calls c).key = some ⟨held.nextValue + 1, 0⟩ ∧
      ∀ d, d ≠ c → t.seq.calls d = s.seq.calls d := by
  let written : State := { s.setCall c (.releasing held true) with
    outcomes := Function.update s.outcomes c (some (.returned none)) }
  let released := written.setRow calls c (.returned held.nextValue) ⟨held.nextValue + 1, 0⟩
  have htransact : step calls s (.transact c (.returned none)) = some written := step_transact hc
  have hrelease : step calls written (.seq (.release c)) = some released :=
    step_release (s := written) (by simp [written]) hrow rfl
  refine ⟨released, .cons trivial htransact (.cons trivial hrelease .refl), by simp [released],
    by simp [released, written], setRow_table _ _ _ _, ?_⟩
  intro d hd
  simp [released, written, hd]

/-- Call 0 sends the requests, and the others are of one event each. -/
def oneOfMany (tenantId numRequests : ℕ) (c : ℕ) : EventCall :=
  ⟨tenantId, 30, if c = 0 then .withEvents numRequests else .withEvent⟩

/-- Once its timeout has passed, a slot is free. -/
theorem slotBusy_late (row : Sequence) (clock : ℕ) :
    slotBusy row (clock + row.timeoutAt * 1000) = false := by
  have hlate : row.timeoutAt ≤ (clock + row.timeoutAt * 1000) / 1000 := by omega
  simp [slotBusy, getSystemTimeInSeconds, Nat.not_lt.mpr hlate]

/-- The call after one that succeeded is handed the first number that it used. -/
theorem number_used_twice (clock : ℕ) (table : Table SeqKey Sequence) (tenantId numRequests : ℕ)
    (h : numRequests < 50) : ∃ (xs ys : List Act) (s t : State) (nextValue : ℕ),
      Run (step (oneOfMany tenantId numRequests)) Free
        (initial (oneOfMany tenantId numRequests) clock table) xs s ∧
      Run (step (oneOfMany tenantId numRequests)) Free s ys t ∧ s.Succeeded 0 ∧
      s.seq.calls 0 = .returned nextValue ∧ (s.seq.calls 1).seqNo = none ∧
      (t.seq.calls 1).seqNo = some (nextValue + 1) := by
  let calls := oneOfMany tenantId numRequests
  let timeout := ((table (tenantId, "EventSeq")).map Sequence.timeoutAt).getD 0
  let late : State := ⟨⟨clock + timeout * 1000, table, (initial calls clock table).seq.calls⟩,
    fun _ => none⟩
  have htick : step calls (initial calls clock table) (.seq (.tick (timeout * 1000))) = some late :=
    rfl
  have hstart : late.seq.calls 0 = .start maxTries := if_pos (decide_eq_true h)
  have hfree : (late.seq.table (args calls 0).key).any (slotBusy · late.seq.clock) = false := by
    cases hrow : table (tenantId, "EventSeq") with
    | none => exact congrArg (Option.any _) hrow
    | some row =>
      have hbusy : slotBusy row late.seq.clock = false := by
        simp only [late, timeout, hrow]
        exact slotBusy_late row clock
      exact (congrArg (Option.any _) hrow).trans hbusy
  obtain ⟨u, held, hu, hnext, hrow, hcall, hothers⟩ := run_take hstart hfree
  obtain ⟨s, hs, hreturned, houtcome, hrow, hothers'⟩ := run_succeed hcall hrow
  have hsecond : s.seq.calls 1 = .start maxTries := by
    rw [hothers' 1 (by decide), hothers 1 (by decide)]
    rfl
  have hrow' : s.seq.table (args calls 1).key = some ⟨held.nextValue + 1, 0⟩ := hrow
  have hfree' : (s.seq.table (args calls 1).key).any (slotBusy · s.seq.clock) = false := by
    rw [hrow']
    rfl
  obtain ⟨t, held', ht, hnext', -, hcall', -⟩ := run_take hsecond hfree'
  refine ⟨_, _, s, t, held.nextValue, .cons trivial htick (hu.append hs), ht,
    ⟨⟨_, hreturned⟩, houtcome⟩, hreturned, by rw [hsecond]; rfl, ?_⟩
  rw [hcall', Call.seqNo, hnext', hrow']
  rfl

/-- The first number that a call uses is handed out again. -/
theorem not_advancesPast (clock : ℕ) (table : Table SeqKey Sequence) (tenantId : ℕ)
    {numRequests : ℕ} (hpos : 1 ≤ numRequests) (hlt : numRequests < 50) :
    ¬ AdvancesPast clock table tenantId numRequests := by
  intro hadvances
  obtain ⟨xs, ys, s, t, nextValue, hs, ht, hsucceeded, hcall, hnone, hsome⟩ :=
    number_used_twice clock table tenantId numRequests hlt
  have hused : nextValue + 1 ∈ s.used (oneOfMany tenantId numRequests) 0 := by
    have hcall : (s.seq.calls 0).seqNo = some nextValue := by rw [hcall]; rfl
    obtain ⟨n, rfl⟩ := Nat.exists_eq_add_of_le' hpos
    rw [used_eq hcall]
    exact List.mem_cons_self
  have hagain : nextValue + 1 ∈ t.used (oneOfMany tenantId numRequests) 1 := by
    rw [used_eq hsome]
    exact List.mem_cons_self
  have hlater := (hadvances _ 0 rfl rfl xs ys s t hs hsucceeded ht).2
  exact Nat.lt_irrefl _ (hlater 1 rfl (used_eq_nil hnone) _ hagain _ hused)

/-- From 50 requests on the call is refused before it takes a number, and below that it does not
advance past what it used, whatever the row was before. -/
theorem advances_past_iff (clock : ℕ) (table : Table SeqKey Sequence)
    (tenantId numRequests : ℕ) (hpos : 1 ≤ numRequests) :
    AdvancesPast clock table tenantId numRequests ↔ 50 ≤ numRequests := by
  constructor
  · intro hadvances
    exact Nat.le_of_not_lt fun hlt => not_advancesPast clock table tenantId hpos hlt hadvances
  · intro hge calls c _ hkind xs ys s t hs hsucceeded _
    have hraised : s.seq.calls c = .raised none := by
      refine hs.invariant (I := fun s => s.seq.calls c = .raised none)
        (fun _ _ _ _ => step_raised) (if_neg ?_)
      rw [hkind]
      exact fun hallowed => absurd (of_decide_eq_true hallowed) (by omega)
    obtain ⟨⟨nextValue, hreturned⟩, _⟩ := hsucceeded
    rw [hraised] at hreturned
    cases hreturned

theorem advances_past_two_requests :
    AdvancesPast 0 (fun _ => none) 1 2 ↔ 50 ≤ 2 :=
  advances_past_iff 0 (fun _ => none) 1 2 (by decide)

/-- Two requests of a new tenant use the numbers 2 and 3, and the next call is handed 2. -/
theorem used_number_handed_out_again : ¬ ∀ (clock : ℕ) (table : Table SeqKey Sequence)
    (tenantId numRequests : ℕ), 1 ≤ numRequests →
      AdvancesPast clock table tenantId numRequests := by
  intro hall
  exact not_advancesPast 0 (fun _ => none) 1 (by decide) (by decide)
    (hall 0 (fun _ => none) 1 2 (by decide))

end ShimService.ExecuteWithEvents
