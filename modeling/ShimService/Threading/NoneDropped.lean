import Mathlib.Data.List.GetD
import Mathlib.Tactic.IntervalCases
import Mathlib.Tactic.Tauto
import ShimService.Library.Execution
import ShimService.Threading.ThrottlerSteps

/-! Each accepted invocation is followed by a call of the caller, unless the throttler is closed
between the worker's section and its shutdown check. -/
namespace ShimService.Throttling

open Transition

variable {th : Throttler} {s t : State} {a : Act} {xs pre post : List Act} {now : ℤ}
  {E : Execution th.step} {w : Worker} {m n : ℕ}

/-- Only the shutdown check is before such a worker, once the call it is in has returned. -/
def Worker.PastSection : Worker → Prop
  | .inCall | .checking => True
  | _ => False

/-- No first `close` while the worker is past its section and owes a call. -/
def CloseInTime (s : State) : Act → Prop
  | .close => s.shutdown = false → s.unserved = true → ¬ s.worker.PastSection
  | _ => True

/-- Every `add_invocation` that returned is followed by a call. -/
def EachServed (xs : List Act) : Prop :=
  ∀ pre post, xs = pre ++ .add :: post → .call ∈ post

/-- The worker's thread and the caller are not left waiting for ever, and the time goes on. -/
structure Admissible (E : Execution th.step) : Prop where
  start : ∃ now, E.state 0 = initial now
  fair : ∀ n, (E.state n).worker ≠ .absent → (E.state n).worker ≠ .ended →
    ∃ m, n ≤ m ∧ (E.act m).OfWorker
  timePasses : ∀ bound, ∃ n, ∀ m, n ≤ m → bound ≤ (E.state m).clock

/-- Every `add_invocation` that returns is followed by a call before the worker ends. -/
def Served (E : Execution th.step) : Prop :=
  ∀ n, E.act n = .add → ∃ m, n < m ∧ E.act m = .call ∧ ∀ k ≤ m, (E.state k).worker ≠ .ended

/-- An accepted invocation is either waiting or about to be served. -/
structure Inv (s : State) : Prop where
  unserved : s.unserved = true → s.anyWaiting = true ∨ s.worker = .calling
  absent : s.worker = .absent → s.unserved = false
  ended : s.worker = .ended → s.shutdown = true

theorem inv_initial : Inv (initial now) := ⟨nofun, fun _ => rfl, nofun⟩

theorem waits (hi : Inv s) (hw : s.worker ≠ .calling) (hu : s.unserved = true) :
    s.anyWaiting = true :=
  (hi.unserved hu).resolve_right hw

theorem inv_step (h : th.step s a = some t) (hi : Inv s) : Inv t := by
  cases step_effect h with
  | clock now => exact { hi with }
  | add event hopen =>
    refine ⟨fun _ => .inl rfl, fun hw => absurd hw started_ne_absent, fun hw => ?_⟩
    exact hi.ended (started_eq_ended hw)
  | addRaises => exact hi
  | closeAgain hclosed => exact hi
  | close event hopen => exact ⟨hi.unserved, hi.absent, fun _ => rfl⟩
  | invoke hw => exact ⟨fun _ => .inr rfl, nofun, nofun⟩
  | call hw => exact ⟨nofun, nofun, nofun⟩
  | ends hw hclosed =>
    have hwaits := waits hi (by simp [hw])
    exact ⟨fun hu => .inl (hwaits hu), nofun, fun _ => hclosed⟩
  | wait _ _ hw | nothing hw | opens hw | early _ hw | returns hw | goesOn hw =>
    have hwaits := waits hi (by simp [hw])
    exact ⟨fun hu => .inl (hwaits hu), nofun, nofun⟩

/-- Closed too late for an invocation that was accepted. -/
structure Doomed (s : State) : Prop where
  shutdown : s.shutdown = true
  unserved : s.unserved = true
  past : s.worker.PastSection ∨ s.worker = .ended

theorem Doomed.worker (hd : Doomed s) :
    s.worker = .inCall ∨ s.worker = .checking ∨ s.worker = .ended := by
  rcases hd.past with hpast | hended
  · cases hw : s.worker <;> simp_all [Worker.PastSection]
  · exact .inr (.inr hended)

theorem doomed_step (h : th.step s a = some t) (hd : Doomed s) : Doomed t := by
  have hclosed := hd.shutdown
  have hworker := hd.worker
  cases step_effect h with
  | clock now => exact { hd with }
  | add event hopen => simp [hclosed] at hopen
  | addRaises => exact hd
  | closeAgain _ => exact hd
  | close event hopen => simp [hclosed] at hopen
  | returns hw => exact ⟨hclosed, hd.unserved, .inl trivial⟩
  | ends hw _ => exact ⟨hclosed, hd.unserved, .inr rfl⟩
  | goesOn hw hopen => simp [hclosed] at hopen
  | wait _ _ hw | invoke hw | nothing hw | opens hw | early _ hw | call hw => simp [hw] at hworker

/-- A close in time leaves the worker a section that invokes. -/
theorem not_doomed_step (hok : CloseInTime s a) (h : th.step s a = some t) (hi : Inv s)
    (hd : ¬ Doomed s) : ¬ Doomed t := by
  intro hdt
  have hclosed := hdt.shutdown
  have hworker := hdt.worker
  cases step_effect h with
  | clock now => exact hd { hdt with }
  | add event hopen => simp [hopen] at hclosed
  | addRaises => exact hd hdt
  | closeAgain _ => exact hd hdt
  | close event hopen =>
    rcases hdt.past with hpast | hended
    · exact hok hopen hdt.unserved hpast
    · simp [hi.ended hended] at hopen
  | wait _ _ hw => simp at hworker
  | invoke hw => simp [State.invoke] at hworker
  | nothing hw hnone =>
    have hwaits := waits hi (by simp [hw]) hdt.unserved
    simp [hnone] at hwaits
  | opens hw hopen | early _ hw hopen | goesOn hw hopen => simp [hopen] at hclosed
  | call hw => simpa using hdt.unserved
  | returns hw => exact hd ⟨hclosed, hdt.unserved, .inl (by simp [hw, Worker.PastSection])⟩
  | ends hw _ => exact hd ⟨hclosed, hdt.unserved, .inl (by simp [hw, Worker.PastSection])⟩

/-- A close that is not in time is too late. -/
theorem doomed_of_late (h : th.step s a = some t) (hlate : ¬ CloseInTime s a) : Doomed t := by
  cases step_effect h with
  | close event hopen =>
    have hpast : s.unserved = true ∧ s.worker.PastSection := by
      simpa [CloseInTime, hopen] using hlate
    exact ⟨rfl, hpast.1, .inl hpast.2⟩
  | closeAgain hclosed => simp [CloseInTime, hclosed] at hlate
  | _ => exact absurd trivial hlate

theorem not_doomed_iff_guarded (h : Run th.step Free (initial now) xs t) :
    ¬ Doomed t ↔ Run th.step CloseInTime (initial now) xs t :=
  h.good_iff_guarded (I := Inv) (G := fun s => ¬ Doomed s) (fun _ _ _ => inv_step)
    (fun _ _ _ hstep _ hd => not_not.mpr (doomed_step hstep (not_not.mp hd)))
    (fun _ _ _ hok hstep => not_doomed_step hok hstep)
    (fun _ _ _ hstep _ hlate => not_not.mpr (doomed_of_late hstep hlate)) inv_initial
    (fun hd => nomatch hd.shutdown)

theorem eachServed_cons : EachServed (a :: xs) ↔ (a = .add → .call ∈ xs) ∧ EachServed xs := by
  constructor
  · intro h
    refine ⟨fun ha => h [] xs (by simp [ha]), fun pre post hxs => ?_⟩
    exact h (a :: pre) post (by simp [hxs])
  · rintro ⟨hhead, htail⟩ pre post hxs
    cases pre with
    | nil =>
      obtain ⟨rfl, rfl⟩ := List.cons.inj hxs
      exact hhead rfl
    | cons b pre =>
      obtain ⟨_, hrest⟩ := List.cons.inj hxs
      exact htail pre post hrest

theorem unserved_iff (h : Run th.step Free s xs t) :
    t.unserved = true ↔ (s.unserved = true ∧ .call ∉ xs) ∨ ¬ EachServed xs := by
  induction h with
  | refl => simp [EachServed]
  | @cons s u t a xs _ hstep _ ih =>
    rw [ih, step_unserved hstep, eachServed_cons, List.mem_cons, eq_comm (a := Act.call)]
    tauto

/-- When the worker has ended nothing is left unserved, unless the close came too late. -/
theorem eachServed_iff_guarded (h : Run th.step Free (initial now) xs t)
    (hended : t.worker = .ended) :
    EachServed xs ↔ Run th.step CloseInTime (initial now) xs t := by
  have hi : Inv t := h.invariant (fun _ _ _ _ => inv_step) inv_initial
  have hserved : t.unserved = true ↔ ¬ EachServed xs := by
    rw [unserved_iff h]
    simp [initial]
  rw [← not_doomed_iff_guarded h, ← not_iff_not, not_not, ← hserved]
  exact ⟨fun hu => ⟨hi.ended hended, hu, .inr hended⟩, fun hd => hd.unserved⟩

theorem next_worker_step (hE : Admissible E) (hw : (E.state m).worker = w) (habsent : w ≠ .absent)
    (hended : w ≠ .ended) : ∃ n, m ≤ n ∧ (E.act n).OfWorker ∧ (E.state n).worker = w := by
  have hfair := hE.fair m (hw ▸ habsent) (hw ▸ hended)
  exact Execution.first_helpful (E := E) (P := fun s => s.worker = w)
    (fun _ _ _ hstep ha hs => step_worker hstep ha habsent hs) hw hfair

/-- A worker that neither ends nor calls comes to its section again and again. -/
theorem next_decide (hE : Admissible E)
    (hturns : ∀ k, n ≤ k → (E.state k).worker ≠ .absent ∧ (E.state k).worker ≠ .ended ∧
      (E.state k).worker ≠ .calling)
    (hnm : n ≤ m) : ∃ k, m ≤ k ∧ E.act k = .decide := by
  induction hr : (E.state m).worker.rank using Nat.strong_induction_on generalizing m with
  | _ r ih =>
    obtain ⟨habsent, hended, _⟩ := hturns m hnm
    obtain ⟨k, hmk, hk, hw⟩ := next_worker_step hE rfl habsent hended
    have hnk : n ≤ k + 1 := by omega
    rcases step_rank (E.steps k) hk with hdecide | ⟨hcalling, _⟩ | hends | hless
    · exact ⟨k, hmk, hdecide⟩
    · exact absurd hcalling (hturns k (by omega)).2.2
    · exact absurd hends (hturns (k + 1) hnk).2.1
    · obtain ⟨j, hkj, hj⟩ := ih _ (by rw [← hr, ← hw]; exact hless) hnk rfl
      exact ⟨j, by omega, hj⟩

/-- It calls once its window has passed. -/
theorem not_always_waiting (hE : Admissible E)
    (hturns : ∀ k, n ≤ k → (E.state k).worker ≠ .absent ∧ (E.state k).worker ≠ .ended ∧
      (E.state k).worker ≠ .calling) :
    ¬ ∀ k, n ≤ k → (E.state k).anyWaiting = true := by
  intro hwaits
  have hnot : ∀ k, n ≤ k → (E.state (k + 1)).worker ≠ .calling := fun k hk =>
    (hturns (k + 1) (by omega)).2.2
  have hsection : ∀ k, n ≤ k → E.act k = .decide → ∃ start,
      (E.state (k + 1)).startTime = some start ∧
        ((E.state k).startTime = some start → (E.state k).clock - start < th.throttleMillis) := by
    intro k hk hdecide
    have hstep := E.steps k
    rw [hdecide] at hstep
    exact step_decide hstep (hwaits k hk) (hnot k hk)
  obtain ⟨k, hnk, hk⟩ := next_decide hE hturns le_rfl
  obtain ⟨start, hstart, _⟩ := hsection k hnk hk
  have hstarted : ∀ j, k + 1 ≤ j → (E.state j).startTime = some start := fun j hkj =>
    Execution.stays hkj hstart fun i hki _ =>
      step_startTime (E.steps i) (hnot i (by omega))
  obtain ⟨late, hlate⟩ := hE.timePasses (start + th.throttleMillis)
  obtain ⟨j, hj, hdecide⟩ := next_decide (m := max late (k + 1)) hE hturns (by omega)
  obtain ⟨start', hstart', hearly⟩ := hsection j (by omega) hdecide
  have hsame : start = start' := by
    have hnext := hstarted (j + 1) (by omega)
    rw [hstart'] at hnext
    exact (Option.some.inj hnext).symm
  subst hsame
  have hpassed := hlate j (by omega)
  have hwindow := hearly (hstarted j (by omega))
  omega

/-- Without a call an accepted invocation stays unserved. -/
theorem unserved_of_no_call (hadd : E.act n = .add) (hno : ∀ k, n < k → E.act k ≠ .call)
    (hnm : n < m) : (E.state m).unserved = true := by
  refine Execution.stays (P := fun k => (E.state k).unserved = true) (Nat.succ_le_of_lt hnm) ?_ ?_
  · exact (step_unserved (E.steps n)).mpr (.inl hadd)
  · intro k hnk _ hu
    exact (step_unserved (E.steps k)).mpr (.inr ⟨hu, hno k hnk⟩)

/-- What is unserved has been accepted, and there has been no call since. -/
theorem last_add (h0 : (E.state 0).unserved = false) (hu : (E.state n).unserved = true) :
    ∃ m, m < n ∧ E.act m = .add ∧ ∀ k, m < k → k < n → E.act k ≠ .call := by
  induction n with
  | zero => simp [h0] at hu
  | succ n ih =>
    rcases (step_unserved (E.steps n)).mp hu with hadd | ⟨hbefore, hn⟩
    · exact ⟨n, Nat.lt_succ_self n, hadd, fun k hnk hkn => by omega⟩
    · obtain ⟨m, hmn, hadd, hno⟩ := ih hbefore
      refine ⟨m, by omega, hadd, fun k hmk hkn => ?_⟩
      rcases Nat.lt_succ_iff_lt_or_eq.mp hkn with hlt | rfl
      · exact hno k hmk hlt
      · exact hn

theorem inv_state (hE : Admissible E) (n : ℕ) : Inv (E.state n) := by
  obtain ⟨now, h0⟩ := hE.start
  exact Execution.invariant (fun _ _ _ => inv_step) (Nat.zero_le n) (h0 ▸ inv_initial)

theorem not_doomed_state (hE : Admissible E) (hok : ∀ n, CloseInTime (E.state n) (E.act n))
    (n : ℕ) : ¬ Doomed (E.state n) := by
  obtain ⟨now, h0⟩ := hE.start
  have h0 : ¬ Doomed (E.state 0) := by
    rw [h0]
    exact fun hd => nomatch hd.shutdown
  exact Execution.stays (P := fun k => ¬ Doomed (E.state k)) (Nat.zero_le n) h0 fun k _ _ hd =>
    not_doomed_step (hok k) (E.steps k) (inv_state hE k) hd

theorem call_follows (hE : Admissible E) (hok : ∀ n, CloseInTime (E.state n) (E.act n))
    (hadd : E.act n = .add) : ∃ m, n < m ∧ E.act m = .call := by
  by_contra hnone
  have hno : ∀ k, n < k → E.act k ≠ .call := fun k hk hcall => hnone ⟨k, hk, hcall⟩
  have hunserved : ∀ k, n < k → (E.state k).unserved = true := fun k =>
    unserved_of_no_call hadd hno
  have hturns : ∀ k, n + 1 ≤ k → (E.state k).worker ≠ .absent ∧ (E.state k).worker ≠ .ended ∧
      (E.state k).worker ≠ .calling := by
    intro k hk
    have hi := inv_state hE k
    have hu := hunserved k hk
    refine ⟨fun hw => ?_, fun hw => ?_, fun hw => ?_⟩
    · simp [hi.absent hw] at hu
    · exact not_doomed_state hE hok k ⟨hi.ended hw, hu, .inr hw⟩
    · obtain ⟨j, hkj, hj, hcalling⟩ := next_worker_step hE hw nofun nofun
      exact hno j (by omega) (step_calling (E.steps j) hj hcalling)
  apply not_always_waiting hE hturns
  intro k hk
  exact waits (inv_state hE k) (hturns k hk).2.2 (hunserved k hk)

theorem served_of_guarded (hE : Admissible E) (hok : ∀ n, CloseInTime (E.state n) (E.act n)) :
    Served E := by
  intro n hadd
  obtain ⟨m, hnm, hcall⟩ := call_follows hE hok hadd
  refine ⟨m, hnm, hcall, fun k hkm hended => ?_⟩
  have hm : (E.state m).worker = .ended :=
    Execution.invariant (E := E) (I := fun s => s.worker = .ended)
      (fun _ _ _ => step_ended) hkm hended
  have hstep := E.steps m
  rw [hcall] at hstep
  simp [step_call hstep] at hm

/-- After a close that came too late there is no call. -/
theorem guarded_of_served (hE : Admissible E) (hserved : Served E) (n : ℕ) :
    CloseInTime (E.state n) (E.act n) := by
  by_contra hlate
  have hdoomed : ∀ k, n + 1 ≤ k → Doomed (E.state k) := fun k hk =>
    Execution.invariant (fun _ _ _ => doomed_step) hk (doomed_of_late (E.steps n) hlate)
  have h0 : (E.state 0).unserved = false := by
    obtain ⟨now, h0⟩ := hE.start
    rw [h0]
    rfl
  obtain ⟨m, hmn, hadd, hno⟩ := last_add h0 (hdoomed (n + 1) le_rfl).unserved
  obtain ⟨k, hmk, hcall, _⟩ := hserved m hadd
  rcases Nat.lt_or_ge k (n + 1) with hlt | hge
  · exact hno k hmk hlt hcall
  · have hstep := E.steps k
    rw [hcall] at hstep
    have hworker := (hdoomed k hge).worker
    simp [step_call hstep] at hworker

/-- No accepted invocation is dropped exactly if the throttler is not closed while the worker is
past its section and owes a call: up to the end of the worker in any run, and in a run without end
whose worker is not left waiting for ever. -/
theorem none_dropped_iff (th : Throttler) :
    (∀ now xs t, Run th.step Free (initial now) xs t → t.worker = .ended →
      (EachServed xs ↔ Run th.step CloseInTime (initial now) xs t)) ∧
    ∀ E : Execution th.step, Admissible E →
      (Served E ↔ ∀ n, CloseInTime (E.state n) (E.act n)) :=
  ⟨fun _ _ _ h hended => eachServed_iff_guarded h hended, fun _ hE =>
    ⟨guarded_of_served hE, served_of_guarded hE⟩⟩

def everyTenSeconds : Throttler := ⟨10000, by decide⟩

/-- The worker has opened its window and has not come to its check when the throttler is closed. -/
theorem close_before_check_drops : ∃ t, Run everyTenSeconds.step Free (initial 0)
      [.add, .wait false, .decide, .close, .check] t ∧ t.worker = .ended ∧
    ¬ EachServed [.add, .wait false, .decide, .close, .check] := by
  obtain ⟨t, ht, hp⟩ := exists_run_of_exec free_of_check everyTenSeconds.step (initial 0)
    [.add, .wait false, .decide, .close, .check] (fun t => t.worker = .ended) (by decide)
  refine ⟨t, ht, of_decide_eq_true hp, fun h => ?_⟩
  have hcall := h [] [.wait false, .decide, .close, .check] rfl
  simp at hcall

/-- Closed before the section, the worker calls and ends, and only the time goes on. -/
def closedInTimeAct (n : ℕ) : Act :=
  [.add, .wait false, .close, .decide, .call, .returns, .check].getD n (.clock n)

def closedInTimeState : ℕ → State
  | 0 => initial 0
  | n + 1 => (everyTenSeconds.step (closedInTimeState n) (closedInTimeAct n)).getD
      (closedInTimeState n)

theorem closedInTimeAct_late (h : 7 ≤ n) : closedInTimeAct n = .clock n :=
  List.getD_eq_default _ _ h

theorem closedInTime_late (h : 7 ≤ n) :
    closedInTimeState (n + 1) = { closedInTimeState n with clock := n } := by
  simp [closedInTimeState, closedInTimeAct_late h, Throttler.step]

def closedInTime : Execution everyTenSeconds.step where
  state := closedInTimeState
  act := closedInTimeAct
  steps n := by
    rcases Nat.lt_or_ge n 7 with hlt | hge
    · interval_cases n <;> rfl
    · rw [closedInTime_late hge, closedInTimeAct_late hge]
      rfl

theorem closedInTime_ended (h : 7 ≤ n) : (closedInTimeState n).worker = .ended :=
  Execution.invariant (E := closedInTime) (I := fun s => s.worker = .ended)
    (fun _ _ _ => step_ended) h rfl

theorem closedInTime_admissible : Admissible closedInTime where
  start := ⟨0, rfl⟩
  fair n _ hended := by
    refine ⟨6, ?_, trivial⟩
    by_contra hlate
    exact hended (closedInTime_ended (by omega))
  timePasses bound := by
    refine ⟨bound.toNat + 8, fun m hm => ?_⟩
    obtain ⟨k, rfl⟩ : ∃ k, m = k + 1 := ⟨m - 1, by omega⟩
    change bound ≤ (closedInTimeState (k + 1)).clock
    rw [closedInTime_late (by omega)]
    change bound ≤ (k : ℤ)
    omega

theorem closedInTime_guarded (n : ℕ) :
    CloseInTime (closedInTimeState n) (closedInTimeAct n) := by
  rcases Nat.lt_or_ge n 7 with hlt | hge
  · interval_cases n
    case «2» => exact fun _ _ hpast => hpast
    all_goals trivial
  · rw [closedInTimeAct_late hge]
    trivial

theorem closed_in_time_drops_none : Admissible closedInTime ∧ Served closedInTime ∧
    EachServed ((List.range 7).map closedInTimeAct) := by
  have hdropped := none_dropped_iff everyTenSeconds
  have hguarded : Run everyTenSeconds.step CloseInTime (initial 0)
      ((List.range 7).map closedInTimeAct) (closedInTimeState 7) :=
    closedInTime.run fun k _ => closedInTime_guarded k
  refine ⟨closedInTime_admissible, ?_, ?_⟩
  · exact (hdropped.2 closedInTime closedInTime_admissible).mpr closedInTime_guarded
  · exact (hdropped.1 0 _ _ hguarded.free rfl).mpr hguarded

end ShimService.Throttling
