import ShimService.Threading.SignalSteps

/-! With one waiting thread and no reset, a `SignalEvent` is the one that the throttler has. -/
namespace ShimService.Signalling

open Throttling (SignalEvent)
open Transition

variable {τ : Type*} {s t : State τ} {thread : τ}

inductive EventAct where
  | notify (keepSignalled : Bool)
  | wait (timedOut : Bool)

/-- The throttler's operations on its event, with what they return. -/
def eventStep (p : SignalEvent × List Bool) : EventAct → Option (SignalEvent × List Bool)
  | .notify keepSignalled => some (p.1.notify keepSignalled, p.2)
  | .wait timedOut => (p.1.wait timedOut).map fun event => (event, (!timedOut) :: p.2)

/-- Nobody resets the event, and one thread waits on it. -/
def OnlyWaiter (thread : τ) (_ : State τ) : Act τ → Prop
  | .wait thread' _ => thread' = thread
  | .reset => False
  | _ => True

structure Sole (thread : τ) (s : State τ) : Prop where
  nodup : s.threads.Nodup
  only : ∀ x ∈ s.threads, x = thread
  signalled : 0 < s.coming → s.event.signalled = true

theorem coming_le : s.coming ≤ s.threads.length := by
  have hle : s.coming ≤ s.released.length := List.countP_le_length
  simp only [State.threads, List.length_map, List.length_append]
  omega

theorem notify_returned (keepSignalled : Bool) :
    (notify keepSignalled s).returned = s.returned := by
  unfold notify
  split <;> rfl

theorem wait_woken (h : s.event.signalled = true) :
    s.event.wait false = some (s.finish true).event := by
  simp [SignalEvent.wait, h, State.finish, SignalEvent.autoReset, SignalEvent.reset]

/-- While the only thread is outside, nobody is coming. -/
theorem coming_eq_zero (honly : ∀ x ∈ s.threads, x = thread) (hout : thread ∉ s.threads) :
    s.coming = 0 := by
  have hnone : s.threads = [] :=
    List.eq_nil_iff_forall_not_mem.mpr fun x hx => hout (honly x hx ▸ hx)
  have hle := coming_le (s := s)
  rw [hnone] at hle
  exact Nat.le_zero.mp hle

variable [DecidableEq τ] {a : Act τ} {xs : List (Act τ)}

theorem sole_step (ha : OnlyWaiter thread s a) (h : step s a = some t) (hs : Sole thread s) :
    Sole thread t := by
  have hnodup := nodup_step h hs.nodup
  have honly : ∀ x ∈ t.threads, x = thread := by
    rcases step_threads h with hfewer | ⟨thread', millis, rfl, _, hthreads⟩
    · exact fun x hx => hs.only x (hfewer.subset hx)
    · obtain rfl : thread' = thread := ha
      intro x hx
      exact (List.mem_cons.mp (hthreads.mem_iff.mp hx)).elim id (hs.only x)
  refine ⟨hnodup, honly, ?_⟩
  cases step_effect h with
  | notify keepSignalled =>
    intro _
    rw [notify_event]
    rfl
  | reset => exact ha.elim
  | takes thread' millis hout =>
    obtain rfl : thread' = thread := ha
    rw [finish_coming, coming_eq_zero hs.only hout]
    exact fun hpos => absurd hpos (Nat.lt_irrefl 0)
  | waits | timesOut => exact hs.signalled
  | notified w hw hin =>
    have hthreads := erase_threads hw
    obtain rfl : w.thread = thread := hs.only _ (hthreads.mem_iff.mpr List.mem_cons_self)
    have hout := (List.nodup_cons.mp (hthreads.nodup_iff.mp hs.nodup)).1
    rw [finish_threads] at honly
    rw [finish_coming, coming_eq_zero honly hout]
    exact fun hpos => absurd hpos (Nat.lt_irrefl 0)
  | gaveUp _ _ _ _ hcoming =>
    rw [finish_coming, hcoming]
    exact hs.signalled

/-- What the step does to the event and returns is one of the throttler's operations, or nothing. -/
theorem sole_event (ha : OnlyWaiter thread s a) (h : step s a = some t) (hs : Sole thread s) :
    (t.event, t.returned) = (s.event, s.returned) ∨
      ∃ b, eventStep (s.event, s.returned) b = some (t.event, t.returned) := by
  cases step_effect h with
  | notify keepSignalled =>
    refine .inr ⟨.notify keepSignalled, ?_⟩
    rw [notify_event, notify_returned]
    rfl
  | reset => exact ha.elim
  | takes _ _ _ hsignal =>
    refine .inr ⟨.wait false, ?_⟩
    rw [eventStep, wait_woken hsignal]
    rfl
  | waits | timesOut => exact .inl rfl
  | notified w hw hin =>
    have hpos : 0 < s.coming := by
      have hcoming := coming_erase hw hin
      omega
    refine .inr ⟨.wait false, ?_⟩
    rw [eventStep, wait_woken (hs.signalled hpos)]
    rfl
  | gaveUp => exact .inr ⟨.wait true, rfl⟩

/-- What the threads see of the event is a run of the throttler's. -/
theorem sole_refines (h : Run step (OnlyWaiter thread) initial xs t) :
    ∃ ys, Run eventStep Free (⟨false, false⟩, []) ys (t.event, t.returned) := by
  have hstart : Sole thread (initial : State τ) := ⟨List.nodup_nil, nofun, nofun⟩
  have hguarded : Run step (fun s a => OnlyWaiter thread s a ∧ Sole thread s) initial xs t :=
    h.strengthen (fun _ _ _ => sole_step) (fun _ _ hs ha => ⟨ha, hs⟩) hstart
  refine hguarded.project (f := fun s => (s.event, s.returned)) fun s a t hok hstep => ?_
  exact (sole_event hok.1 hstep hok.2).imp_right fun ⟨b, hb⟩ => ⟨b, trivial, hb⟩

end ShimService.Signalling
