import Mathlib.Data.List.Count
import ShimService.Threading.SignalEvent

/-! What one step of a `SignalEvent` does. -/
namespace ShimService.Signalling

open Throttling (SignalEvent)
open Transition

variable {τ : Type*} {s t : State τ} {w : Waiter τ} {event : SignalEvent}

/-- The notified threads that have not got the condition again. -/
def State.coming (s : State τ) : ℕ := s.released.countP fun w => !w.timedOut

@[simp] theorem notify_manualReset (keepSignalled : Bool) :
    (event.notify keepSignalled).manualReset = (event.manualReset || keepSignalled) := rfl

@[simp] theorem reset_manualReset : event.reset.manualReset = event.manualReset := rfl

@[simp] theorem autoReset_manualReset : event.autoReset.manualReset = event.manualReset := by
  unfold SignalEvent.autoReset
  split <;> rfl

theorem autoReset_signalled (h : event.manualReset = false) :
    event.autoReset.signalled = false := by
  simp [SignalEvent.autoReset, h, SignalEvent.reset]

theorem notify_event (keepSignalled : Bool) :
    (notify keepSignalled s).event = s.event.notify keepSignalled := by
  unfold notify
  split <;> rfl

theorem notify_auto {keepSignalled : Bool}
    (hauto : (notify keepSignalled s).event.manualReset = false) :
    notify keepSignalled s = (s.signal keepSignalled).wake 1 := by
  rw [notify_event] at hauto
  exact if_neg (Bool.eq_false_iff.mp hauto)

theorem wake_threads (n : ℕ) : (s.wake n).threads.Perm s.threads := by
  refine List.Perm.map _ ?_
  have hswap : (s.waiters.drop n ++ (s.released ++ s.waiters.take n)).Perm
      ((s.waiters.take n ++ s.waiters.drop n) ++ s.released) := by
    rw [← List.append_assoc, List.append_assoc (s.waiters.take n)]
    exact List.perm_append_comm
  rwa [List.take_append_drop] at hswap

theorem notify_threads (keepSignalled : Bool) :
    (notify keepSignalled s).threads.Perm s.threads := by
  unfold notify
  split <;> exact wake_threads _

@[simp] theorem finish_coming (woken : Bool) : (s.finish woken).coming = s.coming := by
  cases woken <;> rfl

@[simp] theorem finish_threads (woken : Bool) : (s.finish woken).threads = s.threads := by
  cases woken <;> rfl

@[simp] theorem finish_notifyCalls (woken : Bool) :
    (s.finish woken).notifyCalls = s.notifyCalls := by
  cases woken <;> rfl

@[simp] theorem finish_count (woken : Bool) :
    (s.finish woken).returned.count true = s.returned.count true + woken.toNat := by
  cases woken <;> simp [State.finish]

@[simp] theorem finish_manualReset (woken : Bool) :
    (s.finish woken).event.manualReset = s.event.manualReset := by
  cases woken with
  | false => rfl
  | true => exact autoReset_manualReset

@[simp] theorem finish_unheard :
    (s.finish true).unheard = (s.event.manualReset && s.unheard) := rfl

theorem finish_signalled (hauto : s.event.manualReset = false) :
    (s.finish true).event.signalled = false := autoReset_signalled hauto

variable [DecidableEq τ] {a : Act τ} {xs : List (Act τ)}

theorem coming_erase (hw : w ∈ s.released) (hin : w.timedOut = false) :
    { s with released := s.released.erase w }.coming + 1 = s.coming := by
  have hcount := (List.perm_cons_erase hw).countP_eq fun w => !w.timedOut
  rw [List.countP_cons_of_pos (by simp [hin])] at hcount
  exact hcount.symm

/-- What a step does. A thread whose timeout has run out was not coming. -/
inductive Effect (s : State τ) : Act τ → State τ → Prop where
  | notify (keepSignalled : Bool) : Effect s (.notify keepSignalled) (notify keepSignalled s)
  | reset : Effect s .reset (reset s)
  | takes (thread : τ) (millis : Option ℤ) (hout : thread ∉ s.threads)
      (hsignal : s.event.signalled = true) : Effect s (.wait thread millis) (s.finish true)
  | waits (thread : τ) (millis : Option ℤ) (hout : thread ∉ s.threads)
      (hsignal : s.event.signalled = false) : Effect s (.wait thread millis)
        { s with waiters := s.waiters ++ [⟨thread, millis, false⟩] }
  | timesOut (thread : τ) (waiters : List (Waiter τ))
      (hthreads : waiters.map Waiter.thread = s.waiters.map Waiter.thread) :
      Effect s (.timeOut thread) { s with waiters := waiters }
  | notified (w : Waiter τ) (hw : w ∈ s.released) (hin : w.timedOut = false) :
      Effect s (.resume w.thread) ({ s with released := s.released.erase w }.finish true)
  | gaveUp (thread : τ) (waiters released : List (Waiter τ))
      (hthreads : (waiters ++ released).Sublist (s.waiters ++ s.released))
      (hcoming : { s with waiters := waiters, released := released }.coming = s.coming) :
      Effect s (.resume thread)
        ({ s with waiters := waiters, released := released }.finish false)

theorem wait_effect {thread : τ} {millis : Option ℤ} (h : wait thread millis s = some t) :
    Effect s (.wait thread millis) t := by
  obtain ⟨hout, h⟩ := Option.ite_none_left_eq_some.mp h
  split at h
  · rename_i hsignal
    obtain rfl := Option.some.inj h
    exact .takes thread millis hout hsignal
  · rename_i hsignal
    obtain rfl := Option.some.inj h
    exact .waits thread millis hout (by simpa using hsignal)

theorem timeOut_effect {thread : τ} (h : timeOut thread s = some t) :
    Effect s (.timeOut thread) t := by
  obtain ⟨_, h⟩ := Option.ite_none_right_eq_some.mp h
  obtain rfl := Option.some.inj h
  refine .timesOut thread _ ?_
  rw [List.map_map]
  refine List.map_congr_left fun w _ => ?_
  by_cases hw : w.thread = thread <;> simp [hw]

theorem resume_effect {thread : τ} (h : resume thread s = some t) :
    Effect s (.resume thread) t := by
  unfold resume at h
  split at h
  · rename_i w hfind
    obtain rfl := Option.some.inj h
    have hw := List.mem_of_find?_eq_some hfind
    obtain rfl : w.thread = thread := by simpa using List.find?_some hfind
    cases hout : w.timedOut with
    | false => exact .notified w hw hout
    | true =>
      refine .gaveUp _ s.waiters _ (List.erase_sublist.append_left _) ?_
      have hcount := (List.perm_cons_erase hw).countP_eq fun w => !w.timedOut
      rw [List.countP_cons_of_neg (by simp [hout])] at hcount
      exact hcount.symm
  · split at h
    · obtain rfl := Option.some.inj h
      exact .gaveUp _ _ s.released (List.erase_sublist.append_right _) rfl
    · cases h

theorem step_effect (h : step s a = some t) : Effect s a t := by
  cases a with
  | notify keepSignalled =>
    obtain rfl := Option.some.inj h
    exact .notify keepSignalled
  | reset =>
    obtain rfl := Option.some.inj h
    exact .reset
  | wait thread millis => exact wait_effect h
  | timeOut thread => exact timeOut_effect h
  | resume thread => exact resume_effect h

theorem step_manualReset (h : step s a = some t) (hauto : t.event.manualReset = false) :
    s.event.manualReset = false := by
  cases step_effect h with
  | notify keepSignalled =>
    simp only [notify_event, notify_manualReset, Bool.or_eq_false_iff] at hauto
    exact hauto.1
  | reset | waits | timesOut => exact hauto
  | takes | notified | gaveUp => simpa only [finish_manualReset] using hauto

theorem erase_threads (hw : w ∈ s.released) :
    s.threads.Perm (w.thread :: { s with released := s.released.erase w }.threads) := by
  have hperm : (s.waiters ++ s.released).Perm (w :: (s.waiters ++ s.released.erase w)) :=
    ((List.perm_cons_erase hw).append_left _).trans List.perm_middle
  exact hperm.map Waiter.thread

/-- Only the call of a thread that is outside adds one to the threads in the condition's `wait`. -/
theorem step_threads (h : step s a = some t) : t.threads.Subperm s.threads ∨
    ∃ thread millis, a = .wait thread millis ∧ thread ∉ s.threads ∧
      t.threads.Perm (thread :: s.threads) := by
  cases step_effect h with
  | notify keepSignalled => exact .inl (notify_threads keepSignalled).subperm
  | reset => exact .inl (List.Subperm.refl _)
  | takes => exact .inl (finish_threads true ▸ List.Subperm.refl _)
  | waits thread millis hout =>
    have hperm (w : Waiter τ) : (s.waiters ++ [w] ++ s.released).Perm
        (w :: (s.waiters ++ s.released)) := by
      rw [List.append_assoc]
      exact List.perm_middle
    exact .inr ⟨thread, millis, rfl, hout, (hperm ⟨thread, millis, false⟩).map Waiter.thread⟩
  | timesOut thread waiters hthreads =>
    refine .inl (List.Perm.subperm (.of_eq ?_))
    simp only [State.threads, List.map_append, hthreads]
  | notified w hw =>
    rw [finish_threads]
    exact .inl ((List.sublist_cons_self _ _).subperm.trans (erase_threads hw).symm.subperm)
  | gaveUp thread waiters released hthreads =>
    rw [finish_threads]
    exact .inl (hthreads.map Waiter.thread).subperm

/-- A thread makes one call of `wait` at a time. -/
theorem nodup_step (h : step s a = some t) (hs : s.threads.Nodup) : t.threads.Nodup := by
  rcases step_threads h with ⟨l, hperm, hsub⟩ | ⟨thread, millis, _, hout, hthreads⟩
  · exact hperm.nodup_iff.mp (hs.sublist hsub)
  · exact hthreads.nodup_iff.mpr (List.nodup_cons.mpr ⟨hout, hs⟩)

end ShimService.Signalling
