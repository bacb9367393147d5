import ShimService.Threading.SignalSteps

/-! How many threads the notifies of an auto-reset `SignalEvent` release. -/
namespace ShimService.Signalling

open Transition

variable {τ : Type*} {s t : State τ}

/-- A notify of one thread is heard by it or leaves a signal that nobody has heard. -/
theorem wake_one : (s.wake 1).coming + (s.wake 1).unheard.toNat ≤
    s.coming + s.unheard.toNat + 1 := by
  cases hw : s.waiters with
  | nil => simp [State.wake, State.coming, hw]
  | cons w waiters =>
    cases hout : w.timedOut with
    | true => simp [State.wake, State.coming, hw, hout]
    | false => simp [State.wake, State.coming, hw, hout, Nat.add_right_comm]

theorem wake_one_heard : (s.wake 1).unheard = true ∨ 0 < (s.wake 1).coming := by
  cases hw : s.waiters with
  | nil => simp [State.wake, hw]
  | cons w waiters => cases hout : w.timedOut <;> simp [State.wake, State.coming, hw, hout]

theorem wake_one_coming : (s.wake 1).coming ≤ s.coming + 1 := by
  have hwake := wake_one (s := s)
  have hkept : s.unheard.toNat ≤ (s.wake 1).unheard.toNat := by
    cases hs : s.unheard <;> simp [State.wake, hs]
  omega

variable [DecidableEq τ] {a : Act τ} {xs : List (Act τ)}

/-- A signal that a `wait` finds on its way in has been set by a notify that woke nobody. -/
def TakesUnheard (s : State τ) : Act τ → Prop
  | .wait _ _ => s.event.signalled = true → s.unheard = true
  | _ => True

instance : Decidable (TakesUnheard s a) :=
  match a with
  | .wait _ _ => inferInstanceAs (Decidable (s.event.signalled = true → s.unheard = true))
  | .notify _ | .reset | .timeOut _ | .resume _ => inferInstanceAs (Decidable True)

/-- Each thread that a notify has released, or is about to, has a notify of its own, and so has a
signal that nobody has heard. -/
def Accounted (s : State τ) : Prop :=
  s.event.manualReset = false →
    s.returned.count true + s.coming + s.unheard.toNat ≤ s.notifyCalls

theorem accounted_step (hok : TakesUnheard s a) (h : step s a = some t) (hs : Accounted s) :
    Accounted t := by
  intro hauto
  have hbefore := step_manualReset h hauto
  have hs := hs hbefore
  cases step_effect h with
  | notify keepSignalled =>
    rw [notify_auto hauto]
    have hwake : _ ≤ s.coming + s.unheard.toNat + 1 := wake_one (s := s.signal keepSignalled)
    change s.returned.count true + _ + _ ≤ s.notifyCalls + 1
    omega
  | reset =>
    have hle : s.returned.count true + s.coming ≤ s.notifyCalls := by omega
    exact hle
  | takes thread millis _ hsignal =>
    have hunheard : s.unheard = true := hok hsignal
    simp only [hunheard] at hs
    simpa [hbefore, Nat.add_right_comm] using hs
  | waits | timesOut => exact hs
  | notified w hw hin =>
    have hcoming := coming_erase hw hin
    simp only [finish_count, finish_coming, finish_unheard, finish_notifyCalls, hbefore]
    simp only [Bool.toNat_true, Bool.false_and, Bool.toNat_false]
    omega
  | gaveUp thread waiters released _ hcoming =>
    simp only [finish_count, finish_coming, finish_notifyCalls, hcoming]
    exact hs

/-- An auto-reset event releases at most one thread for each notify, if no thread takes, on its
way in, a signal that each notify behind it has already woken a thread with. -/
theorem returned_le_notified (h : Run step TakesUnheard initial xs t)
    (hauto : t.event.manualReset = false) : t.returned.count true ≤ t.notifyCalls := by
  have hstart : Accounted (initial : State τ) := fun _ => Nat.le_refl 0
  have haccounted := h.invariant (fun _ _ _ => accounted_step) hstart hauto
  omega

/-- A thread is notified, and another one finds a signal that nobody has heard. -/
theorem two_notifies_release_two : ∃ t, Run step TakesUnheard initial
      [.wait 0 none, .notify false, .resume 0, .notify false, .wait 1 (some 50)] t ∧
    t.returned.count true = 2 ∧ t.returned.count true ≤ t.notifyCalls := by
  have himp (s : State ℕ) (a : Act ℕ) : decide (TakesUnheard s a) = true → TakesUnheard s a :=
    of_decide_eq_true
  obtain ⟨t, ht, hp⟩ := exists_run_of_exec himp step initial
    [.wait 0 none, .notify false, .resume 0, .notify false, .wait 1 (some 50)]
    (fun t => t.event.manualReset = false ∧ t.returned.count true = 2) (by decide)
  obtain ⟨hauto, htwo⟩ := of_decide_eq_true hp
  exact ⟨t, ht, htwo, returned_le_notified ht hauto⟩

/-- The second thread comes before the first one, which has been notified, is back. -/
theorem one_notify_releases_two : ∃ t, Run step Free initial
      [.wait 0 none, .notify false, .wait 1 none, .resume 0] t ∧
    t.event.manualReset = false ∧ t.notifyCalls = 1 ∧ t.returned.count true = 2 := by
  obtain ⟨t, ht, hp⟩ := exists_run_of_exec free_of_check step (initial : State ℕ)
    [.wait 0 none, .notify false, .wait 1 none, .resume 0]
    (fun t => t.event.manualReset = false ∧ t.notifyCalls = 1 ∧ t.returned.count true = 2)
    (by decide)
  exact ⟨t, ht, of_decide_eq_true hp⟩

/-- Where every notify behind the signal has woken a thread, one of these threads is coming. -/
def Followed (s : State τ) : Prop :=
  s.event.manualReset = false → s.event.signalled = true → s.unheard = true ∨ 0 < s.coming

theorem followed_step (h : step s a = some t) (hs : Followed s) : Followed t := by
  intro hauto
  have hbefore := step_manualReset h hauto
  have hs := hs hbefore
  cases step_effect h with
  | notify keepSignalled =>
    intro _
    rw [notify_auto hauto]
    exact wake_one_heard
  | reset => exact fun hsignal => by cases hsignal
  | takes =>
    intro hsignal
    simp [finish_signalled hbefore] at hsignal
  | waits | timesOut => exact hs
  | notified w hw hin =>
    intro hsignal
    simp [finish_signalled (s := { s with released := s.released.erase w }) hbefore] at hsignal
  | gaveUp thread waiters released _ hcoming =>
    intro hsignal
    rw [finish_coming, hcoming]
    exact hs hsignal

/-- A step that does not take an unheard signal overtakes a notified thread. -/
theorem overtakes_of_not_takesUnheard (h : Run step Free initial xs s)
    (hauto : s.event.manualReset = false) (hno : ¬ TakesUnheard s a) :
    (∃ thread millis, a = .wait thread millis) ∧ s.event.signalled = true ∧ 0 < s.coming := by
  have hstart : Followed (initial : State τ) := fun _ hsignal => by cases hsignal
  have hfollowed := h.invariant (I := Followed) (fun _ _ _ _ => followed_step) hstart hauto
  cases a with
  | wait thread millis =>
    obtain ⟨hsignal, hheard⟩ := Classical.not_imp.mp hno
    exact ⟨⟨thread, millis, rfl⟩, hsignal, (hfollowed hsignal).resolve_left hheard⟩
  | notify | reset | timeOut | resume => exact absurd trivial hno

/-- All the notified threads may come back, and each of them returns `True`. -/
theorem all_return (hauto : s.event.manualReset = false) : ∃ ys u, Run step Free s ys u ∧
    u.event.manualReset = false ∧ u.returned.count true = s.returned.count true + s.coming ∧
    u.notifyCalls = s.notifyCalls := by
  induction hreleased : s.released generalizing s with
  | nil => exact ⟨[], s, .refl, hauto, by simp [State.coming, hreleased], rfl⟩
  | cons w released ih =>
    have hstep : step s (.resume w.thread) =
        some ({ s with released := released }.finish !w.timedOut) := by
      simp [step, resume, hreleased]
    obtain ⟨ys, u, hu, hauto', hcount, hcalls⟩ :=
      ih (s := { s with released := released }.finish !w.timedOut) (by simpa using hauto)
        (by cases w.timedOut <;> rfl)
    refine ⟨_, u, .cons trivial hstep hu, hauto', ?_, by simpa using hcalls⟩
    rw [hcount, finish_count, finish_coming]
    simp only [State.coming, hreleased]
    cases hout : w.timedOut <;> simp [hout]
    omega

/-- Where each notify so far has released a thread or is about to, a thread that takes the signal
on its way in leaves one more thread to return than there are notifies. -/
theorem overtaking_breaks {thread : τ} {millis : Option ℤ}
    (hauto : s.event.manualReset = false)
    (hspent : s.notifyCalls ≤ s.returned.count true + s.coming)
    (hsignal : s.event.signalled = true) (h : step s (.wait thread millis) = some t) :
    ∃ ys u, Run step Free t ys u ∧ u.event.manualReset = false ∧
      u.notifyCalls < u.returned.count true := by
  cases step_effect h with
  | waits _ _ _ hsignal' => simp [hsignal] at hsignal'
  | takes =>
    obtain ⟨ys, u, hu, hauto', hcount, hcalls⟩ := all_return (s := s.finish true)
      (by simpa using hauto)
    refine ⟨ys, u, hu, hauto', ?_⟩
    rw [hcount, hcalls, finish_count, finish_coming, finish_notifyCalls, Bool.toNat_true]
    omega

/-- A notify accounts for two threads at most: the one that it wakes and one that takes its
signal. -/
def AccountedTwice (s : State τ) : Prop :=
  s.event.manualReset = false →
    s.returned.count true + s.coming + s.event.signalled.toNat ≤ 2 * s.notifyCalls

theorem accountedTwice_step (h : step s a = some t) (hs : AccountedTwice s) :
    AccountedTwice t := by
  intro hauto
  have hbefore := step_manualReset h hauto
  have hs := hs hbefore
  cases step_effect h with
  | notify keepSignalled =>
    rw [notify_auto hauto]
    have hwake : _ ≤ s.coming + 1 := wake_one_coming (s := s.signal keepSignalled)
    change s.returned.count true + _ + 1 ≤ 2 * (s.notifyCalls + 1)
    omega
  | reset =>
    have hle : s.returned.count true + s.coming ≤ 2 * s.notifyCalls := by omega
    exact hle
  | takes thread millis _ hsignal =>
    simp only [hsignal] at hs
    simpa [finish_signalled hbefore, Nat.add_right_comm] using hs
  | waits | timesOut => exact hs
  | notified w hw hin =>
    have hcoming := coming_erase hw hin
    have hclear := finish_signalled (s := { s with released := s.released.erase w }) hbefore
    simp only [finish_count, finish_coming, finish_notifyCalls, hclear]
    simp only [Bool.toNat_true, Bool.toNat_false]
    omega
  | gaveUp thread waiters released _ hcoming =>
    simp only [finish_count, finish_coming, finish_notifyCalls, hcoming]
    exact hs

/-- However they overtake one another, the threads that return `True` are at most twice as many as
the notifies. -/
theorem returned_le_twice (h : Run step Free initial xs t)
    (hauto : t.event.manualReset = false) : t.returned.count true ≤ 2 * t.notifyCalls := by
  have hstart : AccountedTwice (initial : State τ) := fun _ => Nat.le_refl 0
  have haccounted :=
    h.invariant (I := AccountedTwice) (fun _ _ _ _ => accountedTwice_step) hstart hauto
  omega

end ShimService.Signalling
