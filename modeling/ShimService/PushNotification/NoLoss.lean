import ShimService.PushNotification.InOrder

/-! No notification is lost behind the cursor, and the late commit that loses one. -/
namespace ShimService.PushNotifications

open CondTable Transition

variable {submits : ℕ → Submit} {expirationSeconds clock : ℕ} {s : State} {xs : List Act}
  {sequences : Table SequenceRepo.SeqKey SequenceRepo.Sequence}

/-- Submits that keep their slots until they have committed lose nothing. -/
theorem noneLost_of_holdsSlot (h : Run (step submits expirationSeconds)
    (HoldsSlot submits expirationSeconds) (initial clock sequences) xs s) : NoneLost s :=
  noneLost_of_kept (kept_run (run_commitsAhead h))

/-- Where every submit that commits is ahead of its session's notifier runs, no notification is
lost: in every run of submits and notifiers, overrunning lock holders included. -/
theorem no_notification_lost (h : Run (step submits expirationSeconds)
    (CommitsAhead submits expirationSeconds) (initial clock sequences) xs s) : NoneLost s :=
  noneLost_of_kept (kept_run h)

def toOneSession : ℕ → Submit := fun _ => ⟨⟨1, "a"⟩, "user", "omni", "type", "message"⟩

def holdsSlotCheck (submits : ℕ → Submit) (s : State) : Act → Bool
  | .sequence a => SequenceRepo.freshTakeCheck (sequenceArgs submits) s.sequence a
  | .commit c _ _ =>
    match s.sequence.calls c, s.sequence.table (sequenceArgs submits c).key with
    | .running held, some row => row.nextValue = held.nextValue + 1
    | .running _, none => false
    | _, _ => true
  | _ => true

theorem holdsSlot_of_check (submits : ℕ → Submit) (s : State) (a : Act)
    (h : holdsSlotCheck submits s a = true) :
    HoldsSlot submits expirationSeconds s a := by
  cases a with
  | sequence a => exact SequenceRepo.freshTake_of_check _ _ a h
  | commit c now returned =>
    intro held tables hc _
    cases hrow : s.sequence.table (sequenceArgs submits c).key with
    | none => simp [holdsSlotCheck, hc, hrow] at h
    | some row => exact ⟨row, rfl, by simpa [holdsSlotCheck, hc, hrow] using h⟩
  | _ => trivial

/-- A submit up to its transaction. -/
def takes (c : ℕ) : List Act :=
  [.sequence (.find c), .sequence (.stamp c), .sequence (.check c), .sequence (.take c)]

/-- A run of a notifier that sends one notification. -/
def notifies (j : ℕ) (settings : Settings) : List Act :=
  [.load j ⟨1, "a"⟩ settings, .fetch j none, .deliver j, .setSent j, .quit j]

/-- Two notifications are sent, and a third waits behind the cursor's 2. -/
theorem no_notification_lost_in_order : ∃ s, s.tables.contexts ⟨1, "a"⟩ = some ⟨some 2⟩ ∧
    Undelivered s ⟨1, "a"⟩ 3 ∧ NoneLost s := by
  obtain ⟨s, hs, hp⟩ := exists_run_of_exec (holdsSlot_of_check toOneSession)
    (step toOneSession 60) (initial 0 fun _ => none)
    (.createContext ⟨1, "a"⟩ :: takes 0 ++ [.commit 0 0 true, .sequence (.release 0)] ++
      notifies 0 ⟨none⟩ ++ takes 1 ++ [.commit 1 0 true, .sequence (.release 1)] ++
      notifies 0 ⟨some 1⟩ ++ takes 2 ++ [.commit 2 0 true])
    (fun s => s.tables.contexts ⟨1, "a"⟩ == some ⟨some 2⟩ && !s.delivered ⟨1, "a"⟩ 3 &&
      (s.tables.notifications ⟨1, "a"⟩).rows.any (·.seqNo = 3)) (by decide)
  simp only [Bool.and_eq_true, beq_iff_eq, Bool.not_eq_true', List.any_eq_true,
    decide_eq_true_eq] at hp
  exact ⟨s, hp.1.1, ⟨hp.2, hp.1.2⟩, no_notification_lost (run_commitsAhead hs)⟩

/-- Submit 0 takes number 1 and overruns its lock, submit 1 takes 2 and commits, the notifier
sends it and moves the cursor to 2, and then submit 0 commits its 1. -/
theorem late_commit_is_lost : ¬ ∀ (submits : ℕ → Submit) (expirationSeconds clock : ℕ)
    (sequences : Table SequenceRepo.SeqKey SequenceRepo.Sequence) (s : State) (xs : List Act),
    Run (step submits expirationSeconds) Free (initial clock sequences) xs s → NoneLost s := by
  intro hall
  obtain ⟨s, hs, hp⟩ := exists_run_of_exec free_of_check (step toOneSession 60)
    (initial 0 fun _ => none)
    (.createContext ⟨1, "a"⟩ :: takes 0 ++ [.sequence (.tick 31000)] ++ takes 1 ++
      [.commit 1 31000 true] ++ notifies 0 ⟨none⟩ ++ [.commit 0 31000 true])
    (fun s => s.tables.contexts ⟨1, "a"⟩ == some ⟨some 2⟩ && !s.delivered ⟨1, "a"⟩ 1 &&
      (s.tables.notifications ⟨1, "a"⟩).rows.any (·.seqNo = 1)) (by decide)
  simp only [Bool.and_eq_true, beq_iff_eq, Bool.not_eq_true', List.any_eq_true,
    decide_eq_true_eq] at hp
  have hlost := hall toOneSession 60 0 _ s _ hs _ _ 2 1 hp.1.1 rfl ⟨hp.2, hp.1.2⟩
  omega

end ShimService.PushNotifications
