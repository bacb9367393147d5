import ShimService.Sequence.ExecuteWithEvent
import ShimService.Session.Store

/-! A reported conflict against what has been written, and the release that breaks it. -/
namespace ShimService.ExecuteWithEvent

open SequenceRepo Transition

variable {σ : Type*} {calls : ℕ → EventCall σ} {s t : State σ} {a : Act σ} {xs : List (Act σ)}

/-- A call that raised the conflict has written nothing. -/
def ConflictMeansUnwritten (s : State σ) : Prop :=
  ∀ c, s.results c = some .optimisticLock → c ∉ s.log

/-- A call that has written still finds its own timeout in the row it releases. -/
def SlotKept (calls : ℕ → EventCall σ) (s : State σ) : Act σ → Prop
  | .seq (.release c) => c ∈ s.log → ∀ held returned, s.seq.calls c = .releasing held returned →
      ∃ row, s.seq.table (args calls c).key = some row ∧ row.timeoutAt = held.timeoutAt
  | _ => True

theorem releaseSlot_isSome {table : CondTable.Table SeqKey Sequence} {key : SeqKey}
    {held : Sequence} : (releaseSlot table key held).isSome ↔
      ∃ row, table key = some row ∧ row.timeoutAt = held.timeoutAt := by
  simp only [releaseSlot, Option.isSome_iff_exists, AbstractAwsRepo.patchWithCondition_eq_some]
  constructor
  · rintro ⟨_, row, hrow, htimeout, -⟩
    exact ⟨row, hrow, htimeout⟩
  · rintro ⟨row, hrow, htimeout⟩
    exact ⟨_, row, hrow, htimeout, rfl⟩

/-- The call's callback has run. -/
def AfterCallback : Call → Prop
  | .releasing _ _ | .returned _ | .raised (some _) => True
  | _ => False

/-- The call is over. -/
def Done : Call → Prop
  | .returned _ | .raised _ => True
  | _ => False

structure Inv (s : State σ) : Prop where
  logged : ∀ c ∈ s.log, AfterCallback (s.seq.calls c)
  done : ∀ c, s.results c ≠ none → Done (s.seq.calls c)

theorem inv_initial (clock : ℕ) (table : CondTable.Table SeqKey Sequence) (store : σ) :
    Inv (initial clock table store) := by
  constructor
  · intro c hc
    simp [initial] at hc
  · intro c hc
    simp [initial] at hc

/-- The call waits for its slot or is in its callback. -/
def Early (call : Call) : Prop := ¬ AfterCallback call ∧ ¬ Done call

/-- A call that moves before its callback moves alone. -/
theorem setCall_of_early {s : SequenceRepo.State} {c : ℕ} (hc : Early (s.calls c)) (call : Call)
    (d : ℕ) : (s.setCall c call).calls d = s.calls d ∨ Early (s.calls d) := by
  by_cases hd : d = c
  · exact Or.inr (hd ▸ hc)
  · exact Or.inl (by simp [hd])

theorem seq_step_calls {args : ℕ → Args} {s t : SequenceRepo.State} {a : SequenceRepo.Act}
    (h : SequenceRepo.step args s a = some t) (hcallback : ∀ c b, a ≠ .callback c b)
    (hrelease : ∀ c, a ≠ .release c) (d : ℕ) :
    t.calls d = s.calls d ∨ Early (s.calls d) := by
  cases a with
  | tick =>
    obtain rfl := Option.some.inj h
    exact Or.inl rfl
  | callback c b => exact absurd rfl (hcallback c b)
  | release c => exact absurd rfl (hrelease c)
  | find c | stamp c =>
    simp only [SequenceRepo.step] at h
    split at h <;> cases h
    rename_i hc
    exact setCall_of_early (by simp [hc, Early, AfterCallback, Done]) _ d
  | check c =>
    simp only [SequenceRepo.step] at h
    split at h
    · rename_i hc
      have hearly : Early (s.calls c) := by simp [hc, Early, AfterCallback, Done]
      split at h <;> cases h <;> exact setCall_of_early hearly _ d
    · cases h
  | take c =>
    simp only [SequenceRepo.step] at h
    split at h
    · rename_i hc
      have hearly : Early (s.calls c) := by simp [hc, Early, AfterCallback, Done]
      split at h <;> cases h <;> exact setCall_of_early hearly _ d
    · cases h

/-- What a step does to the calls, the log and the results. -/
inductive Effect (calls : ℕ → EventCall σ) (s : State σ) (a : Act σ) (t : State σ) : Prop where
  | waited (ha : ∀ c, a ≠ .seq (.release c)) (hlog : t.log = s.log)
      (hcalls : ∀ d, t.seq.calls d = s.seq.calls d ∨ Early (s.seq.calls d))
      (hresults : ∀ d, t.results d = s.results d ∨
        (t.seq.calls d = .raised none ∧ t.results d = some .optimisticLock))
  | ran (c : ℕ) (held : Sequence) (returned : Bool) (ha : ∀ c, a ≠ .seq (.release c))
      (hc : s.seq.calls c = .running held) (hlog : t.log = s.log ∨ t.log = c :: s.log)
      (hcalls : ∀ d, t.seq.calls d = if d = c then .releasing held returned else s.seq.calls d)
      (hresults : t.results = s.results)
  | released (c : ℕ) (held : Sequence) (returned : Bool) (last : Call)
      (ha : a = .seq (.release c)) (hc : s.seq.calls c = .releasing held returned)
      (hlast : AfterCallback last ∧ Done last) (hlog : t.log = s.log)
      (hcalls : ∀ d, t.seq.calls d = if d = c then last else s.seq.calls d)
      (hresults : ∀ d, t.results d = if d = c then
        (if (releaseSlot s.seq.table (args calls c).key held).isSome
          then (s.callbacks c).map .outcome else some .optimisticLock)
        else s.results d)

theorem effect_of_seq (b : SequenceRepo.Act) (hcallback : ∀ c r, b ≠ .callback c r)
    (hrelease : ∀ c, b ≠ .release c)
    (h : (SequenceRepo.step (args calls) s.seq b).map (fun seq =>
      { s with
        seq := seq
        results := fun c =>
          if seq.calls c = .raised none then some .optimisticLock else s.results c }) = some t) :
    Effect calls s (.seq b) t := by
  obtain ⟨seq, hseq, rfl⟩ := Option.map_eq_some_iff.mp h
  refine .waited (fun c heq => hrelease c (Act.seq.inj heq)) rfl
    (seq_step_calls hseq hcallback hrelease) fun d => ?_
  by_cases hd : seq.calls d = .raised none
  · exact Or.inr ⟨hd, if_pos hd⟩
  · exact Or.inl (if_neg hd)

theorem effect_of_finish {c : ℕ} {held : Sequence} {outcome : Outcome} {u : State σ}
    (ha : ∀ c, a ≠ .seq (.release c)) (hc : s.seq.calls c = .running held)
    (hseq : u.seq = s.seq) (hresults : u.results = s.results)
    (hlog : u.log = s.log ∨ u.log = c :: s.log) (h : finish calls u c outcome = some t) :
    Effect calls s a t := by
  obtain ⟨seq, hstep, rfl⟩ := Option.map_eq_some_iff.mp h
  rw [hseq] at hstep
  simp only [SequenceRepo.step, hc] at hstep
  obtain rfl := Option.some.inj hstep
  exact .ran c held _ ha hc hlog (SequenceRepo.State.setCall_calls _ _ · _) hresults

theorem effect_of_release {c : ℕ} (h : step calls s (.seq (.release c)) = some t) :
    Effect calls s (.seq (.release c)) t := by
  simp only [step] at h
  split at h
  · rename_i held returned hc
    obtain ⟨seq, hseq, rfl⟩ := Option.map_eq_some_iff.mp h
    have hresults : ∀ result d, Function.update s.results c result d =
        if d = c then result else s.results d := fun result d => Function.update_apply ..
    simp only [SequenceRepo.step, hc] at hseq
    split at hseq
    · obtain rfl := Option.some.inj hseq
      refine .released c held returned _ rfl hc ?_ rfl
        (SequenceRepo.State.setCall_calls _ _ · _) (hresults _)
      cases returned <;> exact ⟨trivial, trivial⟩
    · obtain rfl := Option.some.inj hseq
      exact .released c held returned (.raised (some held.nextValue)) rfl hc
        ⟨trivial, trivial⟩ rfl
        (SequenceRepo.State.setCall_calls _ _ · _) (hresults _)
  · cases h

theorem effect_of_transact {c : ℕ} {reply : Reply}
    (h : step calls s (.transact c reply) = some t) :
    Effect calls s (.transact c reply) t := by
  have ha : ∀ d, (Act.transact c reply : Act σ) ≠ .seq (.release d) := by simp
  simp only [step] at h
  split at h
  · rename_i held hc
    split at h
    · exact effect_of_finish ha hc rfl rfl (Or.inl rfl) h
    · exact effect_of_finish ha hc rfl rfl (Or.inl rfl) h
    · rename_i store _
      exact effect_of_finish (u := s.commit c store) ha hc rfl rfl (Or.inr rfl) h
    · exact effect_of_finish ha hc rfl rfl (Or.inl rfl) h
    · rename_i store _
      exact effect_of_finish (u := s.commit c store) ha hc rfl rfl (Or.inr rfl) h
  · cases h

theorem step_effect (h : step calls s a = some t) : Effect calls s a t := by
  cases a with
  | other write =>
    obtain ⟨store, -, rfl⟩ := Option.map_eq_some_iff.mp h
    exact .waited (by simp) rfl (fun _ => Or.inl rfl) fun _ => Or.inl rfl
  | transact c reply => exact effect_of_transact h
  | seq b =>
    cases b with
    | callback => cases h
    | release c => exact effect_of_release h
    | tick | find | stamp | check | take =>
      exact effect_of_seq _ (by simp) (by simp) h

theorem inv_step (h : step calls s a = some t) (hi : Inv s) : Inv t := by
  cases step_effect h with
  | waited ha hlog hcalls hresults =>
    constructor
    · intro c hc
      rw [hlog] at hc
      have hafter := hi.logged c hc
      rcases hcalls c with heq | ⟨hnot, -⟩
      · rwa [heq]
      · exact absurd hafter hnot
    · intro c hc
      rcases hresults c with heq | ⟨hraised, -⟩
      · rw [heq] at hc
        have hdone := hi.done c hc
        rcases hcalls c with heq | ⟨-, hnot⟩
        · rwa [heq]
        · exact absurd hdone hnot
      · rw [hraised]
        trivial
  | ran c held returned ha hc hlog hcalls hresults =>
    constructor
    · intro d hd
      rw [hcalls]
      split
      · trivial
      · rename_i hne
        refine hi.logged d ?_
        rcases hlog with hlog | hlog <;> rw [hlog] at hd
        · exact hd
        · exact (List.mem_cons.mp hd).resolve_left hne
    · intro d hd
      rw [hresults] at hd
      have hdone := hi.done d hd
      rw [hcalls, if_neg]
      · exact hdone
      · rintro rfl
        rw [hc] at hdone
        exact hdone
  | released c held returned last ha hc hlast hlog hcalls hresults =>
    constructor
    · intro d hd
      rw [hlog] at hd
      rw [hcalls]
      split
      · exact hlast.1
      · exact hi.logged d hd
    · intro d hd
      rw [hcalls]
      split
      · exact hlast.2
      · rename_i hne
        rw [hresults, if_neg hne] at hd
        exact hi.done d hd

/-- What a call has raised and what it has written stay so. -/
theorem unwritten_of_step (h : step calls s a = some t) (hi : Inv s)
    (ht : ConflictMeansUnwritten t) : ConflictMeansUnwritten s := by
  intro c hresult hlogged
  have hdone := hi.done c (by simp [hresult])
  cases step_effect h with
  | waited ha hlog hcalls hresults =>
    refine ht c ?_ (hlog ▸ hlogged)
    rcases hresults c with heq | ⟨-, hlock⟩
    · rwa [heq]
    · exact hlock
  | ran d held returned ha hd hlog hcalls hresults =>
    refine ht c (hresults ▸ hresult) ?_
    rcases hlog with hlog | hlog <;> rw [hlog]
    · exact hlogged
    · exact List.mem_cons_of_mem _ hlogged
  | released d held returned last ha hd hlast hlog hcalls hresults =>
    refine ht c ?_ (hlog ▸ hlogged)
    rw [hresults, if_neg]
    · exact hresult
    · rintro rfl
      rw [hd] at hdone
      exact hdone

theorem unwritten_step (hok : SlotKept calls s a) (h : step calls s a = some t) (hi : Inv s)
    (hs : ConflictMeansUnwritten s) : ConflictMeansUnwritten t := by
  have ht := inv_step h hi
  intro c hresult hlogged
  cases step_effect h with
  | waited ha hlog hcalls hresults =>
    rcases hresults c with heq | ⟨hraised, -⟩
    · exact hs c (heq ▸ hresult) (hlog ▸ hlogged)
    · have hafter := ht.logged c hlogged
      rw [hraised] at hafter
      exact hafter
  | ran d held returned ha hd hlog hcalls hresults =>
    rw [hresults] at hresult
    refine hs c hresult ?_
    rcases hlog with hlog | hlog <;> rw [hlog] at hlogged
    · exact hlogged
    · refine (List.mem_cons.mp hlogged).resolve_left ?_
      rintro rfl
      -- The call has only just ended its callback.
      have hdone := hi.done c (by simp [hresult])
      rw [hd] at hdone
      exact hdone
  | released d held returned last ha hd hlast hlog hcalls hresults =>
    rw [hlog] at hlogged
    rw [hresults] at hresult
    split at hresult
    · rename_i heq
      subst heq
      subst ha
      obtain ⟨row, hrow, htimeout⟩ := hok hlogged held returned hd
      rw [if_pos (releaseSlot_isSome.mpr ⟨row, hrow, htimeout⟩)] at hresult
      obtain ⟨outcome, -, heq⟩ := Option.map_eq_some_iff.mp hresult
      cases heq
    · exact hs c hresult hlogged

/-- The release that finds another call's timeout raises, although the transaction is written. -/
theorem conflict_of_slot_lost (h : step calls s a = some t) (hok : ¬ SlotKept calls s a) :
    ¬ ConflictMeansUnwritten t := by
  cases a with
  | seq b =>
    cases b with
    | release c =>
      simp only [SlotKept, not_forall] at hok
      obtain ⟨hlogged, held, returned, hc, hrow⟩ := hok
      cases step_effect h with
      | released d held' returned' last ha hd hlast hlog hcalls hresults =>
        obtain rfl : c = d := by simpa using ha
        obtain ⟨rfl, -⟩ := Call.releasing.inj (hc.symm.trans hd)
        intro hunwritten
        refine hunwritten c ?_ (hlog ▸ hlogged)
        rw [hresults, if_pos rfl, if_neg]
        exact fun hreleased => hrow (releaseSlot_isSome.mp hreleased)
      | waited ha hlog hcalls hresults => exact absurd rfl (ha c)
      | ran d held' returned' ha hd hlog hcalls hresults => exact absurd rfl (ha c)
    | _ => exact absurd trivial hok
  | _ => exact absurd trivial hok

/-- In every run a reported conflict means that nothing was written, exactly when no call that
has written finds its slot taken over at its release. -/
theorem conflict_means_unwritten_iff {clock : ℕ} {table : CondTable.Table SeqKey Sequence}
    {store : σ} (h : Run (step calls) Free (initial clock table store) xs s) :
    ConflictMeansUnwritten s ↔
      Run (step calls) (SlotKept calls) (initial clock table store) xs s := by
  have hstart : ConflictMeansUnwritten (initial clock table store) := by
    intro c hresult
    simp [initial] at hresult
  exact h.good_iff_guarded (fun _ _ _ => inv_step)
    (fun _ _ _ hs hi hnot ht => hnot (unwritten_of_step hs hi ht))
    (fun _ _ _ => unwritten_step) (fun _ _ _ hs _ => conflict_of_slot_lost hs)
    (inv_initial clock table store) hstart

/-- A session and the event of its creation. -/
def createCalls (c : ℕ) : EventCall Db :=
  ⟨1, 30, [Db.putSession ⟨1, toString c⟩ {}],
    fun seqNo => Db.putEvent 1 seqNo ⟨.sessionCreated, toString c, "u"⟩, []⟩

/-- The call `c` up to its slot. -/
def takes (c : ℕ) : List (Act Db) :=
  [.seq (.find c), .seq (.stamp c), .seq (.check c), .seq (.take c)]

def slotKeptCheck (calls : ℕ → EventCall σ) (s : State σ) : Act σ → Bool
  | .seq (.release c) =>
    match s.seq.calls c, s.seq.table (args calls c).key with
    | .releasing held _, some row => c ∉ s.log || row.timeoutAt == held.timeoutAt
    | _, _ => false
  | _ => true

theorem slotKept_of_check (calls : ℕ → EventCall σ) (s : State σ) (a : Act σ)
    (h : slotKeptCheck calls s a = true) : SlotKept calls s a := by
  match a with
  | .seq (.release c) =>
    intro hlogged held returned hc
    simp only [slotKeptCheck, hc] at h
    split at h
    · rename_i row heq hrow
      obtain ⟨rfl, -⟩ := Call.releasing.inj heq
      refine ⟨row, hrow, ?_⟩
      simpa [hlogged] using h
    · cases h
  | .seq (.tick _) | .seq (.find _) | .seq (.stamp _) | .seq (.check _) | .seq (.take _)
  | .seq (.callback _ _) | .transact _ _ | .other _ => trivial

/-- Two calls, each of which frees its slot in time. -/
theorem two_calls_unwritten : ∃ s : State Db, ConflictMeansUnwritten s ∧ s.log = [1, 0] ∧
    s.results 1 = some (.outcome (.returned none)) := by
  obtain ⟨s, hs, hp⟩ := exists_run_of_exec (slotKept_of_check createCalls) (step createCalls)
    (initial 0 (fun _ => none) Db.empty)
    (takes 0 ++ [.transact 0 .answered, .seq (.release 0)] ++ takes 1 ++
      [.transact 1 .answered, .seq (.release 1)])
    (fun s => s.log == [1, 0] && s.results 1 == some (.outcome (.returned none))) (by decide)
  simp only [Bool.and_eq_true, beq_iff_eq] at hp
  exact ⟨s, (conflict_means_unwritten_iff hs.free).mpr hs, hp.1, hp.2⟩

/-- Call 0 writes, its lock runs out, call 1 takes the slot, and call 0 reports a conflict. -/
theorem conflict_after_commit : ¬ ∀ (calls : ℕ → EventCall Db) (clock : ℕ)
    (table : CondTable.Table SeqKey Sequence) (store : Db) (xs : List (Act Db)) (s : State Db),
    Run (step calls) Free (initial clock table store) xs s → ConflictMeansUnwritten s := by
  intro hall
  obtain ⟨s, hs, hp⟩ := exists_run_of_exec free_of_check
    (step createCalls) (initial 0 (fun _ => none) Db.empty)
    (takes 0 ++ [.transact 0 .answered, .seq (.tick 40000)] ++ takes 1 ++ [.seq (.release 0)])
    (fun s => s.log == [0] && s.results 0 == some .optimisticLock) (by decide)
  simp only [Bool.and_eq_true, beq_iff_eq] at hp
  exact hall createCalls 0 _ _ _ s hs 0 hp.2 (by simp [hp.1])

end ShimService.ExecuteWithEvent
