import ShimService.Sequence.Execute

/-! Distinct sequence numbers and a monotone counter, and the stale take that breaks both. -/
namespace ShimService.SequenceRepo

open CondTable AbstractAwsRepo Transition

variable {args : ℕ → Args} {s t : State} {a : Act} {xs ys : List Act}

/-- Numbers handed out under one key are pairwise distinct. -/
def Distinct (args : ℕ → Args) (s : State) : Prop :=
  ∀ c d m n, c ≠ d → (args c).key = (args d).key →
    (s.calls c).seqNo = some m → (s.calls d).seqNo = some n → m ≠ n

/-- Every stored counter is still stored, and no smaller. -/
def NextValueLe (s t : State) : Prop :=
  ∀ key row, s.table key = some row →
    ∃ row', t.table key = some row' ∧ row.nextValue ≤ row'.nextValue

/-- Every holder finishes its callback and its release before its timeout expires: no slot is
taken with a timeout already past, and no time passes the timeout of a slot still held. -/
def Timely (s : State) : Act → Prop
  | .tick millis => ∀ c held, (s.calls c).held = some held →
      getSystemTimeInSeconds (s.clock + millis) < held.timeoutAt
  | .take c => ∀ tries current nextTimeout, s.calls c = .ready tries current nextTimeout →
      getSystemTimeInSeconds s.clock < nextTimeout
  | _ => True

/-- A row that passes the take's condition has the counter it had when the call read it. -/
def FreshTake (args : ℕ → Args) (s : State) : Act → Prop
  | .take c => ∀ tries cur nextTimeout row, s.calls c = .ready tries (some cur) nextTimeout →
      s.table (args c).key = some row → row.timeoutAt = cur.timeoutAt →
      row.nextValue = cur.nextValue
  | _ => True

/-- What a step does to the table and to the numbers handed out. -/
inductive Effect (args : ℕ → Args) (s : State) (a : Act) (t : State) : Prop where
  | quiet (htable : t.table = s.table) (hseq : ∀ d, (t.calls d).seqNo = (s.calls d).seqNo)
  | took (c tries : ℕ) (current : Option Sequence) (nextTimeout : ℕ) (held : Sequence)
      (ha : a = .take c) (hc : s.calls c = .ready tries current nextTimeout)
      (hwrite : takeSlot s.table (args c).key current nextTimeout true = some (t.table, held))
      (hseq : ∀ d, (t.calls d).seqNo = if d = c then some held.nextValue else (s.calls d).seqNo)
  | freed (c : ℕ) (held : Sequence)
      (hwrite : releaseSlot s.table (args c).key held = some t.table)
      (hseq : ∀ d, (t.calls d).seqNo = (s.calls d).seqNo)

theorem seqNo_setCall {c : ℕ} {call : Call} (h : call.seqNo = (s.calls c).seqNo) (d : ℕ) :
    ((s.setCall c call).calls d).seqNo = (s.calls d).seqNo := by
  by_cases hd : d = c
  · subst d
    simpa using h
  · simp [hd]

theorem step_effect (h : step args s a = some t) : Effect args s a t := by
  cases a with
  | tick =>
    obtain rfl := Option.some.inj h
    exact .quiet rfl fun _ => rfl
  | find c =>
    simp only [step] at h
    split at h <;> cases h
    rename_i hc
    exact .quiet rfl (seqNo_setCall (by simp [hc]))
  | stamp c =>
    simp only [step] at h
    split at h <;> cases h
    rename_i hc
    exact .quiet rfl (seqNo_setCall (by simp [hc]))
  | check c =>
    simp only [step] at h
    split at h
    · rename_i hc
      split at h <;> cases h
      · exact .quiet rfl (seqNo_setCall ((Call.seqNo_retry _).trans (by simp [hc])))
      · exact .quiet rfl (seqNo_setCall (by simp [hc]))
    · cases h
  | take c =>
    simp only [step] at h
    split at h
    · rename_i tries current nextTimeout hc
      split at h <;> cases h
      · rename_i table held hw
        exact .took c tries current nextTimeout held rfl hc hw
          (fun d => by by_cases hd : d = c <;> simp [hd])
      · exact .quiet rfl (seqNo_setCall ((Call.seqNo_retry _).trans (by simp [hc])))
    · cases h
  | callback c returned =>
    simp only [step] at h
    split at h <;> cases h
    rename_i hc
    exact .quiet rfl (seqNo_setCall (by simp [hc]))
  | release c =>
    simp only [step] at h
    split at h
    · rename_i held returned hc
      split at h <;> cases h
      · rename_i table hw
        refine .freed c held hw (seqNo_setCall ?_)
        cases returned <;> simp [hc]
      · exact .quiet rfl (seqNo_setCall (by simp [hc]))
    · cases h

/-- A fresh take stores one more than the number it hands out, and a stored counter was that
number; the first row is created with 1 handed out. -/
theorem takeSlot_fresh {table table' : Table SeqKey Sequence} {key : SeqKey}
    {current : Option Sequence} {nextTimeout : ℕ} {held : Sequence}
    (h : takeSlot table key current nextTimeout true = some (table', held))
    (hfresh : ∀ cur row, current = some cur → table key = some row →
      row.timeoutAt = cur.timeoutAt → row.nextValue = cur.nextValue) :
    table' = Function.update table key (some ⟨held.nextValue + 1, nextTimeout⟩) ∧
      ∀ row, table key = some row → row.nextValue = held.nextValue := by
  cases current with
  | none =>
    obtain ⟨u, hu, he⟩ := Option.map_eq_some_iff.mp h
    cases he
    obtain ⟨hnone, rfl⟩ := create_eq_some.mp hu
    exact ⟨rfl, by simp [hnone]⟩
  | some cur =>
    obtain ⟨u, hu, he⟩ := Option.map_eq_some_iff.mp h
    cases he
    obtain ⟨row, hrow, hcond, rfl⟩ := patchWithCondition_eq_some.mp hu
    have hn := hfresh cur row rfl hrow hcond
    refine ⟨rfl, ?_⟩
    intro row' hrow'
    obtain rfl : row = row' := Option.some.inj (hrow.symm.trans hrow')
    exact hn

theorem releaseSlot_nextValue {table table' : Table SeqKey Sequence} {key : SeqKey}
    {held : Sequence} (h : releaseSlot table key held = some table') (k : SeqKey) :
    (table' k).map Sequence.nextValue = (table k).map Sequence.nextValue := by
  obtain ⟨row, hrow, _, rfl⟩ := patchWithCondition_eq_some.mp h
  by_cases hk : k = key
  · subst k
    simp [hrow]
  · simp [hk]

/-- Every number handed out is below the stored counter, and no two are the same. -/
structure Inv (args : ℕ → Args) (s : State) : Prop where
  below : ∀ c n, (s.calls c).seqNo = some n →
    ∃ row, s.table (args c).key = some row ∧ n < row.nextValue
  distinct : Distinct args s

theorem inv_initial (clock : ℕ) (table : Table SeqKey Sequence) :
    Inv args (initial clock table) := by
  constructor
  · intro c n h
    simp [initial] at h
  · intro c d m n _ _ h
    simp [initial] at h

theorem nextValueLe_of_map (h : ∀ k, (t.table k).map Sequence.nextValue =
    (s.table k).map Sequence.nextValue) : NextValueLe s t := by
  intro key row hrow
  have hk := h key
  rw [hrow] at hk
  obtain ⟨row', hrow', he⟩ := Option.map_eq_some_iff.mp hk
  exact ⟨row', hrow', he.ge⟩

/-- Numbers handed out before stay below counters that do not decrease. -/
theorem inv_of_le (hi : Inv args s) (hle : NextValueLe s t)
    (hseq : ∀ d, (t.calls d).seqNo = (s.calls d).seqNo) : Inv args t := by
  constructor
  · intro c n h
    rw [hseq] at h
    obtain ⟨row, hrow, hn⟩ := hi.below c n h
    obtain ⟨row', hrow', hle⟩ := hle _ _ hrow
    exact ⟨row', hrow', by omega⟩
  · intro c d m n hcd hkey hm hn
    rw [hseq] at hm hn
    exact hi.distinct c d m n hcd hkey hm hn

theorem nextValueLe_took {c : ℕ} {held : Sequence} {nextTimeout : ℕ}
    (htable : t.table = Function.update s.table (args c).key
      (some ⟨held.nextValue + 1, nextTimeout⟩))
    (hrow : ∀ row, s.table (args c).key = some row → row.nextValue = held.nextValue) :
    NextValueLe s t := by
  intro key row h
  by_cases hk : key = (args c).key
  · subst key
    exact ⟨_, by rw [htable, Function.update_self], by simp [hrow row h]⟩
  · exact ⟨row, by rw [htable, Function.update_of_ne hk, h], le_rfl⟩

theorem inv_took {c : ℕ} {held : Sequence} {nextTimeout : ℕ} (hi : Inv args s)
    (htable : t.table = Function.update s.table (args c).key
      (some ⟨held.nextValue + 1, nextTimeout⟩))
    (hrow : ∀ row, s.table (args c).key = some row → row.nextValue = held.nextValue)
    (hseq : ∀ d, (t.calls d).seqNo = if d = c then some held.nextValue else (s.calls d).seqNo) :
    Inv args t := by
  -- A number handed out earlier under this key is below the one handed out now.
  have hold : ∀ d n, d ≠ c → (args d).key = (args c).key → (t.calls d).seqNo = some n →
      n < held.nextValue := by
    intro d n hd hkey hn
    rw [hseq, if_neg hd] at hn
    obtain ⟨row, hr, hlt⟩ := hi.below d n hn
    rw [← hrow row (hkey ▸ hr)]
    exact hlt
  constructor
  · intro d n hn
    by_cases hd : d = c
    · subst d
      rw [hseq, if_pos rfl] at hn
      exact ⟨_, by rw [htable, Function.update_self], by simp [← Option.some.inj hn]⟩
    · by_cases hkey : (args d).key = (args c).key
      · exact ⟨_, by rw [htable, hkey, Function.update_self],
          Nat.lt_succ_of_lt (hold d n hd hkey hn)⟩
      · rw [hseq, if_neg hd] at hn
        obtain ⟨row, hr, hlt⟩ := hi.below d n hn
        exact ⟨row, by rw [htable, Function.update_of_ne hkey, hr], hlt⟩
  · intro d e m n hde hkey hm hn
    by_cases hd : d = c
    · subst d
      have := hold e n hde.symm hkey.symm hn
      rw [hseq, if_pos rfl] at hm
      have := Option.some.inj hm
      omega
    · by_cases he : e = c
      · subst e
        have := hold d m hd hkey hm
        rw [hseq, if_pos rfl] at hn
        have := Option.some.inj hn
        omega
      · rw [hseq, if_neg hd] at hm
        rw [hseq, if_neg he] at hn
        exact hi.distinct d e m n hde hkey hm hn

theorem inv_step (hok : FreshTake args s a) (h : step args s a = some t) (hi : Inv args s) :
    Inv args t ∧ NextValueLe s t := by
  cases step_effect h with
  | quiet htable hseq =>
    have hle : NextValueLe s t := nextValueLe_of_map fun k => by rw [htable]
    exact ⟨inv_of_le hi hle hseq, hle⟩
  | took c tries current nextTimeout held ha hc hwrite hseq =>
    subst a
    obtain ⟨htable, hrow⟩ := takeSlot_fresh hwrite fun cur row hcur hr ht =>
      hok tries cur nextTimeout row (hcur ▸ hc) hr ht
    exact ⟨inv_took hi htable hrow hseq, nextValueLe_took htable hrow⟩
  | freed c held hwrite hseq =>
    have hle : NextValueLe s t := nextValueLe_of_map (releaseSlot_nextValue hwrite)
    exact ⟨inv_of_le hi hle hseq, hle⟩

theorem inv_run (h : Run (step args) (FreshTake args) s xs t) (hi : Inv args s) : Inv args t :=
  h.invariant (fun _ _ _ hok hs hi => (inv_step hok hs hi).1) hi

theorem nextValueLe_run (h : Run (step args) (FreshTake args) s xs t) (hi : Inv args s) :
    NextValueLe s t := by
  refine h.rel (fun _ _ row hrow => ⟨row, hrow, le_rfl⟩) ?_
    (fun _ _ _ hok hs hi => (inv_step hok hs hi).1)
    (fun _ _ _ hok hs hi => (inv_step hok hs hi).2) hi
  intro s t u hst htu key row hrow
  obtain ⟨row', hrow', hle⟩ := hst key row hrow
  obtain ⟨row'', hrow'', hle'⟩ := htu key row' hrow'
  exact ⟨row'', hrow'', hle.trans hle'⟩

/-- Where every take that passes its condition meets the counter it read, numbers are handed out
once and the counter never decreases, in every run and from any stored row. -/
theorem sequence_numbers_unique {clock : ℕ} {table : Table SeqKey Sequence}
    (h : Run (step args) (FreshTake args) (initial clock table) xs s)
    (h' : Run (step args) (FreshTake args) s ys t) : Distinct args t ∧ NextValueLe s t := by
  have hs := inv_run h (inv_initial clock table)
  exact ⟨(inv_run h' hs).distinct, nextValueLe_run h' hs⟩

/-- Every attempt of the call `c` that finds the slot free, up to its release. -/
def wholeCall (c : ℕ) : List Act :=
  [.find c, .stamp c, .check c, .take c, .callback c true, .release c]

def oneKey : ℕ → Args := fun _ => ⟨1, "x", 30⟩

def freshTakeCheck (args : ℕ → Args) (s : State) : Act → Bool
  | .take c =>
    match s.calls c, s.table (args c).key with
    | .ready _ (some cur) _, some row =>
      row.timeoutAt != cur.timeoutAt || row.nextValue == cur.nextValue
    | _, _ => true
  | _ => true

theorem freshTake_of_check (args : ℕ → Args) (s : State) (a : Act)
    (h : freshTakeCheck args s a = true) : FreshTake args s a := by
  cases a with
  | take c =>
    intro tries cur nextTimeout row hc hrow ht
    simpa [freshTakeCheck, hc, hrow, ht] using h
  | _ => trivial

theorem sequence_numbers_unique_two_calls : ∃ s t, (s.calls 0).seqNo = some 1 ∧
    (t.calls 1).seqNo = some 2 ∧ Distinct oneKey t ∧ NextValueLe s t := by
  obtain ⟨s, t, hs, ht, hp⟩ := exists_runs_of_exec (freshTake_of_check oneKey) (step oneKey)
    (initial 0 fun _ => none) (wholeCall 0) (wholeCall 1)
    (fun s t => (s.calls 0).seqNo == some 1 && (t.calls 1).seqNo == some 2) (by decide)
  simp only [Bool.and_eq_true, beq_iff_eq] at hp
  exact ⟨s, t, hp.1, hp.2, sequence_numbers_unique hs ht⟩

def timelyCheck (s : State) : Act → Bool
  | .tick _ => false
  | .take c =>
    match s.calls c with
    | .ready _ _ nextTimeout => getSystemTimeInSeconds s.clock < nextTimeout
    | _ => true
  | _ => true

theorem timely_of_check (s : State) (a : Act) (h : timelyCheck s a = true) : Timely s a := by
  cases a with
  | tick => cases h
  | take c =>
    intro tries current nextTimeout hc
    simpa [timelyCheck, hc] using h
  | _ => trivial

/-- Call 1 reads the free row, calls 2 and 3 take and free it, and call 1 still passes the
condition: it is handed the number of call 2, and it stores a smaller counter. -/
theorem stale_take_repeats_number : ¬ ∀ (args : ℕ → Args) (clock : ℕ)
    (table : Table SeqKey Sequence) (s t : State) (xs ys : List Act),
    Run (step args) Timely (initial clock table) xs s → Run (step args) Timely s ys t →
      Distinct args t ∧ NextValueLe s t := by
  intro hall
  obtain ⟨s, t, hs, ht, hp⟩ := exists_runs_of_exec timely_of_check (step oneKey)
    (initial 0 fun _ => none)
    (wholeCall 0 ++ [.find 1, .stamp 1, .check 1] ++ wholeCall 2 ++ wholeCall 3) [.take 1]
    (fun _ t => (t.calls 1).seqNo == some 2 && (t.calls 2).seqNo == some 2)
    (by decide)
  simp only [Bool.and_eq_true, beq_iff_eq] at hp
  exact (hall oneKey 0 _ s t _ _ hs ht).1 1 2 2 2 (by decide) rfl hp.1 hp.2 rfl

end ShimService.SequenceRepo
