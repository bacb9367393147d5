import ShimService.PushNotification.Cursor

/-! Submits that commit while they hold their slot commit in order, ahead of every notifier. -/
namespace ShimService.PushNotifications

open CondTable Transition

variable {submits : ℕ → Submit} {expirationSeconds : ℕ} {s t : State} {a : Act} {xs : List Act}
  {key : SessionKey} {j m c d now : ℕ} {n : Notifier}

/-- No take is stale, and a submit commits before another call has taken its slot over. -/
def HoldsSlot (submits : ℕ → Submit) (expirationSeconds : ℕ) (s : State) : Act → Prop
  | .sequence a => SequenceRepo.FreshTake (sequenceArgs submits) s.sequence a
  | .commit c now _ => ∀ held tables, s.sequence.calls c = .running held →
      submitTransaction (submits c) held.nextValue now expirationSeconds s.tables = .ok tables →
      ∃ row, s.sequence.table (sequenceArgs submits c).key = some row ∧
        row.nextValue = held.nextValue + 1
  | _ => True

/-! The sequence numbers of the submits. -/

theorem fetch_sequence {startAfter upTo : Option ℕ}
    (h : fetch s j key startAfter upTo = some t) : t.sequence = s.sequence := by
  simp only [fetch, Option.ite_none_right_eq_some] at h
  obtain ⟨_, h⟩ := h
  split at h <;> cases h <;> rfl

/-- A step is a step of the submits' `execute` calls, or leaves them alone. -/
theorem sequence_step (hok : HoldsSlot submits expirationSeconds s a)
    (h : step submits expirationSeconds s a = some t) : t.sequence = s.sequence ∨ ∃ b,
      SequenceRepo.FreshTake (sequenceArgs submits) s.sequence b ∧
        SequenceRepo.step (sequenceArgs submits) s.sequence b = some t.sequence := by
  cases step_effect h with
  | @sequence b _ hq => exact .inr ⟨b, hok, hq⟩
  | @committed c _ returned _ _ _ _ hq => exact .inr ⟨.callback c returned, trivial, hq⟩
  | @refused c _ _ returned _ _ _ hq => exact .inr ⟨.callback c returned, trivial, hq⟩
  | fetchFirst _ hfetch | fetchNext _ hfetch => exact .inl (fetch_sequence hfetch)
  | _ => exact .inl rfl

/-- The submits' part of a run is a run of `execute` calls, so their numbers are distinct. -/
theorem submits_distinct {clock : ℕ}
    {sequences : Table SequenceRepo.SeqKey SequenceRepo.Sequence}
    (h : Run (step submits expirationSeconds) (HoldsSlot submits expirationSeconds)
      (initial clock sequences) xs s) :
    SequenceRepo.Distinct (sequenceArgs submits) s.sequence := by
  have hcalls : ∃ bs, Run (SequenceRepo.step (sequenceArgs submits))
      (SequenceRepo.FreshTake (sequenceArgs submits)) (SequenceRepo.initial clock sequences) bs
      s.sequence := h.project (f := State.sequence) fun _ _ _ hok hs => sequence_step hok hs
  obtain ⟨bs, hcalls⟩ := hcalls
  exact (SequenceRepo.inv_run hcalls (SequenceRepo.inv_initial clock sequences)).distinct

/-! What the notifiers know of these numbers. -/

/-- The number is stored, or it is in a context that was read or in what a run has read. -/
def Known (s : State) (key : SessionKey) (m : ℕ) : Prop :=
  (∃ r ∈ (s.tables.notifications key).rows, r.seqNo = m) ∨
    (∃ settings ∈ s.versions key, settings.lastSeqNo = some m) ∨
    ∃ j, m ∈ (s.notifiers j).readNumbers key

/-- The call was handed this number and has left its callback. -/
def Past (s : SequenceRepo.State) (d m : ℕ) : Prop :=
  (s.calls d).seqNo = some m ∧ ∀ held, s.calls d ≠ .running held

/-- Every number known of a session was handed to a call of its tenant that is past its commit. -/
structure Numbered (submits : ℕ → Submit) (s : State) : Prop where
  sequence : SequenceRepo.Inv (sequenceArgs submits) s.sequence
  handed : ∀ key m, Known s key m → ∃ d, Past s.sequence d m ∧
    (submits d).sessionKey.tenantId = key.tenantId

theorem past_setCall {q : SequenceRepo.State} {call : SequenceRepo.Call} (hp : Past q d m)
    (hcall : d = c → call.seqNo = some m ∧ ∀ held, call ≠ .running held) :
    Past (q.setCall c call) d m := by
  by_cases hdc : d = c
  · obtain ⟨hseq, hrunning⟩ := hcall hdc
    exact ⟨by simpa [hdc] using hseq, by simpa [hdc] using hrunning⟩
  · exact ⟨by simpa [hdc] using hp.1, by simpa [hdc] using hp.2⟩

/-- A call that has been handed its number only moves on to its release and its end. -/
theorem past_step {args : ℕ → SequenceRepo.Args} {q u : SequenceRepo.State} {b : SequenceRepo.Act}
    (h : SequenceRepo.step args q b = some u) (hp : Past q d m) : Past u d m := by
  have hnone : ∀ c call, (q.calls c).seqNo = none → Past (q.setCall c call) d m := by
    intro c call hc
    apply past_setCall hp
    rintro rfl
    rw [hp.1] at hc
    cases hc
  cases b with
  | tick millis =>
    cases h
    exact hp
  | find c | stamp c =>
    simp only [SequenceRepo.step] at h
    split at h <;> cases h
    rename_i hc
    exact hnone c _ (by simp [hc])
  | check c =>
    simp only [SequenceRepo.step] at h
    split at h
    · rename_i hc
      split at h <;> cases h <;> exact hnone c _ (by simp [hc])
    · cases h
  | take c =>
    simp only [SequenceRepo.step] at h
    split at h
    · rename_i hc
      split at h <;> cases h <;> exact hnone c _ (by simp [hc])
    · cases h
  | callback c returned =>
    simp only [SequenceRepo.step] at h
    split at h <;> cases h
    rename_i held hc
    apply past_setCall hp
    rintro rfl
    exact absurd hc (hp.2 held)
  | release c =>
    simp only [SequenceRepo.step] at h
    split at h
    · rename_i held returned hc
      have hseq : d = c → held.nextValue = m := by
        rintro rfl
        simpa [hc] using hp.1
      split at h <;> cases h
      · refine past_setCall hp fun hdc => ?_
        cases returned <;> simp [hseq hdc]
      · exact past_setCall hp fun hdc => by simp [hseq hdc]
    · cases h

theorem numbered_initial (clock : ℕ)
    (sequences : Table SequenceRepo.SeqKey SequenceRepo.Sequence) :
    Numbered submits (initial clock sequences) := by
  refine ⟨SequenceRepo.inv_initial clock sequences, ?_⟩
  rintro key m (⟨r, hr, _⟩ | ⟨settings, hmem, _⟩ | ⟨j, hj⟩)
  · cases hr
  · cases hmem
  · cases hj

/-- A step that makes no number known keeps what is known of them. -/
theorem numbered_mono (hi : Numbered submits s) (hsequence : t.sequence = s.sequence)
    (hknown : ∀ key m, Known t key m → Known s key m) : Numbered submits t := by
  refine ⟨hsequence ▸ hi.sequence, ?_⟩
  intro key m hm
  rw [hsequence]
  exact hi.handed key m (hknown key m hm)

theorem known_setNotifier (hn : ∀ key m, m ∈ n.readNumbers key → Known s key m)
    (h : Known (s.setNotifier j n) key m) : Known s key m := by
  rcases h with hrow | hversion | ⟨i, hi⟩
  · exact .inl hrow
  · exact .inr (.inl hversion)
  · rw [State.setNotifier_notifiers] at hi
    split at hi
    · exact hn key m hi
    · exact .inr (.inr ⟨i, hi⟩)

theorem known_fetch {k : SessionKey} {startAfter upTo : Option ℕ}
    (h : fetch s j k startAfter upTo = some t) (hm : Known t key m) : Known s key m := by
  simp only [fetch, Option.ite_none_right_eq_some] at h
  obtain ⟨hupTo, h⟩ := h
  split at h <;> cases h
  · exact known_setNotifier (fun _ _ h => by cases h) hm
  · rename_i record page hpage
    refine known_setNotifier ?_ hm
    intro key m hm
    obtain ⟨rfl, hread⟩ := mem_readNumbers_reading.mp hm
    rcases List.mem_append.mp hread with hrow | hnext
    · rw [← hpage] at hrow
      obtain ⟨r, hr, rfl⟩ := List.mem_map.mp hrow
      exact .inl ⟨r, (Notifications.mem_unsent.mp hr).1, rfl⟩
    · obtain rfl : upTo = some m := by simpa using hnext
      have hstored : ∃ r ∈ (s.tables.notifications k).rows, r.seqNo = m := by simpa using hupTo
      exact .inl hstored

theorem known_sent {k : SessionKey} {record : Notification} {page : List Notification}
    {nextKey : Option ℕ} {tables : Tables}
    (hj : s.notifiers j = .delivered k record page nextKey)
    (htables : setSent k record ⟨some record.seqNo⟩ s.tables = .ok tables)
    (hm : Known ({ s with
      tables := tables
      versions := Function.update s.versions k (⟨some record.seqNo⟩ :: s.versions k)
    }.setNotifier j (.reading k page nextKey)) key m) : Known s key m := by
  obtain ⟨_, hrow⟩ := setSent_ok htables
  have hread : ∀ key, ∀ m ∈ (Notifier.delivered k record page nextKey).readNumbers key,
      Known s key m := by
    intro key m hm
    exact .inr (.inr ⟨j, hj ▸ hm⟩)
  rcases hm with ⟨r, hr, rfl⟩ | ⟨settings, hmem, hlast⟩ | ⟨i, hi⟩
  · obtain ⟨r₀, hr₀, hseq, _⟩ := hrow key r hr
    exact .inl ⟨r₀, hr₀, hseq⟩
  · rcases mem_versions.mp hmem with hold | ⟨rfl, rfl⟩
    · exact .inr (.inl ⟨settings, hold, hlast⟩)
    · obtain rfl : record.seqNo = m := by simpa using hlast
      exact hread key _ (mem_readNumbers_delivered.mpr ⟨rfl, by simp⟩)
  · rw [State.setNotifier_notifiers] at hi
    split at hi
    · exact hread key m (mem_readNumbers_rest hi)
    · exact .inr (.inr ⟨i, hi⟩)

theorem numbered_commit {held : SequenceRepo.Sequence} {sequence : SequenceRepo.State}
    {tables : Tables} {returned : Bool} (hi : Numbered submits s)
    (hc : s.sequence.calls c = .running held)
    (hsequence : SequenceRepo.step (sequenceArgs submits) s.sequence (.callback c returned) =
      some sequence)
    (htables : tables = s.tables ∨ ∃ now expirationSeconds, submitTransaction (submits c)
      held.nextValue now expirationSeconds s.tables = .ok tables) :
    Numbered submits { s with sequence := sequence, tables := tables } := by
  refine ⟨(SequenceRepo.inv_step (a := .callback c returned) trivial hsequence hi.sequence).1, ?_⟩
  have hpast : ∀ key m, Known s key m → ∃ d, Past sequence d m ∧
      (submits d).sessionKey.tenantId = key.tenantId := by
    intro key m hm
    obtain ⟨d, hd, htenant⟩ := hi.handed key m hm
    exact ⟨d, past_step hsequence hd, htenant⟩
  rintro key m (⟨r, hr, rfl⟩ | hversion | hread)
  · rcases htables with rfl | ⟨now, expirationSeconds, htables⟩
    · exact hpast key _ (.inl ⟨r, hr, rfl⟩)
    · obtain ⟨_, hrow⟩ := submitTransaction_ok htables
      rcases hrow key r hr with hold | ⟨rfl, rfl⟩
      · exact hpast key _ (.inl ⟨r, hold, rfl⟩)
      · refine ⟨c, ?_, rfl⟩
        simp only [SequenceRepo.step, hc, Option.some.injEq] at hsequence
        subst hsequence
        simp [Past, newNotification]
  · exact hpast key m (.inr (.inl hversion))
  · exact hpast key m (.inr (.inr hread))

theorem numbered_step (hok : HoldsSlot submits expirationSeconds s a)
    (h : step submits expirationSeconds s a = some t) (hi : Numbered submits s) :
    Numbered submits t := by
  cases step_effect h with
  | sequence hsequence =>
    refine ⟨(SequenceRepo.inv_step hok hsequence hi.sequence).1, ?_⟩
    intro key m hm
    obtain ⟨d, hd, htenant⟩ := hi.handed key m hm
    exact ⟨d, past_step hsequence hd, htenant⟩
  | committed hc hsequence htables =>
    exact numbered_commit hi hc hsequence (.inr ⟨_, _, htables⟩)
  | refused hc hsequence => exact numbered_commit hi hc hsequence (.inl rfl)
  | createContext =>
    refine numbered_mono hi rfl ?_
    rintro k m (hrow | ⟨settings, hmem, hlast⟩ | hread)
    · exact .inl hrow
    · rcases mem_versions.mp hmem with hold | ⟨_, rfl⟩
      · exact .inr (.inl ⟨settings, hold, hlast⟩)
      · cases hlast
    · exact .inr (.inr hread)
  | deleteContext => exact numbered_mono hi rfl fun _ _ hm => hm
  | @load j key settings _ hmem =>
    refine numbered_mono hi rfl fun _ _ => known_setNotifier ?_
    intro k m hm
    obtain ⟨rfl, hlast⟩ := mem_readNumbers_loaded.mp hm
    exact .inr (.inl ⟨settings, hmem, hlast⟩)
  | fetchFirst _ hfetch | fetchNext _ hfetch =>
    exact numbered_mono hi (fetch_sequence hfetch) fun _ _ => known_fetch hfetch
  | @deliver j key record page nextKey hj =>
    refine numbered_mono hi rfl fun _ _ => known_setNotifier (s := { s with delivered := _ }) ?_
    intro k m hm
    obtain ⟨rfl, hread⟩ := mem_readNumbers_delivered.mp hm
    exact .inr (.inr ⟨j, hj ▸ mem_readNumbers_reading.mpr ⟨rfl, hread⟩⟩)
  | sent hj htables => exact numbered_mono hi rfl fun _ _ => known_sent hj htables
  | @unsent j _ _ _ _ _ hj =>
    refine numbered_mono hi rfl fun _ _ => known_setNotifier ?_
    intro k m hm
    exact .inr (.inr ⟨j, hj ▸ mem_readNumbers_rest hm⟩)
  | quit => exact numbered_mono hi rfl fun _ _ => known_setNotifier fun _ _ hm => by cases hm

/-- A number handed out while the slot is still held is larger than every number known. -/
theorem commitsAhead_of_holdsSlot (hi : Numbered submits s)
    (hok : HoldsSlot submits expirationSeconds s a) :
    CommitsAhead submits expirationSeconds s a := by
  cases a <;> try trivial
  case commit c now returned =>
    intro held tables hc htables
    obtain ⟨row, hrow, hnext⟩ := hok held tables hc htables
    have hless : ∀ m, Known s (submits c).sessionKey m → m < held.nextValue := by
      intro m hm
      obtain ⟨d, ⟨hseq, hrunning⟩, htenant⟩ := hi.handed _ m hm
      have hdc : d ≠ c := by
        rintro rfl
        exact hrunning held hc
      have hkey : (sequenceArgs submits d).key = (sequenceArgs submits c).key := by
        simp [sequenceArgs, SequenceRepo.Args.key, htenant]
      have hne : m ≠ held.nextValue :=
        hi.sequence.distinct d c m held.nextValue hdc hkey hseq (by simp [hc])
      obtain ⟨row', hrow', hlt⟩ := hi.sequence.below d m hseq
      rw [hkey, hrow, Option.some.injEq] at hrow'
      subst hrow'
      omega
    constructor
    · intro settings hmem last hlast
      exact hless last (.inr (.inl ⟨settings, hmem, hlast⟩))
    · intro j m hm
      exact hless m (.inr (.inr ⟨j, hm⟩))

/-- Where takes are never stale and no submit commits after another call has taken its slot over,
every commit is ahead of the notifiers. -/
theorem run_commitsAhead {clock : ℕ}
    {sequences : Table SequenceRepo.SeqKey SequenceRepo.Sequence}
    (h : Run (step submits expirationSeconds) (HoldsSlot submits expirationSeconds)
      (initial clock sequences) xs s) :
    Run (step submits expirationSeconds) (CommitsAhead submits expirationSeconds)
      (initial clock sequences) xs s :=
  h.strengthen (fun _ _ _ hok hs hi => numbered_step hok hs hi)
    (fun _ _ hi hok => commitsAhead_of_holdsSlot hi hok) (numbered_initial clock sequences)

end ShimService.PushNotifications
