import ShimService.PushNotification.Processor

/-! The cursor of a session stays behind whatever is undelivered. -/
namespace ShimService.PushNotifications

open CondTable Transition

variable {submits : ℕ → Submit} {expirationSeconds : ℕ} {s t : State} {a : Act} {xs : List Act}
  {key : SessionKey} {j m c now : ℕ} {n : Notifier} {returned : Bool}

/-- A stored notification that was never sent to its device. -/
def Undelivered (s : State) (key : SessionKey) (m : ℕ) : Prop :=
  (∃ r ∈ (s.tables.notifications key).rows, r.seqNo = m) ∧ s.delivered key m = false

def NoneLost (s : State) : Prop := ∀ key settings last m,
  s.tables.contexts key = some settings → settings.lastSeqNo = some last →
    Undelivered s key m → last < m

/-- The numbers a run on the session has read: those of its page and the one it goes on from. -/
def Notifier.readNumbers (key : SessionKey) : Notifier → List ℕ
  | .idle => []
  | .loaded k settings => if k = key then settings.lastSeqNo.toList else []
  | .reading k page nextKey => if k = key then page.map (·.seqNo) ++ nextKey.toList else []
  | .delivered k record page nextKey =>
    if k = key then (record :: page).map (·.seqNo) ++ nextKey.toList else []

section

variable {k : SessionKey} {settings : Settings} {record : Notification}
  {page : List Notification} {nextKey : Option ℕ}

theorem mem_readNumbers_loaded : m ∈ (Notifier.loaded k settings).readNumbers key ↔
    k = key ∧ settings.lastSeqNo = some m := by
  by_cases hk : k = key <;> simp [Notifier.readNumbers, hk]

theorem mem_readNumbers_reading : m ∈ (Notifier.reading k page nextKey).readNumbers key ↔
    k = key ∧ m ∈ page.map (·.seqNo) ++ nextKey.toList := by
  by_cases hk : k = key <;> simp [Notifier.readNumbers, hk]

theorem mem_readNumbers_delivered : m ∈ (Notifier.delivered k record page nextKey).readNumbers key ↔
    k = key ∧ m ∈ (record :: page).map (·.seqNo) ++ nextKey.toList := by
  by_cases hk : k = key <;> simp [Notifier.readNumbers, hk]

/-- A run that is done with a record has read nothing new. -/
theorem mem_readNumbers_rest (h : m ∈ (Notifier.reading k page nextKey).readNumbers key) :
    m ∈ (Notifier.delivered k record page nextKey).readNumbers key := by
  obtain ⟨hk, hm⟩ := mem_readNumbers_reading.mp h
  exact mem_readNumbers_delivered.mpr ⟨hk, List.mem_cons_of_mem _ hm⟩

end

/-- The number is larger than every one that the session's context has held, and than every one
that a run on the session has read. -/
def Ahead (s : State) (key : SessionKey) (seqNo : ℕ) : Prop :=
  (∀ settings ∈ s.versions key, ∀ last, settings.lastSeqNo = some last → last < seqNo) ∧
    ∀ j, ∀ m ∈ (s.notifiers j).readNumbers key, m < seqNo

/-- A submit that commits is ahead of its session's notifier runs. -/
def CommitsAhead (submits : ℕ → Submit) (expirationSeconds : ℕ) (s : State) : Act → Prop
  | .commit c now _ => ∀ held tables, s.sequence.calls c = .running held →
      submitTransaction (submits c) held.nextValue now expirationSeconds s.tables = .ok tables →
      Ahead s (submits c).sessionKey held.nextValue
  | _ => True

/-- What a run has read covers what was undelivered up to there. -/
def Reads (s : State) : Notifier → Prop
  | .idle => True
  | .loaded key settings => settings ∈ s.versions key
  | .reading key page nextKey => page.Pairwise (·.seqNo < ·.seqNo) ∧ ∀ m, Undelivered s key m →
      ∀ b ∈ page.map (·.seqNo) ++ nextKey.toList, m ≤ b → m ∈ page.map (·.seqNo)
  | .delivered key record page nextKey => (record :: page).Pairwise (·.seqNo < ·.seqNo) ∧
      s.delivered key record.seqNo = true ∧ ∀ m, Undelivered s key m →
      ∀ b ∈ (record :: page).map (·.seqNo) ++ nextKey.toList, m ≤ b → m ∈ page.map (·.seqNo)

/-- The settings a context has had once it is given new ones. -/
theorem mem_versions {k : SessionKey} {settings new : Settings} :
    settings ∈ Function.update s.versions key (new :: s.versions key) k ↔
      settings ∈ s.versions k ∨ k = key ∧ settings = new := by
  by_cases hk : k = key
  · subst hk
    simp [or_comm]
  · simp [hk]

structure Kept (s : State) : Prop where
  current : ∀ key settings, s.tables.contexts key = some settings → settings ∈ s.versions key
  behind : ∀ key settings last m, settings ∈ s.versions key → settings.lastSeqNo = some last →
    Undelivered s key m → last < m
  sent : ∀ key r, r ∈ (s.tables.notifications key).rows → r.sent = true →
    s.delivered key r.seqNo = true
  reads : ∀ j, Reads s (s.notifiers j)

theorem kept_initial (clock : ℕ) (sequences : Table SequenceRepo.SeqKey SequenceRepo.Sequence) :
    Kept (initial clock sequences) := by
  refine ⟨?_, ?_, ?_, fun _ => trivial⟩
  · intro key settings h
    cases h
  · intro key settings last m h
    cases h
  · intro key r h
    cases h

/-- A run still covers what is undelivered where nothing new is, but past what the run has read. -/
theorem reads_mono (h : Reads s n)
    (hversions : ∀ key settings, settings ∈ s.versions key → settings ∈ t.versions key)
    (hdelivered : ∀ key m, s.delivered key m = true → t.delivered key m = true)
    (hnew : ∀ key m, Undelivered t key m → Undelivered s key m ∨ ∀ b ∈ n.readNumbers key, b < m) :
    Reads t n := by
  cases n with
  | idle => trivial
  | loaded key settings => exact hversions key settings h
  | reading key page nextKey =>
    refine ⟨h.1, ?_⟩
    intro m hm b hb hle
    rcases hnew key m hm with hold | hpast
    · exact h.2 m hold b hb hle
    · have hbelow := hpast b (mem_readNumbers_reading.mpr ⟨rfl, hb⟩)
      omega
  | delivered key record page nextKey =>
    refine ⟨h.1, hdelivered _ _ h.2.1, ?_⟩
    intro m hm b hb hle
    rcases hnew key m hm with hold | hpast
    · exact h.2.2 m hold b hb hle
    · have hbelow := hpast b (mem_readNumbers_delivered.mpr ⟨rfl, hb⟩)
      omega

theorem kept_setNotifier (j : ℕ) (hi : Kept s) (hn : Reads s n) : Kept (s.setNotifier j n) := by
  refine ⟨hi.current, hi.behind, hi.sent, ?_⟩
  intro i
  have hkept : ∀ n', Reads s n' → Reads (s.setNotifier j n) n' := fun n' h =>
    reads_mono h (fun _ _ h => h) (fun _ _ h => h) fun _ _ h => .inl h
  rw [State.setNotifier_notifiers]
  split
  · exact hkept n hn
  · exact hkept _ (hi.reads i)

theorem kept_sequence (hi : Kept s) (sequence : SequenceRepo.State) :
    Kept { s with sequence := sequence } :=
  ⟨hi.current, hi.behind, hi.sent, fun j => reads_mono (hi.reads j) (fun _ _ h => h)
    (fun _ _ h => h) fun _ _ h => .inl h⟩

theorem kept_committed {tables : Tables} {seqNo : ℕ} {sequence : SequenceRepo.State}
    (hi : Kept s) (hahead : Ahead s (submits c).sessionKey seqNo)
    (htables : submitTransaction (submits c) seqNo now expirationSeconds s.tables = .ok tables) :
    Kept { s with sequence := sequence, tables := tables } := by
  obtain ⟨hcontexts, hrow⟩ := submitTransaction_ok htables
  have hnew : ∀ key m,
      Undelivered { s with sequence := sequence, tables := tables } key m →
      Undelivered s key m ∨ key = (submits c).sessionKey ∧ m = seqNo := by
    rintro key m ⟨⟨r, hr, rfl⟩, hdelivered⟩
    rcases hrow key r hr with hold | ⟨hkey, hnew⟩
    · exact .inl ⟨⟨r, hold, rfl⟩, hdelivered⟩
    · exact .inr ⟨hkey, by simp [hnew, newNotification]⟩
  refine ⟨?_, ?_, ?_, ?_⟩
  · intro key settings h
    exact hi.current key settings (by simpa [hcontexts] using h)
  · intro key settings last m hmem hlast hm
    rcases hnew key m hm with hold | ⟨rfl, rfl⟩
    · exact hi.behind key settings last m hmem hlast hold
    · exact hahead.1 settings hmem last hlast
  · intro key r hr hsent
    rcases hrow key r hr with hold | ⟨_, hnew⟩
    · exact hi.sent key r hold hsent
    · simp [hnew, newNotification] at hsent
  · intro j
    refine reads_mono (hi.reads j) (fun _ _ h => h) (fun _ _ h => h) ?_
    intro key m hm
    rcases hnew key m hm with hold | ⟨rfl, rfl⟩
    · exact .inl hold
    · exact .inr (hahead.2 j)

/-- A page after a number that lies behind everything undelivered covers what is undelivered. -/
theorem kept_fetch {startAfter upTo : Option ℕ} (hi : Kept s)
    (hbehind : ∀ last m, startAfter = some last → Undelivered s key m → last < m)
    (h : fetch s j key startAfter upTo = some t) : Kept t := by
  simp only [fetch, Option.ite_none_right_eq_some] at h
  obtain ⟨_, h⟩ := h
  split at h <;> cases h
  · exact kept_setNotifier j hi trivial
  · rename_i record page hpage
    refine kept_setNotifier j hi ⟨?_, ?_⟩
    · rw [← hpage]
      exact (s.tables.notifications key).sorted.filter _
    · rw [← hpage]
      intro m hm b hb hle
      obtain ⟨⟨r, hr, rfl⟩, hdelivered⟩ := hm
      have hunsent : r.sent = false := by
        by_contra hsent
        simp [hi.sent key r hr (by simpa using hsent)] at hdelivered
      have hupTo : ∀ p, upTo = some p → r.seqNo ≤ p := by
        rintro p rfl
        rcases List.mem_append.mp hb with hb | hb
        · obtain ⟨r', hr', rfl⟩ := List.mem_map.mp hb
          exact hle.trans ((Notifications.mem_unsent.mp hr').2.2.1 p rfl)
        · obtain rfl : b = p := by simpa using hb
          exact hle
      refine List.mem_map.mpr ⟨r, Notifications.mem_unsent.mpr ⟨hr, ?_, hupTo, hunsent⟩, rfl⟩
      intro p hp
      exact hbehind p _ hp ⟨⟨r, hr, rfl⟩, hdelivered⟩

theorem kept_deliver {record : Notification} {page : List Notification} {nextKey : Option ℕ}
    (hi : Kept s) (hj : s.notifiers j = .reading key (record :: page) nextKey) :
    Kept ({ s with
      delivered := Function.update s.delivered key
        (Function.update (s.delivered key) record.seqNo true)
    }.setNotifier j (.delivered key record page nextKey)) := by
  have hmono : ∀ k m, s.delivered k m = true → Function.update s.delivered key
      (Function.update (s.delivered key) record.seqNo true) k m = true := by
    intro k m hm
    by_cases hk : k = key
    · subst hk
      by_cases hm' : m = record.seqNo <;> simp [hm', hm]
    · simp [hk, hm]
  have hself : Function.update s.delivered key
      (Function.update (s.delivered key) record.seqNo true) key record.seqNo = true := by simp
  generalize Function.update s.delivered key
    (Function.update (s.delivered key) record.seqNo true) = delivered at hmono hself ⊢
  have hold : ∀ k m, Undelivered { s with delivered := delivered } k m → Undelivered s k m := by
    rintro k m ⟨hr, hm⟩
    refine ⟨hr, ?_⟩
    by_contra hnot
    simp [hmono k m (by simpa using hnot)] at hm
  have hpage := hi.reads j
  rw [hj] at hpage
  refine kept_setNotifier j ⟨hi.current, ?_, ?_, ?_⟩ ⟨hpage.1, hself, ?_⟩
  · intro k settings last m hmem hlast hm
    exact hi.behind k settings last m hmem hlast (hold k m hm)
  · intro k r hr hsent
    exact hmono k _ (hi.sent k r hr hsent)
  · intro i
    exact reads_mono (hi.reads i) (fun _ _ h => h) hmono fun k m hm => .inl (hold k m hm)
  · intro m hm b hb hle
    rcases List.mem_cons.mp (hpage.2 m (hold key m hm) b hb hle) with rfl | hrest
    · simp [Undelivered, hself] at hm
    · exact hrest

/-- The cursor moves to a record behind which everything is delivered. -/
theorem kept_sent {record : Notification} {page : List Notification} {nextKey : Option ℕ}
    {tables : Tables} (hi : Kept s) (hj : s.notifiers j = .delivered key record page nextKey)
    (htables : setSent key record ⟨some record.seqNo⟩ s.tables = .ok tables) :
    Kept ({ s with
      tables := tables
      versions := Function.update s.versions key (⟨some record.seqNo⟩ :: s.versions key)
    }.setNotifier j (.reading key page nextKey)) := by
  obtain ⟨hcontexts, hrow⟩ := setSent_ok htables
  have hread := hi.reads j
  rw [hj] at hread
  obtain ⟨hsorted, hdelivered, hcovers⟩ := hread
  have hversions : ∀ k settings, settings ∈ s.versions k → settings ∈ Function.update s.versions
      key (⟨some record.seqNo⟩ :: s.versions key) k :=
    fun _ _ hmem => mem_versions.mpr (.inl hmem)
  have hold : ∀ k m, Undelivered { s with
      tables := tables
      versions := Function.update s.versions key (⟨some record.seqNo⟩ :: s.versions key) } k m →
      Undelivered s k m := by
    rintro k m ⟨⟨r, hr, rfl⟩, hm⟩
    obtain ⟨r₀, hr₀, hseq, _⟩ := hrow k r hr
    exact ⟨⟨r₀, hr₀, hseq⟩, hm⟩
  refine kept_setNotifier j ⟨?_, ?_, ?_, ?_⟩ ⟨(List.pairwise_cons.mp hsorted).2, ?_⟩
  · intro k settings h
    rw [hcontexts] at h
    rcases Table.update_eq_some.mp h with ⟨rfl, rfl⟩ | ⟨_, hkept⟩
    · exact mem_versions.mpr (.inr ⟨rfl, rfl⟩)
    · exact hversions k settings (hi.current k settings hkept)
  · intro k settings last m hmem hlast hm
    have hm₀ := hold k m hm
    rcases mem_versions.mp hmem with hmem | ⟨rfl, rfl⟩
    · exact hi.behind k settings last m hmem hlast hm₀
    · -- The page covers what is undelivered up to the record, and all of it lies after it.
      obtain rfl : record.seqNo = last := by simpa using hlast
      by_contra hle
      have hpage := hcovers m hm₀ record.seqNo (by simp) (by omega)
      obtain ⟨r, hr, rfl⟩ := List.mem_map.mp hpage
      exact hle ((List.pairwise_cons.mp hsorted).1 r hr)
  · intro k r hr hsent
    obtain ⟨r₀, hr₀, hseq, hwas⟩ := hrow k r hr
    rcases hwas hsent with hsent₀ | ⟨rfl, hrecord⟩
    · exact hseq ▸ hi.sent k r₀ hr₀ hsent₀
    · exact hrecord ▸ hdelivered
  · intro i
    exact reads_mono (hi.reads i) hversions (fun _ _ h => h) fun k m hm => .inl (hold k m hm)
  · intro m hm b hb hle
    exact hcovers m (hold key m hm) b (by simp at hb ⊢; exact .inr hb) hle

/-- A refused `set_sent` leaves the cursor where it was. -/
theorem kept_refused {record : Notification} {page : List Notification} {nextKey : Option ℕ}
    (hi : Kept s) (hj : s.notifiers j = .delivered key record page nextKey) :
    Kept (s.setNotifier j (.reading key page nextKey)) := by
  have hread := hi.reads j
  rw [hj] at hread
  refine kept_setNotifier j hi ⟨(List.pairwise_cons.mp hread.1).2, ?_⟩
  intro m hm b hb hle
  exact hread.2.2 m hm b (by simp at hb ⊢; exact .inr hb) hle

theorem kept_contexts {contexts : Table SessionKey Settings} {versions : SessionKey → List Settings}
    (hi : Kept s) (hmono : ∀ k settings, settings ∈ s.versions k → settings ∈ versions k)
    (hcurrent : ∀ k settings, contexts k = some settings → settings ∈ versions k)
    (hnew : ∀ k settings, settings ∈ versions k → settings ∈ s.versions k ∨
      settings.lastSeqNo = none) :
    Kept { s with tables := { s.tables with contexts := contexts }, versions := versions } := by
  refine ⟨hcurrent, ?_, hi.sent, ?_⟩
  · intro k settings last m hmem hlast hm
    rcases hnew k settings hmem with hold | hnone
    · exact hi.behind k settings last m hold hlast hm
    · simp [hnone] at hlast
  · intro i
    exact reads_mono (hi.reads i) hmono (fun _ _ h => h) fun _ _ hm => .inl hm

theorem kept_step (hok : CommitsAhead submits expirationSeconds s a)
    (h : step submits expirationSeconds s a = some t) (hi : Kept s) : Kept t := by
  cases step_effect h with
  | @sequence a sequence => exact kept_sequence hi sequence
  | @committed c now returned held sequence tables hc _ htables =>
    exact kept_committed hi (hok held tables hc htables) htables
  | @refused c now index returned held sequence => exact kept_sequence hi sequence
  | @createContext key =>
    apply kept_contexts hi
    · intro k settings hmem
      exact mem_versions.mpr (.inl hmem)
    · intro k settings hk
      rcases Table.update_eq_some.mp hk with ⟨rfl, rfl⟩ | ⟨_, hkept⟩
      · exact mem_versions.mpr (.inr ⟨rfl, rfl⟩)
      · exact mem_versions.mpr (.inl (hi.current k settings hkept))
    · intro k settings hmem
      rcases mem_versions.mp hmem with hold | ⟨_, rfl⟩
      · exact .inl hold
      · exact .inr rfl
  | deleteContext =>
    refine kept_contexts hi (fun _ _ h => h) ?_ fun _ _ h => .inl h
    intro k settings hk
    simp only [Table.remove_apply] at hk
    split at hk
    · cases hk
    · exact hi.current k settings hk
  | @load j key settings _ hread => exact kept_setNotifier j hi hread
  | @fetchFirst j upTo key settings _ hj hfetch =>
    have hread := hi.reads j
    rw [hj] at hread
    exact kept_fetch hi (fun last m hlast hm => hi.behind key settings last m hread hlast hm)
      hfetch
  | @fetchNext j nextKey upTo key _ hj hfetch =>
    have hread := hi.reads j
    rw [hj] at hread
    refine kept_fetch hi ?_ hfetch
    intro last m hlast hm
    by_contra hle
    have := hread.2 m hm nextKey (by simp) (by simp at hlast; omega)
    simp at this
  | deliver hj => exact kept_deliver hi hj
  | sent hj htables => exact kept_sent hi hj htables
  | unsent hj => exact kept_refused hi hj
  | @quit j => exact kept_setNotifier j hi trivial

theorem kept_run {clock : ℕ} {sequences : Table SequenceRepo.SeqKey SequenceRepo.Sequence}
    (h : Run (step submits expirationSeconds) (CommitsAhead submits expirationSeconds)
      (initial clock sequences) xs s) : Kept s :=
  h.invariant (fun _ _ _ hok hs hi => kept_step hok hs hi) (kept_initial clock sequences)

theorem noneLost_of_kept (hi : Kept s) : NoneLost s := by
  intro key settings last m hcontext hlast hm
  exact hi.behind key settings last m (hi.current key settings hcontext) hlast hm

end ShimService.PushNotifications
