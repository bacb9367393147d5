import ShimService.ResourceLock.TryAcquire

/-! Mutual exclusion of the resource lock, and the re-creating refresh that breaks it. -/
namespace ShimService.ResourceLockRepo

open CondTable AbstractAwsRepo Transition

variable {args : ℕ → Args} {s t : State} {a : Act} {xs : List Act} {c d : ℕ} {target : ℕ}

/-- No two clients have unreleased handles of one name with a `timeout_at` not yet past. -/
def MutualExclusion (args : ℕ → Args) (s : State) : Prop :=
  ∀ c d m n, c ≠ d → (args c).name = (args d).name →
    (s.clients c).handle = some m → (s.clients d).handle = some n →
      ¬ (s.now ≤ m ∧ s.now ≤ n)

/-- A record that a step of a handle's refresh or release changes was written by its client. -/
def OwnRecords (s : State) (a : Act) (t : State) : Prop :=
  ∀ c n name row, (s.clients c).handle = some n → a = .next c ∨ a = .release c →
    s.table name = some row → t.table name ≠ some row → s.writer name = some c

/-- The `timeout_at` that a client's next step gives its handle, where the stored record meets
the condition of its write. -/
def grant (args : ℕ → Args) (s : State) (c : ℕ) : Option ℕ :=
  match s.clients c with
  | .creating _ _ target | .recreating target | .refreshCreating _ target =>
    if s.table (args c).name = none then some target else none
  | .takingOver _ current target =>
    if (s.table (args c).name).map LocalDto.timeoutAt = some current.timeoutAt then some target
    else none
  | .refreshing timeoutAt target =>
    if (s.table (args c).name).map LocalDto.timeoutAt = some timeoutAt then some target else none
  | _ => none

/-- A refresh puts a missing record back only with the expiry it had. -/
def SameExpiry (args : ℕ → Args) (s : State) : Act → Prop
  | .next c => ∀ timeoutAt target, s.clients c = .refreshCreating timeoutAt target →
      s.table (args c).name = none → timeoutAt = target
  | _ => True

/-- No handle is given the `timeout_at` of another client's unreleased handle of the name. -/
def NotTaken (args : ℕ → Args) (s : State) : Act → Prop
  | .next c => ∀ target d, grant args s c = some target → d ≠ c →
      (args d).name = (args c).name → (s.clients d).handle ≠ some target
  | _ => True

/-- The clock an attempt has read is not ahead, and the record it takes over has expired. -/
def Client.Sane (now : ℕ) : Client → Prop
  | .stamped _ n | .creating _ n _ | .finding _ n _ => n ≤ now
  | .takingOver _ current _ => current.timeoutAt < now
  | _ => True

theorem Client.Sane.mono {m n : ℕ} {client : Client} (h : client.Sane m) (hmn : m ≤ n) :
    client.Sane n := by
  cases client <;> simp_all [Client.Sane] <;> omega

theorem sane_retry (n tries : ℕ) : (Client.retry tries).Sane n := by
  unfold Client.retry
  split <;> trivial

theorem handle_retry (tries : ℕ) : (Client.retry tries).handle = none := by
  unfold Client.retry
  split <;> rfl

/-- What a step does to the lock table and to the handles. -/
inductive Effect (args : ℕ → Args) (s : State) (a : Act) (t : State) : Prop where
  | ticked (millis : ℕ) (ht : t = { s with clock := s.clock + millis })
  | moved (c : ℕ) (client : Client) (ha : a.client = some c) (ht : t = s.setClient c client)
      (hhandle : client.handle = none ∨ client.handle = (s.clients c).handle)
      (hsane : (s.clients c).Sane s.now → client.Sane s.now)
  | granted (c stored target : ℕ) (ha : a = .next c) (hgrant : grant args s c = some target)
      (hstored : stored = target ∨ s.clients c = .refreshCreating stored target)
      (ht : t = (s.wrote c (args c).name (Function.update s.table (args c).name
        (some ⟨stored⟩))).setClient c (.held target))
  | freed (c timeoutAt : ℕ) (ha : a = .release c) (hc : s.clients c = .held timeoutAt)
      (hrow : s.table (args c).name = some ⟨timeoutAt⟩)
      (ht : t = (s.setTable (Function.update s.table (args c).name none)).setClient c
        (.released true))

theorem createStep_effect {stored : ℕ} {otherwise : Client}
    (hgrant : s.table (args c).name = none → grant args s c = some target)
    (hstored : stored = target ∨ s.clients c = .refreshCreating stored target)
    (hhandle : otherwise.handle = none ∨ otherwise.handle = (s.clients c).handle)
    (hsane : (s.clients c).Sane s.now → otherwise.Sane s.now) :
    Effect args s (.next c) (createStep args s c ⟨stored⟩ (.held target) otherwise) := by
  unfold createStep
  split
  · rename_i table hw
    obtain ⟨hnone, rfl⟩ := create_eq_some.mp hw
    exact .granted c stored target rfl (hgrant hnone) hstored rfl
  · exact .moved c otherwise rfl rfl hhandle hsane

theorem patchStep_effect {dto : LocalDto} {otherwise : Client}
    (hgrant : (s.table (args c).name).map LocalDto.timeoutAt = some dto.timeoutAt →
      grant args s c = some target)
    (hhandle : otherwise.handle = none ∨ otherwise.handle = (s.clients c).handle)
    (hsane : (s.clients c).Sane s.now → otherwise.Sane s.now) :
    Effect args s (.next c) (patchStep args s c dto target otherwise) := by
  unfold patchStep
  split
  · rename_i table hw
    obtain ⟨row, hrow, hcond, rfl⟩ := patchWithCondition_eq_some.mp hw
    exact .granted c target target rfl (hgrant (by simp [hrow, hcond])) (.inl rfl) rfl
  · exact .moved c otherwise rfl rfl hhandle hsane

theorem nextStep_effect (h : nextStep args s c = some t) : Effect args s (.next c) t := by
  unfold nextStep at h
  split at h
  · split at h <;> cases h
    · exact .moved c _ rfl rfl (.inl rfl) fun _ => le_rfl
    · exact .moved c _ rfl rfl (.inl rfl) fun _ => trivial
  · rename_i tries now hc
    cases h
    exact .moved c _ rfl rfl (.inl rfl) fun hs => by simpa [hc, Client.Sane] using hs
  · rename_i tries now target hc
    cases h
    exact createStep_effect (by simp_all [grant]) (.inl rfl) (.inl rfl) (by simp [hc, Client.Sane])
  · rename_i tries now target hc
    split at h
    · cases h
      exact .moved c _ rfl rfl (.inl rfl) fun _ => trivial
    · rename_i current hfind
      split at h <;> cases h
      · exact .moved c _ rfl rfl (.inl rfl) fun _ => trivial
      · refine .moved c _ rfl rfl (.inl rfl) fun hs => ?_
        simp only [hc, Client.Sane] at hs ⊢
        omega
  · rename_i target hc
    cases h
    exact createStep_effect (by simp_all [grant]) (.inl rfl) (.inl rfl) fun _ => trivial
  · rename_i tries current target hc
    cases h
    exact patchStep_effect (by simp_all [grant]) (.inl (handle_retry _)) fun _ => sane_retry _ _
  · rename_i timeoutAt target hc
    cases h
    exact patchStep_effect (by simp_all [grant]) (.inr (by simp [hc, Client.handle]))
      fun _ => trivial
  · rename_i timeoutAt target hc
    cases h
    exact createStep_effect (by simp_all [grant]) (.inr hc) (.inr (by simp [hc, Client.handle]))
      fun _ => trivial
  · cases h

theorem step_effect (h : step args s a = some t) : Effect args s a t := by
  cases a with
  | tick millis =>
    obtain rfl := Option.some.inj h
    exact .ticked millis rfl
  | acquire c =>
    simp only [step] at h
    split at h <;> cases h <;> exact .moved c _ rfl rfl (.inl rfl) fun _ => trivial
  | next c => exact nextStep_effect h
  | refresh c =>
    simp only [step] at h
    split at h <;> cases h
    rename_i timeoutAt hc
    exact .moved c _ rfl rfl (.inr (by simp [hc, Client.handle])) fun _ => trivial
  | release c =>
    simp only [step] at h
    split at h
    · rename_i timeoutAt hc
      split at h <;> cases h
      · rename_i table hw
        obtain ⟨⟨n⟩, hrow, hcond, rfl⟩ := deleteWithCondition_eq_some.mp hw
        obtain rfl : n = timeoutAt := hcond
        exact .freed c n rfl hc hrow rfl
      · exact .moved c _ rfl rfl (.inl rfl) fun _ => trivial
    · cases h

theorem step_other_client (h : step args s a = some t) (hd : a.client ≠ some d) :
    t.clients d = s.clients d := by
  cases step_effect h with
  | ticked millis ht => simp [ht]
  | moved c client ha ht =>
    have hdc : d ≠ c := fun hdc => hd (hdc ▸ ha)
    simp [ht, hdc]
  | granted c stored target ha _ _ ht =>
    have hdc : d ≠ c := fun hdc => hd (by simp [ha, Act.client, hdc])
    simp [ht, hdc]
  | freed c timeoutAt ha _ _ ht =>
    have hdc : d ≠ c := fun hdc => hd (by simp [ha, Act.client, hdc])
    simp [ht, hdc]

/-- A handle not yet past is the stored record, and two clients share only a past expiry. -/
structure Inv (args : ℕ → Args) (s : State) : Prop where
  sane : ∀ c, (s.clients c).Sane s.now
  stored : ∀ c n, (s.clients c).handle = some n → s.now ≤ n → s.table (args c).name = some ⟨n⟩
  apart : ∀ c d n, c ≠ d → (args c).name = (args d).name →
    (s.clients c).handle = some n → (s.clients d).handle = some n → n < s.now

theorem inv_initial (clock : ℕ) (table : Table String LocalDto) :
    Inv args (initial clock table) := by
  refine ⟨fun _ => trivial, ?_, ?_⟩
  · intro c n h
    simp [initial, Client.handle] at h
  · intro c d n _ _ h
    simp [initial, Client.handle] at h

/-- While one client's write is about to pass, no other handle of the name is still valid. -/
theorem lt_now_of_grant (hi : Inv args s) (hg : grant args s c = some target) {n : ℕ}
    (hd : d ≠ c) (hname : (args d).name = (args c).name)
    (hn : (s.clients d).handle = some n) : n < s.now := by
  by_contra hlt
  have hrow := hi.stored d n hn (by omega)
  rw [hname] at hrow
  unfold grant at hg
  split at hg
  all_goals simp only [hrow, reduceCtorEq, if_false, Option.map_some, Option.some.injEq] at hg
  · rename_i tries current target hc
    have hs := hi.sane c
    simp only [hc, Client.Sane] at hs
    split at hg <;> simp_all
  · rename_i timeoutAt target hc
    split at hg
    · have := hi.apart d c n hd hname hn (by simp_all [Client.handle])
      omega
    · cases hg

theorem inv_ticked (hi : Inv args s) (millis : ℕ) :
    Inv args { s with clock := s.clock + millis } := by
  have hnow : s.now ≤ ({ s with clock := s.clock + millis } : State).now :=
    system_time_mono (Nat.le_add_right _ _)
  refine ⟨fun c => (hi.sane c).mono hnow, ?_, ?_⟩
  · intro c n hn hle
    exact hi.stored c n hn (hnow.trans hle)
  · intro c d n hcd hname hc hd
    exact (hi.apart c d n hcd hname hc hd).trans_le hnow

/-- The handles after a client lets go of its own or keeps it. -/
theorem handle_of_moved {client : Client} {n : ℕ}
    (hhandle : client.handle = none ∨ client.handle = (s.clients c).handle)
    (h : ((s.setClient c client).clients d).handle = some n) : (s.clients d).handle = some n := by
  by_cases hd : d = c
  · subst d
    simp only [State.setClient_clients, if_true] at h
    rcases hhandle with hnone | heq
    · simp [hnone] at h
    · exact heq ▸ h
  · simpa [hd] using h

theorem sane_setClient {client : Client} (hs : ∀ d, (s.clients d).Sane s.now)
    (hc : client.Sane s.now) (d : ℕ) :
    ((s.setClient c client).clients d).Sane (s.setClient c client).now := by
  by_cases hd : d = c
  · subst d
    simpa using hc
  · simpa [hd] using hs d

theorem inv_moved {client : Client} (hi : Inv args s)
    (hhandle : client.handle = none ∨ client.handle = (s.clients c).handle)
    (hsane : (s.clients c).Sane s.now → client.Sane s.now) :
    Inv args (s.setClient c client) := by
  refine ⟨sane_setClient hi.sane (hsane (hi.sane c)), ?_, ?_⟩
  · intro d n hn hle
    exact hi.stored d n (handle_of_moved hhandle hn) hle
  · intro d e n hde hname hd he
    exact hi.apart d e n hde hname (handle_of_moved hhandle hd) (handle_of_moved hhandle he)

/-- The handles after a client is given one. -/
theorem handle_of_granted {name : String} {table : Table String LocalDto} {n : ℕ}
    (h : (((s.wrote c name table).setClient c (.held target)).clients d).handle = some n) :
    d = c ∧ n = target ∨ d ≠ c ∧ (s.clients d).handle = some n := by
  by_cases hd : d = c
  · subst d
    exact .inl ⟨rfl, by simpa [Client.handle, eq_comm] using h⟩
  · exact .inr ⟨hd, by simpa [hd] using h⟩

theorem inv_granted (hi : Inv args s) (hg : grant args s c = some target) :
    Inv args ((s.wrote c (args c).name (Function.update s.table (args c).name
      (some ⟨target⟩))).setClient c (.held target)) := by
  refine ⟨sane_setClient hi.sane trivial, ?_, ?_⟩
  · intro d n hn hle
    rcases handle_of_granted hn with ⟨rfl, rfl⟩ | ⟨hd, hn⟩
    · simp
    · have hname : (args d).name ≠ (args c).name := by
        intro hname
        have := lt_now_of_grant hi hg hd hname hn
        simp at hle
        omega
      simpa [hname] using hi.stored d n hn hle
  · intro d e n hde hname hd he
    rcases handle_of_granted hd with ⟨rfl, rfl⟩ | ⟨hdc, hd'⟩
    · rcases handle_of_granted he with ⟨rfl, _⟩ | ⟨hec, he'⟩
      · exact (hde rfl).elim
      · exact lt_now_of_grant hi hg hec hname.symm he'
    · rcases handle_of_granted he with ⟨rfl, rfl⟩ | ⟨hec, he'⟩
      · exact lt_now_of_grant hi hg hdc hname hd'
      · exact hi.apart d e n hde hname hd' he'

theorem handle_of_freed {table : Table String LocalDto} {n : ℕ}
    (h : (((s.setTable table).setClient c (.released true)).clients d).handle = some n) :
    d ≠ c ∧ (s.clients d).handle = some n := by
  by_cases hd : d = c
  · simp [hd, Client.handle] at h
  · exact ⟨hd, by simpa [hd] using h⟩

theorem inv_freed {timeoutAt : ℕ} (hi : Inv args s) (hc : s.clients c = .held timeoutAt)
    (hrow : s.table (args c).name = some ⟨timeoutAt⟩) :
    Inv args ((s.setTable (Function.update s.table (args c).name none)).setClient c
      (.released true)) := by
  refine ⟨sane_setClient hi.sane trivial, ?_, ?_⟩
  · intro d n hn hle
    obtain ⟨hd, hn⟩ := handle_of_freed hn
    have hname : (args d).name ≠ (args c).name := by
      intro hname
      have heq := hi.stored d n hn hle
      rw [hname, hrow, Option.some.injEq, LocalDto.mk.injEq] at heq
      have := hi.apart d c n hd hname hn (by simp [hc, Client.handle, heq])
      exact absurd hle (Nat.not_le.mpr this)
    simpa [hname] using hi.stored d n hn hle
  · intro d e n hde hname hd he
    exact hi.apart d e n hde hname (handle_of_freed hd).2 (handle_of_freed he).2

theorem inv_step (hok : SameExpiry args s a) (h : step args s a = some t) (hi : Inv args s) :
    Inv args t := by
  cases step_effect h with
  | ticked millis ht => exact ht ▸ inv_ticked hi millis
  | moved c client _ ht hhandle hsane => exact ht ▸ inv_moved hi hhandle hsane
  | granted c stored target ha hgrant hstored ht =>
    obtain rfl : stored = target := by
      rcases hstored with heq | hc
      · exact heq
      · subst a
        apply hok stored target hc
        by_contra hrow
        simp [grant, hc, hrow] at hgrant
    exact ht ▸ inv_granted hi hgrant
  | freed c timeoutAt ha hc hrow ht => exact ht ▸ inv_freed hi hc hrow

theorem inv_run (h : Run (step args) (SameExpiry args) s xs t) (hi : Inv args s) : Inv args t :=
  h.invariant (fun _ _ _ hok hs hi => inv_step hok hs hi) hi

theorem mutualExclusion_of_inv (hi : Inv args s) : MutualExclusion args s := by
  rintro c d m n hcd hname hm hn ⟨hle, hle'⟩
  have hrow := hi.stored c m hm hle
  rw [hname, hi.stored d n hn hle', Option.some.injEq, LocalDto.mk.injEq] at hrow
  subst hrow
  have := hi.apart c d n hcd hname hm hn
  omega

/-- Handles of one name differ in their `timeout_at`, which so tells whose the record is. -/
structure Owned (args : ℕ → Args) (s : State) : Prop where
  distinct : ∀ c d n, c ≠ d → (args c).name = (args d).name →
    (s.clients c).handle = some n → (s.clients d).handle ≠ some n
  own : ∀ c n, (s.clients c).handle = some n → s.table (args c).name = some ⟨n⟩ →
    s.writer (args c).name = some c

theorem owned_initial (clock : ℕ) (table : Table String LocalDto) :
    Owned args (initial clock table) := by
  constructor
  · intro c d n _ _ h
    simp [initial, Client.handle] at h
  · intro c n h
    simp [initial, Client.handle] at h

theorem owned_granted {stored : ℕ} (ho : Owned args s)
    (hfree : ∀ d, d ≠ c → (args d).name = (args c).name → (s.clients d).handle ≠ some target)
    (hstored : stored = target ∨ s.clients c = .refreshCreating stored target) :
    Owned args ((s.wrote c (args c).name (Function.update s.table (args c).name
      (some ⟨stored⟩))).setClient c (.held target)) := by
  constructor
  · intro d e n hde hname hd he
    rcases handle_of_granted hd with ⟨rfl, rfl⟩ | ⟨hdc, hd'⟩
    · rcases handle_of_granted he with ⟨rfl, _⟩ | ⟨hec, he'⟩
      · exact hde rfl
      · exact hfree e hec hname.symm he'
    · rcases handle_of_granted he with ⟨rfl, rfl⟩ | ⟨hec, he'⟩
      · exact hfree d hdc hname hd'
      · exact ho.distinct d e n hde hname hd' he'
  · intro d n hd hrow
    rcases handle_of_granted hd with ⟨rfl, rfl⟩ | ⟨hdc, hd'⟩
    · simp
    · by_cases hname : (args d).name = (args c).name
      · -- The record just written carries neither this handle's expiry nor shares it with `c`.
        obtain rfl : stored = n := by simpa [hname] using hrow
        rcases hstored with rfl | hc
        · exact (hfree d hdc hname hd').elim
        · exact (ho.distinct d c stored hdc hname hd' (by simp [hc, Client.handle])).elim
      · have hrow' : s.table (args d).name = some ⟨n⟩ := by simpa [hname] using hrow
        simpa [hname] using ho.own d n hd' hrow'

theorem owned_step (hok : NotTaken args s a) (h : step args s a = some t) (ho : Owned args s) :
    Owned args t := by
  cases step_effect h with
  | ticked millis ht => exact ht ▸ ⟨ho.distinct, ho.own⟩
  | moved c client _ ht hhandle hsane =>
    subst t
    constructor
    · intro d e n hde hname hd he
      exact ho.distinct d e n hde hname (handle_of_moved hhandle hd) (handle_of_moved hhandle he)
    · intro d n hd hrow
      exact ho.own d n (handle_of_moved hhandle hd) hrow
  | granted c stored target ha hgrant hstored ht =>
    subst a
    exact ht ▸ owned_granted ho (fun d => hok target d hgrant) hstored
  | freed c timeoutAt ha hc hrow ht =>
    subst t
    constructor
    · intro d e n hde hname hd he
      exact ho.distinct d e n hde hname (handle_of_freed hd).2 (handle_of_freed he).2
    · intro d n hd hrow
      by_cases hname : (args d).name = (args c).name
      · simp [hname] at hrow
      · exact ho.own d n (handle_of_freed hd).2 (by simpa [hname] using hrow)

theorem owned_run (h : Run (step args) (NotTaken args) s xs t) (ho : Owned args s) :
    Owned args t :=
  h.invariant (fun _ _ _ hok hs ho => owned_step hok hs ho) ho

theorem ownRecords_of_owned (ho : Owned args s) (h : step args s a = some t) :
    OwnRecords s a t := by
  intro c n name row hn ha hrow hne
  cases step_effect h with
  | ticked millis ht => exact (hne (ht ▸ hrow)).elim
  | moved d client _ ht => exact (hne (ht ▸ hrow)).elim
  | granted d stored target ha' hgrant hstored ht =>
    obtain rfl : c = d := (by simpa [ha'] using ha : d = c).symm
    have hname : name = (args c).name := by
      by_contra hname
      exact hne (by simpa [ht, hname] using hrow)
    subst hname
    apply ho.own c n hn
    cases hc : s.clients c <;> simp_all [grant, Client.handle]
    cases row
    simp_all
  | freed d timeoutAt ha' hc hrow' ht =>
    obtain rfl : c = d := (by simpa [ha'] using ha : d = c).symm
    have hname : name = (args c).name := by
      by_contra hname
      exact hne (by simpa [ht, hname] using hrow)
    obtain rfl : timeoutAt = n := by simpa [hc, Client.handle] using hn
    exact hname ▸ ho.own c timeoutAt hn hrow'

/-- Where a refresh re-creates a record only with the expiry it had and no handle is given the
expiry of another, at most one handle of a name is valid, and its own record is all a handle
changes: in every run, from any records. -/
theorem resource_lock_exclusive {clock : ℕ} {table : Table String LocalDto}
    (h : Run (step args) (fun s a => SameExpiry args s a ∧ NotTaken args s a)
      (initial clock table) xs s) :
    MutualExclusion args s ∧ ∀ a t, step args s a = some t → OwnRecords s a t := by
  have hi := inv_run (h.mono fun _ _ hok => hok.1) (inv_initial clock table)
  have ho := owned_run (h.mono fun _ _ hok => hok.2) (owned_initial clock table)
  exact ⟨mutualExclusion_of_inv hi, fun _ _ hs => ownRecords_of_owned ho hs⟩

/-- Clients 0 and 1 share a name, and no other client uses it. -/
def pairArgs (c : ℕ) : Args := ⟨if c < 2 then "x" else "y", 30⟩

def pairCheck (s : State) : Act → Bool
  | .next c =>
    decide (c < 2) &&
      (match s.clients c with
      | .refreshCreating _ _ => false
      | _ => grant pairArgs s c == none || grant pairArgs s c != (s.clients (1 - c)).handle)
  | _ => true

theorem sound_of_pairCheck (s : State) (a : Act) (h : pairCheck s a = true) :
    SameExpiry pairArgs s a ∧ NotTaken pairArgs s a := by
  cases a with
  | next c =>
    simp only [pairCheck, Bool.and_eq_true, decide_eq_true_eq] at h
    obtain ⟨hc, h⟩ := h
    constructor
    · intro timeoutAt target hcl
      simp [hcl] at h
    · intro target d hg hd hname hh
      have hd2 : d < 2 := by
        by_contra hd2
        simp [pairArgs, hc, hd2] at hname
      obtain rfl : d = 1 - c := by omega
      split at h
      · cases h
      · simp [hg, hh] at h
  | _ => exact ⟨trivial, trivial⟩

theorem resource_lock_exclusive_takeover : ∃ s, s.clients 0 = .released false ∧
    s.clients 1 = .held 61 ∧ MutualExclusion pairArgs s ∧
      ∀ a t, step pairArgs s a = some t → OwnRecords s a t := by
  obtain ⟨s, hs, hp⟩ := exists_run_of_exec sound_of_pairCheck (step pairArgs)
    (initial 0 fun _ => none)
    ([Act.acquire 0, .next 0, .next 0, .next 0, .tick 31000, .acquire 1] ++
      List.replicate 5 (Act.next 1) ++ [Act.release 0, .refresh 1, .next 1])
    (fun s => s.clients 0 == .released false && s.clients 1 == .held 61) (by decide)
  simp only [Bool.and_eq_true, beq_iff_eq] at hp
  exact ⟨s, hp.1, hp.2, resource_lock_exclusive hs⟩

def oneName : ℕ → Args := fun _ => ⟨"x", 30⟩

/-- Client 1 takes over the expired record of client 0 and frees it; the refresh of client 0 then
puts back an expired record, which client 2 takes over while both handles last to 61. -/
def recreateSchedule : List Act :=
  [.acquire 0, .next 0, .next 0, .next 0, .tick 31000, .acquire 1] ++
    List.replicate 5 (.next 1) ++ [.release 1, .refresh 0, .next 0, .next 0, .acquire 2] ++
    List.replicate 5 (.next 2)

/-- Client 2 writes so late that its expiry is the one client 0 had; client 0 then deletes it. -/
def lateSchedule : List Act :=
  [.acquire 2, .next 2, .next 2, .acquire 0, .next 0, .next 0, .next 0, .tick 31000, .acquire 1] ++
    List.replicate 5 (.next 1) ++ [.release 1, .next 2]

theorem recreate_breaks_lock :
    (¬ ∀ (args : ℕ → Args) (clock : ℕ) (table : Table String LocalDto) (s : State)
      (xs : List Act), Run (step args) Free (initial clock table) xs s →
        MutualExclusion args s) ∧
    ¬ ∀ (args : ℕ → Args) (clock : ℕ) (table : Table String LocalDto) (s : State)
      (xs : List Act), Run (step args) Free (initial clock table) xs s →
        ∀ a t, step args s a = some t → OwnRecords s a t := by
  constructor
  · intro hall
    obtain ⟨s, hs, hp⟩ := exists_run_of_exec free_of_check (step oneName)
      (initial 0 fun _ => none) recreateSchedule
      (fun s => s.now == 31 && s.clients 0 == .held 61 && s.clients 2 == .held 61) (by decide)
    simp only [Bool.and_eq_true, beq_iff_eq] at hp
    obtain ⟨⟨hnow, h0⟩, h2⟩ := hp
    exact hall oneName 0 _ s _ hs 0 2 61 61 (by decide) rfl (by simp [h0, Client.handle])
      (by simp [h2, Client.handle]) (by omega)
  · intro hall
    obtain ⟨s, t, hs, ht, hp⟩ := exists_runs_of_exec free_of_check (step oneName)
      (initial 0 fun _ => none) lateSchedule [.release 0]
      (fun s t => s.clients 0 == .held 30 && s.table "x" == some ⟨30⟩ && s.writer "x" == some 2 &&
        t.table "x" == none) (by decide)
    simp only [Bool.and_eq_true, beq_iff_eq] at hp
    obtain ⟨⟨⟨h0, hrow⟩, hw⟩, hgone⟩ := hp
    cases ht with
    | cons _ hstep hrest =>
      cases hrest
      have := hall oneName 0 _ s _ hs _ _ hstep 0 30 "x" ⟨30⟩ (by simp [h0, Client.handle])
        (.inr rfl) hrow (by simp [hgone])
      simp [hw] at this

end ShimService.ResourceLockRepo
