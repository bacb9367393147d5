import ShimService.LiveAgent.OmniChannelApi

/-! Live Agent request sequencing, and the request that outlives its lock. -/
namespace ShimService.OmniChannelApi

open CondTable AbstractAwsRepo Transition

variable {key : SessionKey} {s t : State} {a : Act} {xs ys : List Act} {c d : ℕ}

/-- The stored sequence is still stored, and no smaller. -/
def SequenceLe (s t : State) : Prop :=
  ∀ m, s.sequence = some m → ∃ n, t.sequence = some n ∧ m ≤ n

/-- A request that has sent nothing sends only while the stored sequence is the one it loaded and
no other request has sent something that is not saved, be its save to come or have it raised. -/
def FreshSend (s : State) : Act → Prop
  | .send c => ∀ initial, s.requests c = .working initial initial →
      s.sequence = some initial ∧ ∀ d, d ≠ c → (s.requests d).unsaved = none
  | _ => True

/-- What a step does to the stored sequence, to the values attached and to the unsaved settings. -/
inductive Effect (s : State) (a : Act) (t : State) : Prop where
  | quiet (hsequence : t.sequence = s.sequence) (hsent : t.sent = s.sent)
      (hunsaved : ∀ d, (t.requests d).unsaved = (s.requests d).unsaved)
  | sent (c initial sequence : ℕ) (ha : a = .send c)
      (hc : s.requests c = .working initial sequence)
      (ht : t = { s with sent := sequence :: s.sent }.setRequest c
        (.working initial (sequence + 1)))
  | saved (c initial sequence : ℕ) (hc : s.requests c = .saving initial sequence)
      (ht : t =
        { s with sequence := s.sequence.map fun _ => sequence }.setRequest c (.releasing none))

theorem unsaved_setRequest {request : Request} (h : request.unsaved = (s.requests c).unsaved)
    (d : ℕ) : ((s.setRequest c request).requests d).unsaved = (s.requests d).unsaved := by
  by_cases hd : d = c
  · subst d
    simpa using h
  · simp [hd]

theorem step_effect (h : step key s a = some t) : Effect s a t := by
  cases step_moves h with
  | ticked | tried | advanced => exact .quiet rfl rfl fun _ => rfl
  | loaded hc | failed hc => exact .quiet rfl rfl (unsaved_setRequest (by simp [hc]))
  | @sent c initial sequence hc => exact .sent c initial sequence rfl hc rfl
  | @exited c initial sequence hc =>
    refine .quiet rfl rfl (unsaved_setRequest ?_)
    split <;> simp_all
  | @saved c initial sequence hc => exact .saved c initial sequence hc rfl
  | lost hc => exact .quiet rfl rfl (unsaved_setRequest (by simp [hc]))
  | released hc => exact .quiet rfl rfl (unsaved_setRequest (by simp [hc]))

theorem step_other_request (h : step key s a = some t) (hd : a.request ≠ some d) :
    t.requests d = s.requests d := by
  have hother : ∀ c, some c ≠ some d → d ≠ c := fun c hc hdc => hc (congrArg some hdc.symm)
  cases step_moves h with
  | ticked | tried | advanced => rfl
  | _ => simp [hother _ hd]

/-- The values attached are below the one settings not saved, or below the stored sequence. -/
structure Inv (s : State) : Prop where
  nodup : s.sent.Nodup
  unsaved : ∀ c initial sequence, (s.requests c).unsaved = some (initial, sequence) →
    s.sequence = some initial ∧ initial < sequence ∧ (∀ v ∈ s.sent, v < sequence) ∧
      ∀ d, d ≠ c → (s.requests d).unsaved = none
  saved : (∀ c, (s.requests c).unsaved = none) →
    ∀ v ∈ s.sent, ∃ m, s.sequence = some m ∧ v < m

theorem inv_initial (clock : ℕ) (table : Table String ResourceLockRepo.LocalDto)
    (sequence : Option ℕ) : Inv (initial clock table sequence) := by
  refine ⟨List.nodup_nil, ?_, ?_⟩
  · intro c i q h
    simp [initial] at h
  · intro _ v hv
    simp [initial] at hv

theorem inv_sent {initial sequence : ℕ} (hi : Inv s) (hok : FreshSend s (.send c))
    (hc : s.requests c = .working initial sequence) :
    Inv ({ s with sent := sequence :: s.sent }.setRequest c
      (.working initial (sequence + 1))) := by
  -- A first send starts from the stored sequence, a later one from the settings it has changed.
  have hpre : s.sequence = some initial ∧ initial ≤ sequence ∧ (∀ v ∈ s.sent, v < sequence) ∧
      ∀ d, d ≠ c → (s.requests d).unsaved = none := by
    by_cases hfirst : sequence = initial
    · subst hfirst
      obtain ⟨hseq, hothers⟩ := hok sequence hc
      refine ⟨hseq, le_rfl, ?_, hothers⟩
      intro v hv
      obtain ⟨m, hm, hlt⟩ := hi.saved (fun d => by
        by_cases hd : d = c
        · simp [hd, hc]
        · exact hothers d hd) v hv
      rw [hseq, Option.some.injEq] at hm
      omega
    · obtain ⟨hseq, hlt, hbelow, hothers⟩ := hi.unsaved c initial sequence (by simp [hc, hfirst])
      exact ⟨hseq, hlt.le, hbelow, hothers⟩
  obtain ⟨hseq, hle, hbelow, hothers⟩ := hpre
  have hne : sequence + 1 ≠ initial := by omega
  refine ⟨List.nodup_cons.mpr ⟨fun hmem => lt_irrefl _ (hbelow _ hmem), hi.nodup⟩, ?_, ?_⟩
  · intro d i q hd
    by_cases hdc : d = c
    · subst d
      simp only [State.setRequest_requests, if_true, Request.unsaved, hne, if_false,
        Option.some.injEq, Prod.mk.injEq] at hd
      obtain ⟨rfl, rfl⟩ := hd
      refine ⟨hseq, by omega, ?_, ?_⟩
      · intro v hv
        rcases List.mem_cons.mp hv with rfl | hv
        · omega
        · exact (hbelow v hv).trans (by omega)
      · intro e he
        simpa [he] using hothers e he
    · simp [hdc, hothers d hdc] at hd
  · intro hnone
    have := hnone c
    simp [hne] at this

theorem inv_saved {initial sequence : ℕ} (hi : Inv s)
    (hc : s.requests c = .saving initial sequence) :
    Inv ({ s with sequence := s.sequence.map fun _ => sequence }.setRequest c
      (.releasing none)) := by
  obtain ⟨hseq, hlt, hbelow, hothers⟩ := hi.unsaved c initial sequence (by simp [hc])
  refine ⟨hi.nodup, ?_, ?_⟩
  · intro d i q hd
    by_cases hdc : d = c
    · simp [hdc] at hd
    · simp [hdc, hothers d hdc] at hd
  · intro _ v hv
    exact ⟨sequence, by simp [hseq], hbelow v hv⟩

theorem inv_step (hok : FreshSend s a) (h : step key s a = some t) (hi : Inv s) :
    Inv t ∧ SequenceLe s t := by
  cases step_effect h with
  | quiet hsequence hsent hunsaved =>
    refine ⟨⟨hsent ▸ hi.nodup, ?_, ?_⟩, fun m hm => ⟨m, hsequence ▸ hm, le_rfl⟩⟩
    · intro c i q hc
      simp only [hunsaved, hsequence, hsent] at hc ⊢
      exact hi.unsaved c i q hc
    · intro hnone
      simp only [hunsaved, hsequence, hsent] at hnone ⊢
      exact hi.saved hnone
  | sent c initial sequence ha hc ht =>
    subst a t
    exact ⟨inv_sent hi hok hc, fun m hm => ⟨m, hm, le_rfl⟩⟩
  | saved c initial sequence hc ht =>
    subst t
    obtain ⟨hseq, hlt, _⟩ := hi.unsaved c initial sequence (by simp [hc])
    refine ⟨inv_saved hi hc, ?_⟩
    intro m hm
    obtain rfl : initial = m := by simpa [hseq] using hm
    exact ⟨sequence, by simp [hseq], hlt.le⟩

theorem inv_run (h : Run (step key) FreshSend s xs t) (hi : Inv s) : Inv t :=
  h.invariant (fun _ _ _ hok hs hi => (inv_step hok hs hi).1) hi

theorem sequenceLe_run (h : Run (step key) FreshSend s xs t) (hi : Inv s) : SequenceLe s t := by
  refine h.rel (fun _ m hm => ⟨m, hm, le_rfl⟩) ?_
    (fun _ _ _ hok hs hi => (inv_step hok hs hi).1)
    (fun _ _ _ hok hs hi => (inv_step hok hs hi).2) hi
  intro s t u hst htu m hm
  obtain ⟨n, hn, hmn⟩ := hst m hm
  obtain ⟨k, hk, hnk⟩ := htu n hn
  exact ⟨k, hk, hmn.trans hnk⟩

/-- Where no first send is made from a sequence that is stale or about to be, the values attached
are distinct and the stored sequence never decreases: in every run, from any stored sequence. -/
theorem live_agent_sequencing {clock : ℕ} {table : Table String ResourceLockRepo.LocalDto}
    {sequence : Option ℕ} (h : Run (step key) FreshSend (initial clock table sequence) xs s)
    (h' : Run (step key) FreshSend s ys t) : t.sent.Nodup ∧ SequenceLe s t := by
  have hs := inv_run h (inv_initial clock table sequence)
  exact ⟨(inv_run h' hs).nodup, sequenceLe_run h' hs⟩

/-! Clients of the lock that never refresh. -/

section

variable {args : ℕ → ResourceLockRepo.Args} {l l' : ResourceLockRepo.State}
  {b : ResourceLockRepo.Act}

/-- No client is in the middle of a refresh. -/
def Unrefreshed (l : ResourceLockRepo.State) : Prop :=
  ∀ c n, (l.clients c).handle = some n → l.clients c = .held n

/-- Such a client gets a handle only through a write that its grant describes. -/
theorem lock_of_acquiring (hb : b = .acquire c ∨ b = .next c) (hu : Unrefreshed l)
    (h : ResourceLockRepo.step args l b = some l') : (l'.clients c).handle = none ∨
      ∃ target, ResourceLockRepo.grant args l c = some target ∧ b = .next c ∧
        l'.clients c = .held target := by
  have hnone : (l.clients c).handle = none := by
    cases hh : (l.clients c).handle with
    | none => rfl
    | some n =>
      have hheld := hu c n hh
      rcases hb with rfl | rfl <;>
        simp [ResourceLockRepo.step, ResourceLockRepo.nextStep, hheld] at h
  have hclient : b.client = some c := by
    rcases hb with rfl | rfl <;> rfl
  cases ResourceLockRepo.step_effect h with
  | ticked millis ht => exact .inl (by simp [ht, hnone])
  | moved d client ha ht hhandle =>
    obtain rfl : c = d := by simpa [hclient] using ha
    exact .inl (by rcases hhandle with hh | hh <;> simp [ht, hh, hnone])
  | granted d stored target ha hgrant _ ht =>
    subst b
    obtain rfl : d = c := by simpa [ResourceLockRepo.Act.client] using hclient
    exact .inr ⟨target, hgrant, rfl, by simp [ht]⟩
  | freed d timeoutAt ha => rcases hb with rfl | rfl <;> cases ha

theorem handle_of_release (h : ResourceLockRepo.step args l (.release c) = some l') :
    (l'.clients c).handle = none := by
  simp only [ResourceLockRepo.step] at h
  split at h
  · split at h <;> cases h <;> simp [ResourceLockRepo.Client.handle]
  · cases h

theorem unrefreshed_step (hb : ∀ c, b ≠ .refresh c)
    (h : ResourceLockRepo.step args l b = some l') (hu : Unrefreshed l) : Unrefreshed l' := by
  intro d n hd
  have hacquiring : b = .acquire d ∨ b = .next d → l'.clients d = .held n := by
    intro hb
    rcases lock_of_acquiring hb hu h with hnone | ⟨target, _, _, hheld⟩
    · simp [hnone] at hd
    · simpa [hheld, ResourceLockRepo.Client.handle] using hd
  by_cases hmover : b.client = some d
  · cases b with
    | tick millis => cases hmover
    | acquire c => exact hacquiring (.inl (congrArg _ (Option.some.inj hmover)))
    | next c => exact hacquiring (.inr (congrArg _ (Option.some.inj hmover)))
    | refresh c => exact (hb c rfl).elim
    | release c =>
      obtain rfl := Option.some.inj hmover
      simp [handle_of_release h] at hd
  · rw [ResourceLockRepo.step_other_client h hmover] at hd ⊢
    exact hu d n hd

theorem sameExpiry_of_unrefreshed (b : ResourceLockRepo.Act) (hu : Unrefreshed l) :
    ResourceLockRepo.SameExpiry args l b := by
  cases b with
  | next c =>
    intro timeoutAt target hc
    have hheld := hu c timeoutAt (by simp [hc, ResourceLockRepo.Client.handle])
    simp [hc] at hheld
  | _ => trivial

end

/-- A step of the requests is one of the lock table, never a refresh, or leaves it alone. -/
theorem locks_step (h : step key s a = some t) : t.locks = s.locks ∨ ∃ b,
    (∀ c, b ≠ .refresh c) ∧ ResourceLockRepo.step (lockArgs key) s.locks b = some t.locks := by
  cases step_moves h with
  | ticked hl => exact .inr ⟨_, by simp, hl⟩
  | tried _ hl | advanced _ hl | released _ hl => exact .inr ⟨_, by simp, hl⟩
  | _ => exact .inl rfl

theorem unrefreshed_initial (clock : ℕ) (table : Table String ResourceLockRepo.LocalDto) :
    Unrefreshed (ResourceLockRepo.initial clock table) := by
  intro c n h
  simp [ResourceLockRepo.initial, ResourceLockRepo.Client.handle] at h

/-- The lock keeps its promise to the requests: in every run, at most one of them has a handle
that has not expired. What it does not promise is that a request is done by then. -/
theorem requests_exclude {clock : ℕ} {table : Table String ResourceLockRepo.LocalDto}
    {sequence : Option ℕ} (h : Run (step key) Free (initial clock table sequence) xs s) :
    ResourceLockRepo.MutualExclusion (lockArgs key) s.locks := by
  have hlocks : ∃ bs, Run (ResourceLockRepo.step (lockArgs key)) (fun _ b => ∀ c, b ≠ .refresh c)
      (ResourceLockRepo.initial clock table) bs s.locks :=
    h.project (f := State.locks) fun _ _ _ _ hs => locks_step hs
  obtain ⟨bs, hlocks⟩ := hlocks
  have hsame : Run (ResourceLockRepo.step (lockArgs key))
      (ResourceLockRepo.SameExpiry (lockArgs key)) _ bs s.locks :=
    hlocks.strengthen (fun _ _ _ hb hs hu => unrefreshed_step hb hs hu)
      (fun _ b hu _ => sameExpiry_of_unrefreshed b hu) (unrefreshed_initial clock table)
  have hinit : ResourceLockRepo.Inv (lockArgs key) (ResourceLockRepo.initial clock table) :=
    ResourceLockRepo.inv_initial clock table
  exact ResourceLockRepo.mutualExclusion_of_inv (ResourceLockRepo.inv_run hsame hinit)

/-! Requests that do not outlive their lock. -/

/-- Whenever a request is given the lock, every other request whose handle has expired has
finished its save; and no save raises. -/
def NoOverrun (key : SessionKey) (s : State) : Act → Prop
  | .next c => ∀ target d n, ResourceLockRepo.grant (lockArgs key) s.locks c = some target →
      d ≠ c → (s.locks.clients d).handle = some n → n < s.locks.now →
        (s.requests d).isReleasing = true
  | .save _ written => written = true
  | _ => True

/-- A request that has the lock and has not finished its save. -/
def InSection (s : State) (c : ℕ) : Prop :=
  (s.locks.clients c).handle ≠ none ∧ (s.requests c).isReleasing = false

/-- The requests follow the lock, one at a time, and what each has loaded is still stored. -/
structure LockInv (key : SessionKey) (s : State) : Prop where
  lock : ResourceLockRepo.Inv (lockArgs key) s.locks
  plain : ∀ c n, (s.locks.clients c).handle = some n → s.locks.clients c = .held n
  holder : ∀ c, s.requests c ≠ .acquiring → (s.requests c).isDone = false →
    (s.locks.clients c).handle ≠ none
  alone : ∀ c d, InSection s c → InSection s d → c = d
  fresh : ∀ c initial sequence, s.requests c = .working initial sequence →
    initial ≤ sequence ∧ (initial = sequence → s.sequence = some initial)
  kept : ∀ c lost, s.requests c = .releasing lost ∨ s.requests c = .done lost → lost = none

theorem lockInv_initial (clock : ℕ) (table : Table String ResourceLockRepo.LocalDto)
    (sequence : Option ℕ) : LockInv key (initial clock table sequence) := by
  refine ⟨ResourceLockRepo.inv_initial clock table, ?_, ?_, ?_, ?_, ?_⟩
  · intro c n h
    simp [initial, ResourceLockRepo.initial, ResourceLockRepo.Client.handle] at h
  · intro c h
    simp [initial] at h
  · intro c d h
    simp [InSection, initial, ResourceLockRepo.initial, ResourceLockRepo.Client.handle] at h
  · intro c i q h
    simp [initial] at h
  · intro c lost h
    simp [initial] at h

theorem section_of_loaded (hi : LockInv key s) (hacquiring : s.requests c ≠ .acquiring)
    (hdone : (s.requests c).isDone = false) (hreleasing : (s.requests c).isReleasing = false) :
    InSection s c :=
  ⟨hi.holder c hacquiring hdone, hreleasing⟩

theorem section_of_working {initial sequence : ℕ} (hi : LockInv key s)
    (hc : s.requests c = .working initial sequence) : InSection s c :=
  section_of_loaded hi (by simp [hc]) (by simp [hc, Request.isDone])
    (by simp [hc, Request.isReleasing])

theorem section_of_saving {initial sequence : ℕ} (hi : LockInv key s)
    (hc : s.requests c = .saving initial sequence) : InSection s c :=
  section_of_loaded hi (by simp [hc]) (by simp [hc, Request.isDone])
    (by simp [hc, Request.isReleasing])

theorem lockInv_acquiring {b : ResourceLockRepo.Act} {l : ResourceLockRepo.State}
    (hi : LockInv key s) (hc : s.requests c = .acquiring) (hb : b = .acquire c ∨ b = .next c)
    (hok : b = .next c → NoOverrun key s (.next c))
    (h : ResourceLockRepo.step (lockArgs key) s.locks b = some l) :
    LockInv key { s with locks := l } := by
  have hother : ∀ d, d ≠ c → l.clients d = s.locks.clients d := by
    intro d hd
    apply ResourceLockRepo.step_other_client h
    rcases hb with rfl | rfl <;> simpa [ResourceLockRepo.Act.client] using hd.symm
  have hown := lock_of_acquiring hb hi.plain h
  -- A request other than `c` in its section when `c` is given the lock would have outlived it.
  have halone : ∀ d, d ≠ c → (l.clients c).handle ≠ none → ¬ InSection s d := by
    rintro d hd hhandle ⟨hn, hreq⟩
    rcases hown with hnone | ⟨target, hgrant, rfl, _⟩
    · exact hhandle hnone
    · obtain ⟨n, hn⟩ := Option.ne_none_iff_exists'.mp hn
      have hlt := ResourceLockRepo.lt_now_of_grant hi.lock hgrant hd rfl hn
      simp [hok rfl target d n hgrant hd hn hlt] at hreq
  have hsection : ∀ d, d ≠ c → InSection { s with locks := l } d → InSection s d := by
    rintro d hd ⟨hn, hreq⟩
    exact ⟨hother d hd ▸ hn, hreq⟩
  have hlock := ResourceLockRepo.inv_step (sameExpiry_of_unrefreshed b hi.plain) h hi.lock
  have hplain : Unrefreshed l := unrefreshed_step (by rcases hb with rfl | rfl <;> simp) h hi.plain
  refine ⟨hlock, hplain, ?_, ?_, hi.fresh, hi.kept⟩
  · intro d hacq hdone
    have hd : d ≠ c := fun hd => hacq (hd ▸ hc)
    rw [hother d hd]
    exact hi.holder d hacq hdone
  · intro d e hd he
    by_cases hdc : d = c
    · by_cases hec : e = c
      · exact hdc.trans hec.symm
      · exact (halone e hec (hdc ▸ hd.1) (hsection e hec he)).elim
    · by_cases hec : e = c
      · exact (halone d hdc (hec ▸ he.1) (hsection d hdc hd)).elim
      · exact hi.alone d e (hsection d hdc hd) (hsection e hec he)

/-- A step of the request in its section cannot meet another request that has loaded. -/
theorem lockInv_section {request : Request} (hi : LockInv key s) (hsec : InSection s c)
    (hlocks : t.locks = s.locks)
    (hrequests : ∀ d, t.requests d = if d = c then request else s.requests d)
    (hfresh : ∀ initial sequence, request = .working initial sequence →
      initial ≤ sequence ∧ (initial = sequence → t.sequence = some initial))
    (hkept : ∀ lost, request = .releasing lost ∨ request = .done lost → lost = none) :
    LockInv key t := by
  have hother : ∀ d, d ≠ c → t.requests d = s.requests d := fun d hd => by simp [hrequests, hd]
  have hsection : ∀ d, InSection t d → d = c := by
    rintro d ⟨hn, hreq⟩
    by_contra hd
    exact hd (hi.alone d c ⟨hlocks ▸ hn, hother d hd ▸ hreq⟩ hsec)
  refine ⟨hlocks ▸ hi.lock, hlocks ▸ hi.plain, ?_, ?_, ?_, ?_⟩
  · intro d hacq hdone
    rw [hlocks]
    by_cases hd : d = c
    · exact hd ▸ hsec.1
    · rw [hother d hd] at hacq hdone
      exact hi.holder d hacq hdone
  · intro d e hd he
    exact (hsection d hd).trans (hsection e he).symm
  · intro d i q hd
    by_cases hdc : d = c
    · exact hfresh i q (by simpa [hrequests, hdc] using hd)
    · rw [hother d hdc] at hd
      exact (hdc (hi.alone d c (section_of_working hi hd) hsec)).elim
  · intro d lost hd
    by_cases hdc : d = c
    · exact hkept lost (by simpa [hrequests, hdc] using hd)
    · exact hi.kept d lost (by simpa [hother d hdc] using hd)

theorem lockInv_released {l : ResourceLockRepo.State} (hi : LockInv key s)
    (h : ResourceLockRepo.step (lockArgs key) s.locks (.release c) = some l) :
    LockInv key ({ s with locks := l }.setRequest c (.done none)) := by
  have hother : ∀ d, d ≠ c → l.clients d = s.locks.clients d := by
    intro d hd
    apply ResourceLockRepo.step_other_client h
    simpa [ResourceLockRepo.Act.client] using hd.symm
  have hown := handle_of_release h
  have hsection : ∀ d, InSection ({ s with locks := l }.setRequest c (.done none)) d →
      InSection s d := by
    rintro d ⟨hn, hreq⟩
    by_cases hd : d = c
    · subst d
      exact (hn hown).elim
    · exact ⟨hother d hd ▸ hn, by simpa [hd] using hreq⟩
  have hlock := ResourceLockRepo.inv_step (sameExpiry_of_unrefreshed _ hi.plain) h hi.lock
  refine ⟨hlock, unrefreshed_step (by simp) h hi.plain, ?_, ?_, ?_, ?_⟩
  · intro d hacq hdone
    by_cases hd : d = c
    · simp [hd, Request.isDone] at hdone
    · simpa [hother d hd] using hi.holder d (by simpa [hd] using hacq) (by simpa [hd] using hdone)
  · intro d e hd he
    exact hi.alone d e (hsection d hd) (hsection e he)
  · intro d i q hd
    by_cases hdc : d = c
    · simp [hdc] at hd
    · exact hi.fresh d i q (by simpa [hdc] using hd)
  · intro d lost hd
    by_cases hdc : d = c
    · simpa [hdc, eq_comm] using hd
    · exact hi.kept d lost (by simpa [hdc] using hd)

theorem section_of_handle {timeoutAt : ℕ} (hc : s.requests c = .acquiring)
    (hheld : s.locks.clients c = .held timeoutAt) : InSection s c :=
  ⟨by simp [hheld, ResourceLockRepo.Client.handle], by simp [hc, Request.isReleasing]⟩

theorem lockInv_step (hok : NoOverrun key s a) (h : step key s a = some t) (hi : LockInv key s) :
    LockInv key t := by
  cases step_moves h with
  | @ticked millis l hl =>
    have hclients : l.clients = s.locks.clients := by
      funext d
      exact ResourceLockRepo.step_other_client hl (by simp [ResourceLockRepo.Act.client])
    have hlock := ResourceLockRepo.inv_step (sameExpiry_of_unrefreshed _ hi.plain) hl hi.lock
    refine ⟨hlock, unrefreshed_step (by simp) hl hi.plain, ?_, ?_, hi.fresh, hi.kept⟩
    · simpa [hclients] using hi.holder
    · simpa [InSection, hclients] using hi.alone
  | tried hc hl => exact lockInv_acquiring hi hc (.inl rfl) (by simp) hl
  | advanced hc hl => exact lockInv_acquiring hi hc (.inr rfl) (fun _ => hok) hl
  | @loaded c _ sequence hc hheld hseq =>
    have hsec : InSection s c := section_of_handle hc hheld
    refine lockInv_section hi hsec rfl (State.setRequest_requests s c · _) ?_ (by simp)
    rintro i q ⟨⟩
    exact ⟨le_rfl, fun _ => hseq⟩
  | @failed c _ _ hc hheld =>
    have hsec : InSection s c := section_of_handle hc hheld
    exact lockInv_section hi hsec rfl (State.setRequest_requests s c · _) (by simp) (by simp)
  | @sent c first sequence hc =>
    refine lockInv_section hi (section_of_working hi hc) rfl
      (State.setRequest_requests _ c · _) ?_ (by simp)
    rintro i q ⟨⟩
    have := (hi.fresh c first sequence hc).1
    exact ⟨by omega, fun heq => by omega⟩
  | @exited c first sequence hc =>
    refine lockInv_section hi (section_of_working hi hc) rfl
      (State.setRequest_requests s c · _) ?_ ?_
    · intro i q hq
      split at hq <;> cases hq
    · intro lost hlost
      split at hlost <;> simp_all
  | @saved c _ _ hc =>
    exact lockInv_section hi (section_of_saving hi hc) rfl (State.setRequest_requests _ c · _)
      (by simp) (by simp)
  | lost => cases hok
  | released hc hl =>
    obtain rfl := hi.kept _ _ (.inl hc)
    exact lockInv_released hi hl

theorem freshSend_of_lockInv (hi : LockInv key s) (a : Act) : FreshSend s a := by
  cases a with
  | send c =>
    intro first hc
    refine ⟨(hi.fresh c first first hc).2 rfl, ?_⟩
    intro d hd
    cases hr : s.requests d with
    | acquiring => rfl
    | working i q =>
      exact (hd (hi.alone d c (section_of_working hi hr) (section_of_working hi hc))).elim
    | saving i q =>
      exact (hd (hi.alone d c (section_of_saving hi hr) (section_of_working hi hc))).elim
    | releasing lost => exact hi.kept d lost (.inl hr)
    | done lost => exact hi.kept d lost (.inr hr)
  | _ => trivial

/-- While no request outlives its lock and no save raises, every first send starts from what is
stored. -/
theorem freshSend_of_noOverrun {clock : ℕ} {table : Table String ResourceLockRepo.LocalDto}
    {sequence : Option ℕ} (h : Run (step key) (NoOverrun key) (initial clock table sequence) xs s) :
    Run (step key) FreshSend (initial clock table sequence) xs s :=
  h.strengthen (fun _ _ _ hok hs hi => lockInv_step hok hs hi)
    (fun _ a hi _ => freshSend_of_lockInv hi a) (lockInv_initial clock table sequence)

def anyKey : SessionKey := ⟨1, "s"⟩

/-- A request that finds the lock free, up to its load. -/
def openRequest (c : ℕ) : List Act := [.tryAcquire c, .next c, .next c, .next c, .load c false]

/-- A request that takes the lock over from an expired record, up to its load. -/
def overtakingRequest (c : ℕ) : List Act :=
  [.tryAcquire c, .next c, .next c, .next c, .next c, .next c, .load c false]

def wholeSend (c : ℕ) : List Act :=
  openRequest c ++ [.send c, .send c, .exit c, .save c true, .release c]

/-- Requests 0 and 1 run alone, and a first send of one finds nothing of the other unsaved. -/
def pairCheck (s : State) (a : Act) : Bool :=
  a.request.all (· < 2) &&
    match a with
    | .send c =>
      match s.requests c with
      | .working initial sequence =>
        initial != sequence ||
          (s.sequence == some initial && (s.requests (1 - c)).unsaved == none)
      | _ => true
    | _ => true

theorem freshSend_of_pairCheck (hs : ∀ d, 2 ≤ d → s.requests d = .acquiring)
    (h : pairCheck s a = true) : FreshSend s a := by
  cases a with
  | send c =>
    intro first hc
    simp only [pairCheck, Act.request, hc, Option.all_some, Bool.and_eq_true, decide_eq_true_eq,
      bne_self_eq_false, Bool.false_or, beq_iff_eq] at h
    obtain ⟨hlt, hseq, hpeer⟩ := h
    refine ⟨hseq, ?_⟩
    intro d hd
    by_cases hd2 : 2 ≤ d
    · simp [hs d hd2]
    · obtain rfl : d = 1 - c := by omega
      exact hpeer
  | _ => trivial

theorem live_agent_sequencing_two_requests : ∃ s t, s.sent = [2, 1] ∧ t.sent = [4, 3, 2, 1] ∧
    t.sent.Nodup ∧ SequenceLe s t := by
  obtain ⟨s, t, hs, ht, hp⟩ := exists_runs_of_exec
    (fun s a (h : pairCheck s a = true) => h) (step anyKey)
    (initial 0 (fun _ => none) (some 1)) (wholeSend 0) (wholeSend 1)
    (fun s t => s.sent == [2, 1] && t.sent == [4, 3, 2, 1]) (by decide)
  simp only [Bool.and_eq_true, beq_iff_eq] at hp
  have hkeep : ∀ s a t, pairCheck s a = true → step anyKey s a = some t →
      (∀ d, 2 ≤ d → s.requests d = .acquiring) → ∀ d, 2 ≤ d → t.requests d = .acquiring := by
    intro s a t hok hstep hs d hd
    rw [step_other_request hstep, hs d hd]
    intro ha
    simp only [pairCheck, ha, Option.all_some, Bool.and_eq_true, decide_eq_true_eq] at hok
    omega
  have hfresh : ∀ s a, (∀ d, 2 ≤ d → s.requests d = .acquiring) → pairCheck s a = true →
      FreshSend s a := fun _ _ => freshSend_of_pairCheck
  have hpair := hs.invariant hkeep fun d _ => rfl
  exact ⟨s, t, hp.1, hp.2, live_agent_sequencing (hs.strengthen hkeep hfresh fun d _ => rfl)
    (ht.strengthen hkeep hfresh hpair)⟩

/-- Request 0 is still sending when its one second is over, and request 1 takes the lock over and
loads the same sequence; request 0 then saves a smaller one than request 1 has. -/
theorem overrun_repeats_sequence :
    (¬ ∀ (key : SessionKey) (clock : ℕ) (table : Table String ResourceLockRepo.LocalDto)
      (sequence : Option ℕ) (s : State) (xs : List Act),
      Run (step key) Free (initial clock table sequence) xs s → s.sent.Nodup) ∧
    ¬ ∀ (key : SessionKey) (clock : ℕ) (table : Table String ResourceLockRepo.LocalDto)
      (sequence : Option ℕ) (s t : State) (xs ys : List Act),
      Run (step key) Free (initial clock table sequence) xs s → Run (step key) Free s ys t →
        SequenceLe s t := by
  obtain ⟨s, t, hs, ht, hp⟩ := exists_runs_of_exec free_of_check (step anyKey)
    (initial 0 (fun _ => none) (some 1))
    (openRequest 0 ++ [.send 0, .tick 2000] ++ overtakingRequest 1 ++
      [.send 1, .send 1, .exit 1, .save 1 true]) [.exit 0, .save 0 true]
    (fun s t => s.sent == [2, 1, 1] && s.sequence == some 3 && t.sequence == some 2) (by decide)
  simp only [Bool.and_eq_true, beq_iff_eq] at hp
  obtain ⟨⟨hsent, hbefore⟩, hafter⟩ := hp
  refine ⟨fun hall => ?_, fun hall => ?_⟩
  · have := hall anyKey 0 _ _ s _ hs
    simp [hsent] at this
  · obtain ⟨n, hn, hle⟩ := hall anyKey 0 _ _ s t _ _ hs ht 3 hbefore
    rw [hafter, Option.some.injEq] at hn
    omega

-- A save that raises repeats a value as well, with no request past its second of the lock.
example : (exec (step anyKey) (fun _ _ => true) (initial 0 (fun _ => none) (some 1))
    (openRequest 0 ++ [.send 0, .exit 0, .save 0 false, .release 0] ++
      openRequest 1 ++ [.send 1])).map State.sent = some [1, 1] := by decide

end ShimService.OmniChannelApi
