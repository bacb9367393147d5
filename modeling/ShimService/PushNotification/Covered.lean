import ShimService.PushNotification.Cursor
import ShimService.PushNotification.Wakeups
import ShimService.Sequence.Conflict

/-! For whatever is undelivered somebody is on the way to send it, or has given up since. -/
namespace ShimService.PushNotifications.Wakeups

open CondTable Transition
open PushNotifications (Effect step_effect mem_versions)
open ExecuteWithEvent (AfterCallback)

variable {submits : ℕ → Submit} {expirationSeconds i j k m n c now clock : ℕ} {s t : State}
  {base : PushNotifications.State} {a : Act} {xs : List Act} {key : SessionKey}
  {sequences : Table SequenceRepo.SeqKey SequenceRepo.Sequence}

/-- The run will come to the notification. -/
def WillSend (key : SessionKey) (m : ℕ) : Notifier → Prop
  | .idle => False
  | .loaded k _ => k = key
  | .reading k page nextKey | .delivered k _ page nextKey =>
    k = key ∧ (m ∈ page.map (·.seqNo) ∨ ∃ n, nextKey = some n ∧ n < m)

/-- Somebody is on the way to send the notification: its submit, an invocation, a run, or a
schedule. -/
inductive Covered (submits : ℕ → Submit) (s : State) (key : SessionKey) (m : ℕ) : Prop
  | submit (c : ℕ) (hc : s.toInvoke c = some m) (hkey : (submits c).sessionKey = key)
  | inFlight (h : key ∈ s.inFlight)
  | run (j : ℕ) (h : WillSend key m (s.base.notifiers j))
  | refused (j : ℕ) (h : s.refused j = some key)
  | scheduled (h : s.schedules key = some .pending)

def Accounted (submits : ℕ → Submit) (s : State) : Prop := ∀ key m, Undelivered s.base key m →
  m ∈ s.abandoned key ∨ Covered submits s key m

/-- A submit that commits is ahead of its session's runs. -/
def CommitsAhead (submits : ℕ → Submit) (expirationSeconds : ℕ) (s : State) : Act → Prop
  | .commit c now returned =>
    PushNotifications.CommitsAhead submits expirationSeconds s.base (.commit c now returned)
  | _ => True

structure Inv (submits : ℕ → Submit) (s : State) : Prop where
  kept : Kept s.base
  stored : ∀ c, s.toInvoke c ≠ none → AfterCallback (s.base.sequence.calls c)
  refused : ∀ j, s.refused j ≠ none → s.base.notifiers j = .idle
  accounted : Accounted submits s

/-! ### What is undelivered -/

theorem undelivered_congr {u v : PushNotifications.State}
    (hrows : v.tables.notifications = u.tables.notifications)
    (hdelivered : v.delivered = u.delivered) :
    Undelivered v key m ↔ Undelivered u key m := by
  unfold Undelivered
  rw [hrows, hdelivered]

/-- A step of the runs, of the contexts or of a submit before its transaction makes nothing
undelivered. -/
theorem undelivered_of_step {b : PushNotifications.Act} {u v : PushNotifications.State}
    (h : PushNotifications.step submits expirationSeconds u b = some v)
    (hb : ∀ c now returned, b ≠ .commit c now returned) (hm : Undelivered v key m) :
    Undelivered u key m := by
  cases step_effect h with
  | sequence | createContext | deleteContext | load | quit => exact hm
  | committed | refused => exact absurd rfl (hb _ _ _)
  | fetchFirst hj hfetch | fetchNext hj hfetch =>
    simp only [PushNotifications.fetch, Option.ite_none_right_eq_some] at hfetch
    obtain ⟨-, hfetch⟩ := hfetch
    split at hfetch <;> cases hfetch <;> exact hm
  | @deliver j k record page nextKey hj =>
    obtain ⟨hrow, hdelivered⟩ := hm
    refine ⟨hrow, ?_⟩
    by_contra hnot
    have htrue : u.delivered key m = true := by simpa using hnot
    simp only [PushNotifications.State.setNotifier, Function.update_apply] at hdelivered
    split at hdelivered
    · rename_i hkey
      subst hkey
      rw [Function.update_apply] at hdelivered
      split at hdelivered <;> simp_all
    · simp [htrue] at hdelivered
  | sent hj htables =>
    obtain ⟨⟨r, hr, rfl⟩, hdelivered⟩ := hm
    obtain ⟨r₀, hr₀, hseq, -⟩ := (setSent_ok htables).2 key r hr
    exact ⟨⟨r₀, hr₀, hseq⟩, hdelivered⟩
  | unsent => exact hm

/-- What a delivery leaves undelivered is not what it delivers. -/
theorem ne_of_undelivered {record : Notification} {page : List Notification}
    {nextKey : Option ℕ} {u : PushNotifications.State}
    (hm : Undelivered ({ u with
      delivered := Function.update u.delivered key
        (Function.update (u.delivered key) record.seqNo true)
      }.setNotifier j (.delivered key record page nextKey)) key m) : m ≠ record.seqNo := by
  rintro rfl
  have hdelivered := hm.2
  simp [PushNotifications.State.setNotifier] at hdelivered

theorem stored_of_undelivered (hm : Undelivered s.base key m) :
    m ∈ (s.base.tables.notifications key).rows.map (·.seqNo) := by
  obtain ⟨⟨r, hr, rfl⟩, -⟩ := hm
  exact List.mem_map_of_mem hr

/-! ### Giving up -/

theorem mem_abandon {numbers : List ℕ} {k : SessionKey} :
    m ∈ (s.abandon key numbers).abandoned k ↔
      k = key ∧ m ∈ numbers ∨ m ∈ s.abandoned k := by
  by_cases hk : k = key
  · subst hk
    simp [State.abandon]
  · simp [State.abandon, hk]

theorem mem_abandonStored (hm : Undelivered s.base key m) :
    m ∈ (s.abandonStored key).abandoned key :=
  mem_abandon.mpr (.inl ⟨rfl, stored_of_undelivered hm⟩)

theorem mem_abandonAfter {last : ℕ} (hm : Undelivered s.base key m) (hlast : last < m) :
    m ∈ (s.abandonAfter key last).abandoned key :=
  mem_abandon.mpr (.inl ⟨rfl, List.mem_filter.mpr ⟨stored_of_undelivered hm, by simpa using hlast⟩⟩)

theorem Covered.of_eq (h : Covered submits s key m) (hsubmit : t.toInvoke = s.toInvoke)
    (hflight : t.inFlight = s.inFlight) (hrun : t.base.notifiers = s.base.notifiers)
    (hrefused : t.refused = s.refused) (hschedules : t.schedules = s.schedules) :
    Covered submits t key m := by
  cases h with
  | submit c hc hkey => exact .submit c (hsubmit ▸ hc) hkey
  | inFlight h => exact .inFlight (hflight ▸ h)
  | run j h => exact .run j (hrun ▸ h)
  | refused j h => exact .refused j (hrefused ▸ h)
  | scheduled h => exact .scheduled (hschedules ▸ h)

/-! ### A page is read -/

/-- Everything undelivered after a number is on the page that is read after it, or after the
page; and there it is left if the page has no unsent row. -/
theorem fetch_covers {startAfter upTo : Option ℕ} {u v : PushNotifications.State}
    (hi : Kept u) (hbehind : ∀ last, startAfter = some last → last < m)
    (hm : Undelivered u key m) (h : PushNotifications.fetch u j key startAfter upTo = some v) :
    WillSend key m (v.notifiers j) ∨
      v.notifiers j = .idle ∧ ∃ last, upTo = some last ∧ last < m := by
  obtain ⟨⟨r, hr, rfl⟩, hdelivered⟩ := hm
  have hunsent : r.sent = false := by
    by_contra hsent
    simp [hi.sent key r hr (by simpa using hsent)] at hdelivered
  simp only [PushNotifications.fetch, Option.ite_none_right_eq_some] at h
  obtain ⟨-, h⟩ := h
  by_cases hpast : ∃ last, upTo = some last ∧ last < r.seqNo
  · split at h <;> obtain rfl := Option.some.inj h
    · exact .inr ⟨by simp, hpast⟩
    · exact .inl (by simp [WillSend, hpast])
  · have hupTo : ∀ p, upTo = some p → r.seqNo ≤ p := fun p hp =>
      not_lt.mp fun hlt => hpast ⟨p, hp, hlt⟩
    have hmem : r ∈ (u.tables.notifications key).unsent startAfter upTo :=
      Notifications.mem_unsent.mpr ⟨hr, hbehind, hupTo, hunsent⟩
    split at h
    · rename_i hnil
      simp [hnil] at hmem
    · rename_i record page hpage
      obtain rfl := Option.some.inj h
      rw [hpage] at hmem
      rw [PushNotifications.State.setNotifier_notifiers, if_pos rfl]
      exact .inl ⟨rfl, .inl (List.mem_map.mpr ⟨r, hmem, rfl⟩)⟩

theorem fetch_others {startAfter upTo : Option ℕ} {u v : PushNotifications.State}
    (h : PushNotifications.fetch u j key startAfter upTo = some v) :
    v.tables = u.tables ∧ v.delivered = u.delivered ∧ v.sequence = u.sequence ∧
      ∀ k, k ≠ j → v.notifiers k = u.notifiers k := by
  have hset : ∀ n : Notifier, v = u.setNotifier j n → v.tables = u.tables ∧
      v.delivered = u.delivered ∧ v.sequence = u.sequence ∧
        ∀ k, k ≠ j → v.notifiers k = u.notifiers k := by
    rintro n rfl
    refine ⟨rfl, rfl, rfl, fun k hk => ?_⟩
    rw [PushNotifications.State.setNotifier_notifiers, if_neg hk]
  simp only [PushNotifications.fetch, Option.ite_none_right_eq_some] at h
  obtain ⟨-, h⟩ := h
  split at h <;> exact hset _ (Option.some.inj h).symm

/-! ### The steps of a submit -/

/-- A call whose callback has run stays so. -/
theorem afterCallback_step {args : ℕ → SequenceRepo.Args} {q u : SequenceRepo.State}
    {b : SequenceRepo.Act} (h : SequenceRepo.step args q b = some u)
    (hc : AfterCallback (q.calls c)) : AfterCallback (u.calls c) := by
  by_cases hcallback : ∃ d returned, b = .callback d returned
  · obtain ⟨d, returned, rfl⟩ := hcallback
    simp only [SequenceRepo.step] at h
    split at h
    · obtain rfl := Option.some.inj h
      rw [SequenceRepo.State.setCall_calls]
      split
      · trivial
      · exact hc
    · cases h
  by_cases hrelease : ∃ d, b = .release d
  · obtain ⟨d, rfl⟩ := hrelease
    simp only [SequenceRepo.step] at h
    split at h
    · rename_i held returned hd
      split at h <;> obtain rfl := Option.some.inj h <;>
        rw [SequenceRepo.State.setCall_calls] <;> split
      · split <;> trivial
      · exact hc
      · trivial
      · exact hc
    · cases h
  · rcases ExecuteWithEvent.seq_step_calls h (fun d returned heq => hcallback ⟨d, returned, heq⟩)
      (fun d heq => hrelease ⟨d, heq⟩) c with heq | hearly
    · rwa [heq]
    · exact absurd hc hearly.1

/-- A submit that is no longer to invoke the notifier has invoked it or is noted. -/
theorem Covered.of_submit_done (h : Covered submits s key m)
    (hothers : ∀ d, d ≠ c → t.toInvoke d = s.toInvoke d)
    (hc : s.toInvoke c = some m → (submits c).sessionKey = key → Covered submits t key m)
    (hflight : ∀ k ∈ s.inFlight, k ∈ t.inFlight) (hrun : t.base.notifiers = s.base.notifiers)
    (hrefused : t.refused = s.refused) (hschedules : t.schedules = s.schedules) :
    Covered submits t key m := by
  cases h with
  | submit d hd hkey =>
    by_cases hdc : d = c
    · subst hdc
      exact hc hd hkey
    · exact .submit d ((hothers d hdc).trans hd) hkey
  | inFlight h => exact .inFlight (hflight _ h)
  | run j h => exact .run j (hrun ▸ h)
  | refused j h => exact .refused j (hrefused ▸ h)
  | scheduled h => exact .scheduled (hschedules ▸ h)

theorem Accounted.of_step (h : Accounted submits s)
    (habandoned : ∀ key, ∀ m ∈ s.abandoned key, m ∈ t.abandoned key)
    (hold : ∀ key m, Undelivered t.base key m → Undelivered s.base key m)
    (hcovered : ∀ key m, Undelivered t.base key m → Covered submits s key m →
      m ∈ t.abandoned key ∨ Covered submits t key m) : Accounted submits t := by
  intro key m hm
  rcases h key m (hold key m hm) with hmem | hcov
  · exact .inl (habandoned key m hmem)
  · exact hcovered key m hm hcov

theorem Inv.abandon (hi : Inv submits s) (key : SessionKey) (numbers : List ℕ) :
    Inv submits (s.abandon key numbers) := by
  refine ⟨hi.kept, hi.stored, hi.refused, hi.accounted.of_step ?_ (fun _ _ hm => hm) ?_⟩
  · intro k m hm
    exact mem_abandon.mpr (.inr hm)
  · intro k m _ hcov
    exact .inr (hcov.of_eq rfl rfl rfl rfl rfl)

/-- A submit that gives up leaves its notification behind. -/
theorem Inv.giveUp (hi : Inv submits s) (hc : s.toInvoke c = some n) :
    Inv submits ({ s with toInvoke := Function.update s.toInvoke c none }.abandon
      (submits c).sessionKey [n]) := by
  refine ⟨hi.kept, ?_, hi.refused, hi.accounted.of_step ?_ (fun _ _ hm => hm) ?_⟩
  · intro d hd
    refine hi.stored d fun hnone => hd ?_
    simp [State.abandon, Function.update_apply, hnone]
  · intro k m hm
    exact mem_abandon.mpr (.inr hm)
  · intro k m _ hcov
    cases hcov with
    | submit d hd hkey =>
      by_cases hdc : d = c
      · subst hdc
        obtain rfl := Option.some.inj (hc.symm.trans hd)
        exact .inl (mem_abandon.mpr (.inl ⟨hkey.symm, by simp⟩))
      · exact .inr (.submit d (by simpa [State.abandon, hdc] using hd) hkey)
    | inFlight h => exact .inr (.inFlight h)
    | run j h => exact .inr (.run j h)
    | refused j h => exact .inr (.refused j h)
    | scheduled h => exact .inr (.scheduled h)

/-- A step that leaves the runs, the calls' phases and what is undelivered as they are. -/
theorem Inv.of_base (hi : Inv submits s) (hkept : Kept base)
    (hcalls : ∀ c, AfterCallback (s.base.sequence.calls c) → AfterCallback (base.sequence.calls c))
    (hnotifiers : base.notifiers = s.base.notifiers)
    (hold : ∀ key m, Undelivered base key m → Undelivered s.base key m) :
    Inv submits { s with base := base } := by
  refine ⟨hkept, fun c hc => hcalls c (hi.stored c hc), fun j hj => ?_, ?_⟩
  · exact hnotifiers ▸ hi.refused j hj
  · refine hi.accounted.of_step (fun _ _ hm => hm) hold fun key m _ hcov => .inr ?_
    exact hcov.of_eq rfl rfl hnotifiers rfl rfl

theorem inv_sequence {b : SequenceRepo.Act} (hi : Inv submits s)
    (h : step submits expirationSeconds s (.sequence b) = some t) : Inv submits t := by
  obtain ⟨u, hu, rfl⟩ := Option.map_eq_some_iff.mp h
  obtain ⟨base, hbase, rfl⟩ := Option.map_eq_some_iff.mp hu
  have hkept := kept_step (a := .sequence b) trivial hbase hi.kept
  cases step_effect hbase with
  | @sequence _ q hq =>
    have hplain : Inv submits { s with base := { s.base with sequence := q } } :=
      hi.of_base hkept (fun c hc => afterCallback_step hq hc) rfl fun _ _ hm => hm
    split
    · split
      · rename_i hc
        exact hplain.giveUp hc
      · exact hplain
    · exact hplain

theorem inv_commit {returned : Bool} (hi : Inv submits s)
    (hok : CommitsAhead submits expirationSeconds s (.commit c now returned))
    (h : step submits expirationSeconds s (.commit c now returned) = some t) :
    Inv submits t := by
  simp only [step] at h
  split at h
  · rename_i held hc
    obtain ⟨u, hu, rfl⟩ := Option.map_eq_some_iff.mp h
    obtain ⟨base, hbase, rfl⟩ := Option.map_eq_some_iff.mp hu
    have hahead : PushNotifications.CommitsAhead submits expirationSeconds s.base
        (.commit c now returned) := hok
    have hkept := kept_step hahead hbase hi.kept
    cases step_effect hbase with
    | @refused _ _ _ _ held' q hc' hq htables =>
      obtain rfl : held = held' := by simpa [hc] using hc'
      simp only [htables]
      exact hi.of_base hkept (fun d hd => afterCallback_step hq hd) rfl fun _ _ hm => hm
    | @committed _ _ _ held' q tables hc' hq htables =>
      obtain rfl : held = held' := by simpa [hc] using hc'
      simp only [htables]
      have hstored : ∀ d, s.toInvoke d ≠ none → AfterCallback (q.calls d) :=
        fun d hd => afterCallback_step hq (hi.stored d hd)
      have hrunning : s.toInvoke c = none := by
        by_contra hsome
        have hafter := hi.stored c hsome
        rw [hc] at hafter
        exact hafter
      have hnew : ∀ key m,
          Undelivered { s.base with sequence := q, tables := tables } key m →
          Undelivered s.base key m ∨ key = (submits c).sessionKey ∧ m = held.nextValue := by
        rintro key m ⟨⟨r, hr, rfl⟩, hdelivered⟩
        rcases (submitTransaction_ok htables).2 key r hr with hold | ⟨hkey, hrow⟩
        · exact .inl ⟨⟨r, hold, rfl⟩, hdelivered⟩
        · exact .inr ⟨hkey, by simp [hrow, newNotification]⟩
      cases returned with
      | true =>
        rw [if_pos rfl]
        refine ⟨hkept, fun d hd => ?_, hi.refused, fun key m hm => ?_⟩
        · by_cases hdc : d = c
          · subst hdc
            simp only [SequenceRepo.step, hc] at hq
            obtain rfl := Option.some.inj hq
            simp [AfterCallback]
          · exact hstored d (by simpa [hdc] using hd)
        · rcases hnew key m hm with hold | ⟨rfl, rfl⟩
          · rcases hi.accounted key m hold with hmem | hcov
            · exact .inl hmem
            · refine .inr (hcov.of_submit_done (c := c) (fun d hd => Function.update_of_ne hd _ _)
                (fun hsome => ?_) (fun _ hk => hk) rfl rfl rfl)
              simp [hrunning] at hsome
          · exact .inr (.submit c (by simp) rfl)
      | false =>
        rw [if_neg Bool.false_ne_true]
        refine ⟨hkept, hstored, hi.refused, fun key m hm => ?_⟩
        rcases hnew key m hm with hold | ⟨rfl, rfl⟩
        · rcases hi.accounted key m hold with hmem | hcov
          · exact .inl (mem_abandon.mpr (.inr hmem))
          · exact .inr (hcov.of_eq rfl rfl rfl rfl rfl)
        · exact .inl (mem_abandon.mpr (.inl ⟨rfl, by simp⟩))
  · cases h

theorem inv_invoke (hi : Inv submits s)
    (h : step submits expirationSeconds s (.invoke c) = some t) : Inv submits t := by
  simp only [step] at h
  split at h
  · obtain rfl := Option.some.inj h
    refine ⟨hi.kept, fun d hd => hi.stored d fun hnone => hd ?_, hi.refused, ?_⟩
    · simp [Function.update_apply, hnone]
    · refine hi.accounted.of_step (fun _ _ hm => hm) (fun _ _ hm => hm) fun key m _ hcov => .inr ?_
      refine hcov.of_submit_done (c := c) (fun d hd => Function.update_of_ne hd _ _)
        (fun _ hkey => ?_) (fun _ hk => List.mem_cons_of_mem _ hk) rfl rfl rfl
      exact .inFlight (hkey ▸ List.mem_cons_self)
  · cases h

end ShimService.PushNotifications.Wakeups
