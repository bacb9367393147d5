import ShimService.PushNotification.Covered
import ShimService.PushNotification.NoLoss

/-! The steps of the notifier's runs and schedules, and no stored notification is left without
anybody to send it. -/
namespace ShimService.PushNotifications.Wakeups

open CondTable Transition
open PushNotifications (Effect step_effect kept_setNotifier)

variable {submits : ℕ → Submit} {expirationSeconds i j clock : ℕ} {s t : State} {a : Act}
  {xs : List Act} {key : SessionKey} {sequences : Table SequenceRepo.SeqKey SequenceRepo.Sequence}

/-! ### A run by itself -/

/-- A run that moves on leaves the other runs as they are, and covers what it has covered or gives
it up. -/
theorem Inv.of_run {base : PushNotifications.State} {abandoned : SessionKey → List ℕ}
    (hi : Inv submits s) (hkept : Kept base) (hsequence : base.sequence = s.base.sequence)
    (hothers : ∀ k, k ≠ j → base.notifiers k = s.base.notifiers k)
    (hidle : s.base.notifiers j = .idle → base.notifiers j = .idle)
    (hold : ∀ key m, Undelivered base key m → Undelivered s.base key m)
    (habandoned : ∀ key, ∀ m ∈ s.abandoned key, m ∈ abandoned key)
    (hcovers : ∀ key m, Undelivered base key m → WillSend key m (s.base.notifiers j) →
      m ∈ abandoned key ∨ WillSend key m (base.notifiers j)) :
    Inv submits { s with base := base, abandoned := abandoned } := by
  refine ⟨hkept, fun c hc => hsequence ▸ hi.stored c hc, fun k hk => ?_, ?_⟩
  · have hfree := hi.refused k hk
    by_cases hkj : k = j
    · subst hkj
      exact hidle hfree
    · exact (hothers k hkj).trans hfree
  · refine hi.accounted.of_step habandoned hold fun key m hm hcov => ?_
    cases hcov with
    | submit c hc hkey => exact .inr (.submit c hc hkey)
    | inFlight h => exact .inr (.inFlight h)
    | run k hk =>
      by_cases hkj : k = j
      · subst hkj
        exact (hcovers key m hm hk).imp_right (.run k)
      · refine .inr (.run k ?_)
        rwa [hothers k hkj]
    | refused k h => exact .inr (.refused k h)
    | scheduled h => exact .inr (.scheduled h)

/-- A run that ends where nothing it was to send is left. -/
theorem Inv.of_end (hi : Inv submits s)
    (hcovers : ∀ key m, Undelivered s.base key m → WillSend key m (s.base.notifiers j) →
      m ∈ s.abandoned key) :
    Inv submits { s with base := s.base.setNotifier j .idle } := by
  refine hi.of_run (j := j) (kept_setNotifier j hi.kept trivial) rfl (fun k hk => ?_)
    (fun _ => by simp) (fun _ _ hm => hm) (fun _ _ hm => hm)
    fun key m hm hwill => .inl (hcovers key m hm hwill)
  rw [PushNotifications.State.setNotifier_notifiers, if_neg hk]

theorem willSend_notifierKey {n : Notifier} {m : ℕ} (h : WillSend key m n) :
    notifierKey n = some key := by
  cases n with
  | idle => cases h
  | loaded k settings => exact congrArg some h
  | reading k page nextKey | delivered k record page nextKey => exact congrArg some h.1

/-- What a run was to send is on the page it reads or after it, or the run ends before it. -/
theorem inv_fetchPage {startAfter upTo : Option ℕ} (hi : Inv submits s)
    (hkey : notifierKey (s.base.notifiers j) = some key)
    (hbehind : ∀ last m, startAfter = some last → Undelivered s.base key m → last < m)
    (h : s.fetchPage j key startAfter upTo = some t) : Inv submits t := by
  obtain ⟨base, hfetch, rfl⟩ := Option.map_eq_some_iff.mp h
  obtain ⟨htables, hdelivered, hsequence, hothers⟩ := fetch_others hfetch
  have hold : ∀ k m, Undelivered base k m ↔ Undelivered s.base k m := fun k m =>
    undelivered_congr (congrArg Tables.notifications htables) hdelivered
  have hkept := kept_fetch hi.kept hbehind hfetch
  have hbusy : s.base.notifiers j = .idle → base.notifiers j = .idle := fun hidle => by
    simp [hidle, notifierKey] at hkey
  have hcovers : ∀ k m, Undelivered base k m → WillSend k m (s.base.notifiers j) → k = key ∧
      (WillSend k m (base.notifiers j) ∨
        base.notifiers j = .idle ∧ ∃ last, upTo = some last ∧ last < m) := by
    intro k m hm hwill
    obtain rfl := Option.some.inj (hkey.symm.trans (willSend_notifierKey hwill))
    have hm' := (hold key m).mp hm
    exact ⟨rfl, fetch_covers hi.kept (fun last hlast => hbehind last m hlast hm') hm' hfetch⟩
  split
  · rename_i last hidle
    refine hi.of_run (j := j) hkept hsequence hothers hbusy (fun k m hm => (hold k m).mp hm)
      (fun k m hm => mem_abandon.mpr (.inr hm)) fun k m hm hwill => ?_
    obtain ⟨rfl, hnext | ⟨-, last', hlast, hlt⟩⟩ := hcovers k m hm hwill
    · exact .inr hnext
    · cases hlast
      exact .inl (mem_abandonAfter (s := { s with base := base }) hm hlt)
  · rename_i hnot
    refine hi.of_run (j := j) hkept hsequence hothers hbusy (fun k m hm => (hold k m).mp hm)
      (fun _ _ hm => hm) fun k m hm hwill => .inr ?_
    obtain ⟨rfl, hnext | ⟨hidle, last, hlast, -⟩⟩ := hcovers k m hm hwill
    · exact hnext
    · exact (hnot last hidle hlast).elim

theorem inv_fetch {upTo : Option ℕ} (hi : Inv submits s)
    (h : step submits expirationSeconds s (.fetch j upTo) = some t) : Inv submits t := by
  obtain ⟨-, h⟩ := Option.ite_none_right_eq_some.mp h
  have hread := hi.kept.reads j
  split at h
  · rename_i key settings hj
    rw [hj] at hread
    exact inv_fetchPage hi (by rw [hj]; rfl)
      (fun last m hlast hm => hi.kept.behind key settings last m hread hlast hm) h
  · rename_i key nextKey hj
    rw [hj] at hread
    refine inv_fetchPage hi (by rw [hj]; rfl) (fun last m hlast hm => ?_) h
    by_contra hle
    have := hread.2 m hm nextKey (by simp) (by simp at hlast; omega)
    simp at this
  · cases h

theorem inv_deliver (hi : Inv submits s)
    (h : step submits expirationSeconds s (.deliver j) = some t) : Inv submits t := by
  obtain ⟨base, hbase, rfl⟩ := Option.map_eq_some_iff.mp h
  have hkept := kept_step (a := .deliver j) trivial hbase hi.kept
  have hold : ∀ k m, Undelivered base k m → Undelivered s.base k m := fun _ _ hm =>
    undelivered_of_step hbase (by simp) hm
  cases step_effect hbase with
  | @deliver _ k record page nextKey hj =>
    refine hi.of_run (j := j) hkept rfl (fun k hk => ?_) (by simp [hj]) hold (fun _ _ hm => hm)
      fun k' m hm hwill => .inr ?_
    · rw [PushNotifications.State.setNotifier_notifiers, if_neg hk]
    · rw [hj] at hwill
      obtain ⟨rfl, hwill⟩ := hwill
      have hne := ne_of_undelivered hm
      rw [PushNotifications.State.setNotifier_notifiers, if_pos rfl]
      refine ⟨rfl, hwill.imp_left fun hmem => ?_⟩
      rw [List.map_cons] at hmem
      exact (List.mem_cons.mp hmem).resolve_left hne

theorem inv_setSent (hi : Inv submits s)
    (h : step submits expirationSeconds s (.setSent j) = some t) : Inv submits t := by
  obtain ⟨base, hbase, rfl⟩ := Option.map_eq_some_iff.mp h
  have hkept := kept_step (a := .setSent j) trivial hbase hi.kept
  have hold : ∀ k m, Undelivered base k m → Undelivered s.base k m := fun _ _ hm =>
    undelivered_of_step hbase (by simp) hm
  cases step_effect hbase with
  | sent hj | unsent hj =>
    refine hi.of_run (j := j) hkept rfl (fun k hk => ?_) (by simp [hj]) hold (fun _ _ hm => hm)
      fun k m _ hwill => .inr ?_
    · rw [PushNotifications.State.setNotifier_notifiers, if_neg hk]
    · rw [hj] at hwill
      rw [PushNotifications.State.setNotifier_notifiers, if_pos rfl]
      exact hwill

theorem inv_finish (hi : Inv submits s)
    (h : step submits expirationSeconds s (.finish j) = some t) : Inv submits t := by
  simp only [step] at h
  split at h
  · rename_i hj
    obtain rfl := Option.some.inj h
    refine hi.of_end fun key m _ hwill => ?_
    rw [hj] at hwill
    simp [WillSend] at hwill
  · cases h

/-! ### Giving up -/

theorem Inv.abandonStored (hi : Inv submits s) (key : SessionKey) :
    Inv submits (s.abandonStored key) := hi.abandon key _

/-- A refused run is as good as gone where its session's notifications have been given up. -/
theorem Inv.of_unrefused (hi : Inv submits s)
    (hcovers : ∀ key m, Undelivered s.base key m → s.refused j = some key →
      m ∈ s.abandoned key ∨ s.schedules key = some .pending) :
    Inv submits { s with refused := Function.update s.refused j none } := by
  refine ⟨hi.kept, hi.stored, fun k hk => hi.refused k fun hnone => hk ?_, ?_⟩
  · simp [Function.update_apply, hnone]
  · refine hi.accounted.of_step (fun _ _ hm => hm) (fun _ _ hm => hm) fun key m hm hcov => ?_
    cases hcov with
    | submit c hc hkey => exact .inr (.submit c hc hkey)
    | inFlight h => exact .inr (.inFlight h)
    | run k hk => exact .inr (.run k hk)
    | refused k h =>
      by_cases hkj : k = j
      · subst hkj
        exact (hcovers key m hm h).imp_right .scheduled
      · exact .inr (.refused k (by simpa [hkj] using h))
    | scheduled h => exact .inr (.scheduled h)

theorem inv_fail (hi : Inv submits s)
    (h : step submits expirationSeconds s (.fail j) = some t) : Inv submits t := by
  simp only [step] at h
  split at h
  · rename_i key hkey
    obtain rfl := Option.some.inj h
    refine (hi.abandonStored key).of_end (j := j) fun k m hm hwill => ?_
    obtain rfl := Option.some.inj (hkey.symm.trans (willSend_notifierKey hwill))
    exact mem_abandonStored hm
  · rename_i key hnone hkey
    obtain rfl := Option.some.inj h
    refine (hi.abandonStored key).of_unrefused (j := j) fun k m hm hrefused => .inl ?_
    obtain rfl := Option.some.inj (hrefused.symm.trans hkey)
    exact mem_abandonStored hm
  · cases h

/-! ### Invocations, locks and schedules -/

theorem inv_context {b : PushNotifications.Act} {u : State}
    (hb : ∃ key, b = .createContext key ∨ b = .deleteContext key) (hi : Inv submits s)
    (h : baseStep submits expirationSeconds s b = some u) : Inv submits u := by
  obtain ⟨base, hbase, rfl⟩ := Option.map_eq_some_iff.mp h
  obtain ⟨key, rfl | rfl⟩ := hb
  · have hkept := kept_step (a := .createContext key) trivial hbase hi.kept
    cases step_effect hbase with
    | createContext => exact hi.of_base hkept (fun _ hc => hc) rfl fun _ _ hm => hm
  · have hkept := kept_step (a := .deleteContext key) trivial hbase hi.kept
    cases step_effect hbase with
    | deleteContext => exact hi.of_base hkept (fun _ hc => hc) rfl fun _ _ hm => hm

theorem inv_receive {settings : Settings} (hi : Inv submits s)
    (h : step submits expirationSeconds s (.receive i j settings) = some t) :
    Inv submits t := by
  simp only [step] at h
  split at h
  · rename_i key hflight hrefused
    obtain ⟨u, hu, rfl⟩ := Option.map_eq_some_iff.mp h
    obtain ⟨base, hbase, rfl⟩ := Option.map_eq_some_iff.mp hu
    have hkept := kept_step (a := .load j key settings) trivial hbase hi.kept
    cases step_effect hbase with
    | load hj hread =>
      refine ⟨hkept, hi.stored, fun k hk => ?_, ?_⟩
      · rw [PushNotifications.State.setNotifier_notifiers, if_neg]
        · exact hi.refused k hk
        · rintro rfl
          exact hk hrefused
      · refine hi.accounted.of_step (fun _ _ hm => hm) (fun _ _ hm => hm)
          fun k m _ hcov => .inr ?_
        cases hcov with
        | submit c hc hkey => exact .submit c hc hkey
        | inFlight h =>
          obtain ⟨i', hi'⟩ := List.mem_iff_getElem?.mp h
          by_cases hii : i' = i
          · subst hii
            refine .run j ?_
            rw [PushNotifications.State.setNotifier_notifiers, if_pos rfl]
            exact Option.some.inj (hflight.symm.trans hi')
          · exact .inFlight (List.mem_eraseIdx_iff_getElem?.mpr ⟨i', hii, hi'⟩)
        | run k hk =>
          refine .run k ?_
          rw [PushNotifications.State.setNotifier_notifiers, if_neg]
          · exact hk
          · rintro rfl
            rw [hj] at hk
            exact hk
        | refused k h => exact .refused k h
        | scheduled h => exact .scheduled h
  · cases h

theorem inv_receiveNone {deletesContext : Bool} (hi : Inv submits s)
    (h : step submits expirationSeconds s (.receiveNone i deletesContext) = some t) :
    Inv submits t := by
  obtain ⟨key, hflight, h⟩ := Option.bind_eq_some_iff.mp h
  have hdropped : Inv submits { s.abandonStored key with inFlight := s.inFlight.eraseIdx i } := by
    refine ⟨hi.kept, hi.stored, hi.refused, hi.accounted.of_step ?_ (fun _ _ hm => hm) ?_⟩
    · exact fun k m hm => mem_abandon.mpr (.inr hm)
    · intro k m hm hcov
      cases hcov with
      | submit c hc hkey => exact .inr (.submit c hc hkey)
      | inFlight h =>
        obtain ⟨i', hi'⟩ := List.mem_iff_getElem?.mp h
        by_cases hii : i' = i
        · subst hii
          obtain rfl := Option.some.inj (hflight.symm.trans hi')
          exact .inl (mem_abandonStored hm)
        · exact .inr (.inFlight (List.mem_eraseIdx_iff_getElem?.mpr ⟨i', hii, hi'⟩))
      | run k hk => exact .inr (.run k hk)
      | refused k h => exact .inr (.refused k h)
      | scheduled h => exact .inr (.scheduled h)
  cases deletesContext with
  | true => exact inv_context ⟨key, .inr rfl⟩ hdropped h
  | false =>
    obtain rfl := Option.some.inj h
    exact hdropped

theorem inv_tryLock {acquired : Bool} (hi : Inv submits s)
    (h : step submits expirationSeconds s (.tryLock j acquired) = some t) : Inv submits t := by
  simp only [step] at h
  split at h
  · rename_i key settings hj _
    cases acquired with
    | true =>
      obtain rfl := Option.some.inj h
      exact ⟨hi.kept, hi.stored, hi.refused, hi.accounted.of_step (fun _ _ hm => hm)
        (fun _ _ hm => hm) fun _ _ _ hcov => .inr (hcov.of_eq rfl rfl rfl rfl rfl)⟩
    | false =>
      obtain rfl := Option.some.inj h
      refine ⟨kept_setNotifier j hi.kept trivial, hi.stored, fun k hk => ?_, ?_⟩
      · rw [PushNotifications.State.setNotifier_notifiers]
        split
        · rfl
        · rename_i hkj
          exact hi.refused k (by simpa [hkj] using hk)
      · refine hi.accounted.of_step (fun _ _ hm => hm) (fun _ _ hm => hm)
          fun k m _ hcov => .inr ?_
        cases hcov with
        | submit c hc hkey => exact .submit c hc hkey
        | inFlight h => exact .inFlight h
        | run k' hk =>
          by_cases hkj : k' = j
          · subst hkj
            rw [hj] at hk
            exact .refused k' (by simp [show key = k from hk])
          · refine .run k' ?_
            rwa [PushNotifications.State.setNotifier_notifiers, if_neg hkj]
        | refused k' hrefused =>
          refine .refused k' ((Function.update_of_ne ?_ _ _).trans hrefused)
          rintro rfl
          rw [hi.refused k' (by simp [hrefused])] at hj
          cases hj
        | scheduled h => exact .scheduled h
  · cases h

theorem inv_schedule (hi : Inv submits s)
    (h : step submits expirationSeconds s (.schedule j) = some t) : Inv submits t := by
  obtain ⟨key, hkey, rfl⟩ := Option.map_eq_some_iff.mp h
  split
  · -- The other sessions keep their schedules.
    rename_i hnone
    have hscheduled : Inv submits
        { s with schedules := Function.update s.schedules key (some .pending) } := by
      refine ⟨hi.kept, hi.stored, hi.refused, hi.accounted.of_step (fun _ _ hm => hm)
        (fun _ _ hm => hm) fun k m _ hcov => .inr ?_⟩
      cases hcov with
      | submit c hc hkey => exact .submit c hc hkey
      | inFlight h => exact .inFlight h
      | run k hk => exact .run k hk
      | refused k h => exact .refused k h
      | scheduled hpending =>
        refine .scheduled ((Function.update_of_ne ?_ _ _).trans hpending)
        rintro rfl
        rw [hnone] at hpending
        cases hpending
    refine hscheduled.of_unrefused (j := j) fun k m _ hrefused => .inr ?_
    obtain rfl := Option.some.inj (hkey.symm.trans hrefused)
    simp
  · rename_i hpending
    refine hi.of_unrefused (j := j) fun k m _ hrefused => .inr ?_
    obtain rfl := Option.some.inj (hkey.symm.trans hrefused)
    exact hpending
  · refine (hi.abandonStored key).of_unrefused (j := j) fun k m hm hrefused => .inl ?_
    obtain rfl := Option.some.inj (hkey.symm.trans hrefused)
    exact mem_abandonStored hm

theorem inv_fire (hi : Inv submits s)
    (h : step submits expirationSeconds s (.fire key) = some t) : Inv submits t := by
  obtain ⟨hpending, h⟩ := Option.ite_none_right_eq_some.mp h
  obtain rfl := Option.some.inj h
  refine ⟨hi.kept, hi.stored, hi.refused, hi.accounted.of_step (fun _ _ hm => hm)
    (fun _ _ hm => hm) fun k m _ hcov => .inr ?_⟩
  cases hcov with
  | submit c hc hkey => exact .submit c hc hkey
  | inFlight h => exact .inFlight (List.mem_cons_of_mem _ h)
  | run k hk => exact .run k hk
  | refused k h => exact .refused k h
  | scheduled h =>
    by_cases hk : k = key
    · exact .inFlight (hk ▸ List.mem_cons_self)
    · exact .scheduled ((Function.update_of_ne hk _ _).trans h)

theorem inv_expire (hi : Inv submits s)
    (h : step submits expirationSeconds s (.expire key) = some t) : Inv submits t := by
  obtain ⟨hfired, h⟩ := Option.ite_none_right_eq_some.mp h
  obtain rfl := Option.some.inj h
  refine ⟨hi.kept, hi.stored, hi.refused, hi.accounted.of_step (fun _ _ hm => hm)
    (fun _ _ hm => hm) fun k m _ hcov => .inr ?_⟩
  cases hcov with
  | submit c hc hkey => exact .submit c hc hkey
  | inFlight h => exact .inFlight h
  | run k hk => exact .run k hk
  | refused k h => exact .refused k h
  | scheduled hpending =>
    refine .scheduled ((Function.update_of_ne ?_ _ _).trans hpending)
    rintro rfl
    rw [hfired] at hpending
    cases hpending

theorem inv_giveUp {c : ℕ} (hi : Inv submits s)
    (h : step submits expirationSeconds s (.giveUp c) = some t) : Inv submits t := by
  obtain ⟨number, hc, rfl⟩ := Option.map_eq_some_iff.mp h
  exact hi.giveUp hc

theorem inv_step (hok : CommitsAhead submits expirationSeconds s a)
    (h : step submits expirationSeconds s a = some t) (hi : Inv submits s) : Inv submits t := by
  cases a with
  | sequence b => exact inv_sequence hi h
  | commit c now returned => exact inv_commit hi hok h
  | invoke c => exact inv_invoke hi h
  | giveUp c => exact inv_giveUp hi h
  | createContext key => exact inv_context ⟨key, .inl rfl⟩ hi h
  | deleteContext key => exact inv_context ⟨key, .inr rfl⟩ hi h
  | receive i j settings => exact inv_receive hi h
  | receiveNone i deletesContext => exact inv_receiveNone hi h
  | tryLock j acquired => exact inv_tryLock hi h
  | schedule j => exact inv_schedule hi h
  | fire key => exact inv_fire hi h
  | expire key => exact inv_expire hi h
  | fetch j upTo => exact inv_fetch hi h
  | deliver j => exact inv_deliver hi h
  | setSent j => exact inv_setSent hi h
  | finish j => exact inv_finish hi h
  | fail j => exact inv_fail hi h

theorem inv_initial : Inv submits (initial clock sequences) := by
  refine ⟨kept_initial clock sequences, fun c hc => absurd rfl hc, fun j hj => absurd rfl hj, ?_⟩
  rintro key m ⟨⟨r, hr, -⟩, -⟩
  cases hr

end ShimService.PushNotifications.Wakeups
