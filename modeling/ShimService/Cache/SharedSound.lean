import ShimService.Cache.BoundedMap
import ShimService.Cache.SharedRuns

/-! `__set` of a shared `ConcurrentTtlCache`, and what holds in every run. -/
namespace ShimService.ConcurrentTtlCache.Shared

open Transition

variable {τ κ β : Type} [DecidableEq τ] [DecidableEq κ] {settings : Settings} {hash : κ → ℤ}
  {clock : ℚ} {s s' : State τ κ β} {t u : τ} {c d : Call κ β} {key : κ} {e : CacheEntry β}
  {value : Option β} {used i : ℕ} {oldest : Option (κ × CacheEntry β)} {next' : κ × CacheEntry β}
  {outcome : Outcome β} {choice : Choice κ β} {act : Act τ κ β} {xs : List (Act τ κ β)}

omit [DecidableEq τ] in
omit [DecidableEq κ] in
theorem State.OldestOf.older (h : s.OldestOf i oldest)
    (hnext : s.store.cache.entries[i]? = some next') :
    s.OldestOf (i + 1) (some (older oldest next')) := by
  have hmem : next' ∈ s.store.cache.entries := List.mem_of_getElem? hnext
  have htake : s.store.cache.entries.take (i + 1) = s.store.cache.entries.take i ++ [next'] := by
    rw [List.take_add_one, hnext]
    rfl
  cases oldest with
  | none =>
    obtain rfl : i = 0 := h
    refine ⟨hmem, fun other hother => ?_⟩
    obtain rfl : other = next' := by simpa [htake] using hother
    exact le_rfl
  | some first =>
    obtain ⟨hfirst, hleast⟩ := h
    simp only [Shared.older]
    split
    · rename_i hlt
      refine ⟨hmem, fun other hother => ?_⟩
      rw [htake, List.mem_append, List.mem_singleton] at hother
      rcases hother with hother | rfl
      · exact hlt.le.trans (hleast other hother)
      · exact le_rfl
    · rename_i hge
      refine ⟨hfirst, fun other hother => ?_⟩
      rw [htake, List.mem_append, List.mem_singleton] at hother
      rcases hother with hother | rfl
      · exact hleast other hother
      · exact not_lt.mp hge

omit [DecidableEq τ] in
/-- At the end of an iteration the oldest of all entries has been found. -/
theorem State.OldestOf.at_end {first : κ × CacheEntry β} (h : s.OldestOf i (some first))
    (hend : s.store.cache.entries[i]? = none) : s.Oldest first.1 := by
  refine ⟨first.2, OrderedDict.mem_entries_iff.mp h.1, fun k other hfind => ?_⟩
  have hall : s.store.cache.entries.take i = s.store.cache.entries :=
    List.take_of_length_le (List.getElem?_eq_none_iff.mp hend)
  refine h.2 (k, other) ?_
  rw [hall]
  exact OrderedDict.mem_entries_iff.mpr hfind

theorem inv_acquiringStore (h : Inv settings hash s) (hc : s.call t = some c)
    (hpc : c.pc = .acquiringStore value) (hnext : next settings hash s t c .goes = some s') :
    Inv settings hash s' := by
  simp only [next, hpc, Option.isNone_iff_eq_none] at hnext
  obtain ⟨hfree, hnext⟩ := Option.ite_none_right_eq_some.mp hnext
  obtain rfl := Option.some.inj hnext
  refine h.of_sameData hc rfl ?_ ⟨rfl, rfl, rfl, rfl, rfl, rfl⟩ fun c' hc' => ?_
  · exact h.locked.takesMutex hc rfl hfree rfl rfl rfl fun a => by simp [hpc, Pc.inShard]
  · obtain rfl := Option.some.inj hc'
    exact h.ok_next hc (by rw [hpc]; rfl) rfl trivial

theorem inv_testingKey (h : Inv settings hash s) (hc : s.call t = some c)
    (hpc : c.pc = .testingKey value) (hnext : next settings hash s t c .goes = some s') :
    Inv settings hash s' := by
  simp only [next, hpc] at hnext
  obtain rfl := Option.some.inj hnext
  split
  · rename_i hmem
    exact h.goto hc (by rw [hpc]; rfl) (by rw [hpc]; rfl) rfl (.inl hmem)
  · exact h.goto hc (by rw [hpc]; rfl) (by rw [hpc]; rfl) rfl trivial

theorem inv_testingSize (h : Inv settings hash s) (hc : s.call t = some c)
    (hpc : c.pc = .testingSize value) (hnext : next settings hash s t c .goes = some s') :
    Inv settings hash s' := by
  simp only [next, hpc] at hnext
  obtain rfl := Option.some.inj hnext
  split
  · rename_i hfull
    exact h.goto hc (by rw [hpc]; rfl) (by rw [hpc]; rfl) rfl (.inl hfull)
  · rename_i hroom
    exact h.goto hc (by rw [hpc]; rfl) (by rw [hpc]; rfl) rfl
      (.inr (lt_of_le_of_ne h.size_le hroom))

theorem inv_choosing (h : Inv settings hash s) (hc : s.call t = some c)
    (hpc : c.pc = .choosing value) (hnext : next settings hash s t c .goes = some s') :
    Inv settings hash s' := by
  have hknown := (h.calls t c hc).known
  unfold Call.Known at hknown
  rw [hpc] at hknown
  simp only [next, hpc] at hnext
  obtain rfl := Option.some.inj hnext
  refine h.goto hc (by rw [hpc]; rfl) (by rw [hpc]; rfl) rfl ?_
  refine hknown.imp_left fun hfull => ⟨rfl, ?_, rfl⟩
  rw [hfull]
  exact Nat.lt_of_succ_lt settings.one_lt_maxsize

theorem inv_iterating (h : Inv settings hash s) (hc : s.call t = some c)
    (hpc : c.pc = .iterating value used i oldest)
    (hnext : next settings hash s t c .goes = some s') : Inv settings hash s' := by
  have hin : c.pc.inMutex = true := by rw [hpc]; rfl
  have hold : c.pc.inShard = true := by rw [hpc]; rfl
  have hknown := (h.calls t c hc).known
  unfold Call.Known at hknown
  rw [hpc] at hknown
  simp only [next, hpc] at hnext
  split at hnext
  · rename_i hsize
    obtain rfl := Option.some.inj hnext
    exact h.fail hc hin hold (hknown.resolve_left fun hleft => hsize hleft.1.symm) _
  · split at hnext
    · rename_i entry hentry
      obtain rfl := Option.some.inj hnext
      exact h.goto hc hin.symm hold rfl
        (hknown.imp_left fun hleft => ⟨hleft.1, hleft.2.1, hleft.2.2.older hentry⟩)
    · rename_i hend
      split at hnext
      · rename_i first
        obtain rfl := Option.some.inj hnext
        exact h.goto hc hin.symm hold rfl
          (hknown.imp_left fun hleft => State.OldestOf.at_end hleft.2.2 hend)
      · obtain rfl := Option.some.inj hnext
        refine h.fail hc hin hold (hknown.resolve_left ?_) _
        rintro ⟨rfl, hpos, rfl⟩
        exact absurd hpos (not_lt.mpr (List.getElem?_eq_none_iff.mp hend))

theorem inv_deleting {first : κ} (h : Inv settings hash s) (hc : s.call t = some c)
    (hpc : c.pc = .deleting value first) (hnext : next settings hash s t c .goes = some s') :
    Inv settings hash s' := by
  have hin : c.pc.inMutex = true := by rw [hpc]; rfl
  have hold : c.pc.inShard = true := by rw [hpc]; rfl
  have hknown := (h.calls t c hc).known
  unfold Call.Known at hknown
  rw [hpc] at hknown
  simp only [next, hpc] at hnext
  split at hnext
  · rename_i hmem
    obtain rfl := Option.some.inj hnext
    have hroom : (s.store.evict first).cache.size < settings.maxsize :=
      (OrderedDict.size_erase_lt hmem).trans_le h.size_le
    exact h.goto_store hc ⟨rfl, rfl, rfl, rfl, rfl, rfl⟩
      ⟨le_rfl, fun _ _ ha => ha, .inl rfl, fun _ => .inl rfl, .inr (.inr hin)⟩ hin.symm hold rfl
      (.inr hroom) h.holds.evict hroom.le h.faults_le
  · rename_i hmem
    obtain rfl := Option.some.inj hnext
    refine h.fail hc hin hold (hknown.resolve_left ?_) _
    rintro ⟨entry, hfind, -⟩
    exact hmem (OrderedDict.mem_keys_iff.mpr ⟨entry, hfind⟩)

theorem inv_stamping (h : Inv settings hash s) (hc : s.call t = some c)
    (hpc : c.pc = .stamping value) (hnext : next settings hash s t c .goes = some s') :
    Inv settings hash s' := by
  have hknown := (h.calls t c hc).known
  unfold Call.Known at hknown
  rw [hpc] at hknown
  simp only [next, hpc] at hnext
  obtain rfl := Option.some.inj hnext
  exact h.goto hc (by rw [hpc]; rfl) (by rw [hpc]; rfl) rfl hknown

theorem inv_storing (h : Inv settings hash s) (hc : s.call t = some c)
    (hpc : c.pc = .storing e) (hnext : next settings hash s t c .goes = some s') :
    Inv settings hash s' := by
  have hin : c.pc.inMutex = true := by rw [hpc]; rfl
  have hold : c.pc.inShard = true := by rw [hpc]; rfl
  have hknown := (h.calls t c hc).known
  unfold Call.Known at hknown
  rw [hpc] at hknown
  simp only [next, hpc] at hnext
  obtain rfl := Option.some.inj hnext
  have hother : ∀ k, latest k (s.store.put c.op.key e).log = latest k s.store.log ∨
      k = c.op.key ∧ c.pc.inShard = true := by
    intro k
    by_cases hk : k = c.op.key
    · exact .inr ⟨hk, hold⟩
    · exact .inl (if_neg hk)
  have hsize : (s.store.put c.op.key e).cache.size ≤ settings.maxsize := by
    rcases hknown with hmem | hroom
    · exact (OrderedDict.size_set_of_mem hmem).trans_le h.size_le
    · exact OrderedDict.size_set_le.trans hroom
  exact h.goto_store hc ⟨rfl, rfl, rfl, rfl, rfl, rfl⟩
    ⟨le_rfl, fun _ _ ha => ha, .inl rfl, hother, .inr (.inr hin)⟩ hin.symm hold rfl
    (if_pos rfl) (h.holds.put e) hsize h.faults_le

theorem inv_leavingStore (h : Inv settings hash s) (hc : s.call t = some c)
    (hpc : c.pc = .leavingStore outcome) (hnext : next settings hash s t c .goes = some s') :
    Inv settings hash s' := by
  have hknown := (h.calls t c hc).known
  unfold Call.Known at hknown
  rw [hpc] at hknown
  simp only [next, hpc] at hnext
  obtain rfl := Option.some.inj hnext
  refine h.of_sameData hc rfl ?_ ⟨rfl, rfl, rfl, rfl, rfl, rfl⟩ fun c' hc' => ?_
  · exact h.locked.leavesMutex hc rfl (by rw [hpc]; rfl) rfl rfl rfl fun a => by
      simp [hpc, Pc.inShard]
  · obtain rfl := Option.some.inj hc'
    exact h.ok_next hc (by rw [hpc]; rfl) rfl hknown

/-! ### Runs -/

theorem inv_goes (h : Inv settings hash s) (hc : s.call t = some c)
    (hnext : next settings hash s t c .goes = some s') : Inv settings hash s' := by
  cases hpc : c.pc with
  | lookingUp => exact inv_lookingUp h hc hpc hnext
  | acquiringMutex => exact inv_acquiringMutex h hc hpc hnext
  | lookingAgain => exact inv_lookingAgain h hc hpc hnext
  | creating => exact inv_creating h hc hpc hnext
  | leavingMutex => exact inv_leavingMutex h hc hpc hnext
  | entering => exact inv_entering h hc hpc hnext
  | reading => exact inv_reading h hc hpc hnext
  | checking current => exact inv_checking h hc hpc hnext
  | dropping current => exact inv_dropping h hc hpc hnext
  | loading => simp [next, hpc] at hnext
  | popping => exact inv_popping h hc hpc hnext
  | acting entry =>
    simp only [next, hpc] at hnext
    obtain rfl := Option.some.inj hnext
    exact (inv_acting h hc hpc).1
  | acquiringStore value => exact inv_acquiringStore h hc hpc hnext
  | testingKey value => exact inv_testingKey h hc hpc hnext
  | testingSize value => exact inv_testingSize h hc hpc hnext
  | choosing value => exact inv_choosing h hc hpc hnext
  | iterating value used i oldest => exact inv_iterating h hc hpc hnext
  | deleting value oldest => exact inv_deleting h hc hpc hnext
  | stamping value => exact inv_stamping h hc hpc hnext
  | storing entry => exact inv_storing h hc hpc hnext
  | leavingStore outcome => exact inv_leavingStore h hc hpc hnext
  | leaving outcome => exact inv_leaving h hc hpc hnext

theorem inv_next (h : Inv settings hash s) (hc : s.call t = some c)
    (hnext : next settings hash s t c choice = some s') : Inv settings hash s' := by
  cases choice with
  | goes => exact inv_goes h hc hnext
  | returns value =>
    cases hpc : c.pc with
    | loading =>
      cases value with
      | none =>
        simp only [next, hpc] at hnext
        obtain rfl := Option.some.inj hnext
        exact h.goto hc (by rw [hpc]; rfl) (by rw [hpc]; rfl) rfl trivial
      | some value =>
        simp only [next, hpc] at hnext
        obtain rfl := Option.some.inj hnext
        exact h.goto hc (by rw [hpc]; rfl) (by rw [hpc]; rfl) rfl trivial
    | _ => simp [next, hpc] at hnext
  | raises =>
    cases hpc : c.pc with
    | loading =>
      simp only [next, hpc] at hnext
      obtain rfl := Option.some.inj hnext
      exact h.goto hc (by rw [hpc]; rfl) (by rw [hpc]; rfl) rfl trivial
    | acting entry =>
      simp only [next, hpc] at hnext
      obtain rfl := Option.some.inj hnext
      exact (inv_acting h hc hpc).2
    | _ => simp [next, hpc] at hnext
  | begins op | clears => cases hnext

omit [DecidableEq τ] in
theorem inv_tick {now : ℚ} (h : Inv settings hash s) (hnow : s.clock ≤ now) :
    Inv settings hash { s with clock := now } :=
  ⟨⟨h.locked.mutex, h.locked.locks⟩, h.created, h.inj,
    fun t c hc => ⟨(h.calls t c hc).shard, (h.calls t c hc).known.mono h.size_le hnow
      (fun _ => rfl) (fun _ => rfl) fun _ => .inl ⟨rfl, rfl, rfl⟩⟩,
    h.holds.mono hnow, h.size_le, h.faults_le⟩

theorem inv_begins {op : Op κ β} (h : Inv settings hash s) (hidle : s.call t = none) :
    Inv settings hash (s.setCall t (some ⟨op, none, .lookingUp⟩)) := by
  have hlocked : Locked (s.setCall t (some ⟨op, none, .lookingUp⟩)) := by
    refine h.locked.change rfl (fun _ _ => .rfl) ?_ (fun _ _ _ => .rfl) fun a => ?_
    · change s.mutex = some t ↔ _
      rw [h.locked.mutex t]
      simp [hidle, Pc.inMutex]
    · change s.locks a = some t ↔ _
      rw [h.locked.locks a t]
      simp [hidle, Pc.inShard]
  refine ⟨hlocked, h.created, h.inj, fun u d hd => ?_, h.holds, h.size_le, h.faults_le⟩
  by_cases hu : u = t
  · subst hu
    obtain rfl : ⟨op, none, .lookingUp⟩ = d := by simpa [State.setCall] using hd
    exact ⟨by simp [Pc.hasShard, Pc.inShard], trivial⟩
  · have hd : s.call u = some d := by simpa [State.setCall, hu] using hd
    exact ⟨(h.calls u d hd).shard, (h.calls u d hd).known⟩

omit [DecidableEq τ] in
theorem inv_clears (h : Inv settings hash s) :
    Inv settings hash { s with
      store := s.store.clear
      drops := if s.store.cache.size = 0 then s.drops else s.drops + 1 } := by
  have hdrops : s.faults ≤ if s.store.cache.size = 0 then s.drops else s.drops + 1 := by
    split
    · exact h.faults_le
    · exact h.faults_le.trans (Nat.le_succ _)
  refine ⟨⟨h.locked.mutex, h.locked.locks⟩, h.created, h.inj, fun t c hc => ?_, .clear,
    Nat.zero_le _, hdrops⟩
  refine ⟨(h.calls t c hc).shard, (h.calls t c hc).known.mono h.size_le le_rfl (fun _ => rfl)
    (fun _ => rfl) fun _ => ?_⟩
  by_cases hempty : s.store.cache.size = 0
  · have hcache : s.store.clear.cache = s.store.cache :=
      OrderedDict.ext (List.length_eq_zero_iff.mp hempty).symm
    exact .inl ⟨hcache, if_pos hempty, rfl⟩
  · refine .inr ⟨Nat.pos_of_ne_zero hempty, ?_⟩
    rw [State.Disturbed, if_neg hempty]
    exact Nat.lt_succ_of_le h.faults_le

theorem inv_step (hstep : step settings hash s act = some s') (h : Inv settings hash s) :
    Inv settings hash s' := by
  cases act with
  | tick now =>
    obtain ⟨hnow, hstep⟩ := Option.ite_none_right_eq_some.mp hstep
    obtain rfl := Option.some.inj hstep
    exact inv_tick h hnow
  | thread t choice =>
    cases hc : s.call t with
    | some c =>
      simp only [step, hc] at hstep
      exact inv_next h hc hstep
    | none =>
      cases choice with
      | begins op =>
        simp only [step, hc] at hstep
        obtain rfl := Option.some.inj hstep
        exact inv_begins h hc
      | clears =>
        simp only [step, hc] at hstep
        obtain rfl := Option.some.inj hstep
        exact inv_clears h
      | goes | returns value | raises => simp [step, hc] at hstep

omit [DecidableEq τ] in
theorem inv_initial : Inv settings hash (initial clock : State τ κ β) where
  locked := ⟨fun t => by simp [initial], fun a t => by simp [initial]⟩
  created i a ha := by cases ha
  inj i j a ha := by cases ha
  calls t c hc := by cases hc
  holds _ := .inl rfl
  size_le := Nat.zero_le _
  faults_le := Nat.zero_le _

theorem inv_run (h : Run (step settings hash) Free (initial clock : State τ κ β) xs s) :
    Inv settings hash s :=
  h.invariant (fun _ _ _ _ hstep hi => inv_step hstep hi) inv_initial

/-- Whatever threads share a cache, it keeps to its bound and has what has been stored last, one
thread is in the section of a shard at a time, and a call ends with what has been stored last for
its key, and with a found entry only if it has not been out of date. -/
theorem shared_cache_sound
    (h : Run (step settings hash) Free (initial clock : State τ κ β) xs s) :
    s.store.cache.size ≤ settings.maxsize ∧ Holds s.store s.clock ∧
      (∀ t u c d, s.call t = some c → s.call u = some d → c.pc.inShard = true →
        d.pc.inShard = true →
        shardIndex settings hash c.op.key = shardIndex settings hash d.op.key → t = u) ∧
      ∀ t c outcome, s.call t = some c → c.pc = .leaving outcome →
        s.Answers c.op.key outcome := by
  have hi := inv_run h
  refine ⟨hi.size_le, hi.holds, fun t u c d hc hd => hi.eq_of_inShard hc hd, ?_⟩
  intro t c outcome hc hpc
  have hknown := (hi.calls t c hc).known
  unfold Call.Known at hknown
  rwa [hpc] at hknown

/-- Two threads get the same key of a cache with one shard: the second one waits for the first,
whose loader returns, and finds what has been loaded. -/
def sameKey : List (Act Bool ℤ ℕ) :=
  [.thread false (.begins (.get 7 true)), .thread false .goes, .thread false .goes,
    .thread true (.begins (.get 7 true)), .thread true .goes, .thread false .goes,
    .thread false .goes, .thread false .goes, .thread true .goes, .thread true .goes,
    .thread false .goes, .thread true .goes, .thread false .goes,
    .thread false (.returns (some 5)), .thread false .goes, .tick 3, .thread false .goes,
    .thread false .goes, .thread false .goes, .thread false .goes, .thread false .goes,
    .thread false .goes, .tick 4, .thread true .goes, .thread true .goes, .thread true .goes]

theorem shared_cache_sound_sameKey : ∃ s : State Bool ℤ ℕ,
    Run (step twoPlaces id) Free (initial 0) sameKey s ∧
      s.call true = some ⟨.get 7 true, some 0, .leaving (.found ⟨some 5, 13⟩ 4)⟩ ∧
      s.Answers 7 (.found ⟨some 5, 13⟩ 4) := by
  obtain ⟨s, hrun, hs⟩ := exists_run_of_exec (free_of_check (σ := State Bool ℤ ℕ))
    (step twoPlaces id) (initial 0) sameKey
    (fun s => decide (s.call true = some ⟨.get 7 true, some 0, .leaving (.found ⟨some 5, 13⟩ 4)⟩))
    (by decide +kernel)
  have hcall := of_decide_eq_true hs
  exact ⟨s, hrun, hcall, (shared_cache_sound hrun).2.2.2 true _ _ hcall rfl⟩

end ShimService.ConcurrentTtlCache.Shared
