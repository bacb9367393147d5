import ShimService.Cache.TtlCache

/-! When a `TTLCache` keeps to its bound, its expiries and its order of eviction. -/
namespace ShimService.TtlCache

open Program Transition

variable {κ β : Type} [DecidableEq κ] {settings : Settings β} {cache : Cache κ β} {key : κ}
  {s t : State κ β} {act : Act κ β} {xs : List (Act κ β)}

structure Call.Sound (settings : Settings β) (call : Call κ β) : Prop where
  size_le : call.after.size ≤ settings.maxsize
  /-- What is returned for an expired entry is the loader's value. -/
  not_stale : ∀ entry value, call.before.find call.act.key = some entry →
    entry.expireAt < call.act.now → call.result = .ok (some value) →
    call.act.loaded = some value
  no_raise : call.result ≠ .error .min
  evicts_oldest : ∀ value storedAt, call.act.stores = some (value, storedAt) →
    call.act.key ∉ call.before.keys → call.before.size = settings.maxsize →
    call.before.ReplacesLeast Entry.expireAt call.act.key ⟨storedAt + settings.ttl, value⟩
      call.after

/-- The values can be compared, and the first of the least ones is among the first to expire. -/
def Evictable (settings : Settings β) (cache : Cache κ β) : Prop :=
  ∃ oldest, cache.least settings.byValue = some oldest ∧
    ∀ k other, cache.find k = some other → oldest.2.expireAt ≤ other.expireAt

/-- A new key is stored in a full cache only where the right entry is evicted, and an expired
entry is popped only where it holds `None`. -/
structure Fits (settings : Settings β) (cache : Cache κ β) (act : Act κ β) : Prop where
  evictable : act.stores.isSome → act.key ∉ cache.keys → cache.size = settings.maxsize →
    Evictable settings cache
  not_popped : ∀ key now entry, act = .pop key now → cache.find key = some entry →
    entry.expireAt < now → entry.value = none

theorem setItem_apply (value : Option β) (now : ℚ) : setItem settings key value now cache =
    if key ∉ cache.keys ∧ cache.size = settings.maxsize then
      match cache.least settings.byValue with
      | none => (.error .min, cache)
      | some oldest => (.ok (), (cache.erase oldest.1).set key ⟨now + settings.ttl, value⟩)
    else (.ok (), cache.set key ⟨now + settings.ttl, value⟩) := by
  unfold setItem
  rw [bind_read]
  by_cases hfull : key ∉ cache.keys ∧ cache.size = settings.maxsize
  · simp only [id, if_pos hfull]
    cases cache.least settings.byValue with
    | none => rfl
    | some oldest => rfl
  · simp only [id, if_neg hfull]
    rfl

theorem setItem_room {value : Option β} {now : ℚ}
    (h : key ∈ cache.keys ∨ cache.size ≠ settings.maxsize) :
    setItem settings key value now cache =
      (.ok (), cache.set key ⟨now + settings.ttl, value⟩) := by
  rw [setItem_apply, if_neg]
  rintro ⟨hnew, hfull⟩
  exact h.elim hnew fun hroom => hroom hfull

theorem get_live {v : Entry β} {now : ℚ} {loader : Option (Load β)}
    (hv : cache.find key = some v) (hlive : now ≤ v.expireAt) :
    get settings key now loader cache = (.ok v.value, cache) := by
  unfold get
  rw [bind_read]
  simp only [id, hv, gt_iff_lt, if_neg (not_lt.mpr hlive)]
  rfl

theorem get_missing {now : ℚ} {loader : Option (Load β)}
    (h : ∀ v, cache.find key = some v → v.expireAt < now) :
    get settings key now loader cache = load settings key loader (cache.erase key) := by
  unfold get
  rw [bind_read]
  cases hv : cache.find key with
  | none => simp only [id, hv, OrderedDict.erase_of_not_mem (OrderedDict.find_eq_none_iff.mp hv)]
  | some v =>
    simp only [id, hv, gt_iff_lt, if_pos (h v hv)]
    rw [bind_modify]

theorem load_returns {value : β} {storedAt : ℚ} :
    load settings key (some (.returns value storedAt)) cache =
      ((setItem settings key (some value) storedAt cache).1.map fun _ => some value,
        (setItem settings key (some value) storedAt cache).2) := bind_pure_apply

theorem run_set {value : Option β} {now : ℚ} : (Act.set key value now).run settings cache =
    ((setItem settings key value now cache).1.map fun _ => none,
      (setItem settings key value now cache).2) := bind_pure_apply

theorem pop_absent (h : cache.find key = none) : pop key cache = (.ok none, cache) := by
  unfold pop
  rw [bind_read]
  simp only [id, h, pure_apply]

theorem pop_present {v : Entry β} (h : cache.find key = some v) :
    pop key cache = (.ok v.value, cache.erase key) := by
  unfold pop
  rw [bind_read]
  simp only [id, h, bind_modify, pure_apply]

theorem set_size_le {entry : Entry β} (hsize : cache.size ≤ settings.maxsize)
    (h : key ∈ cache.keys ∨ cache.size ≠ settings.maxsize) :
    (cache.set key entry).size ≤ settings.maxsize := by
  rcases h with hmem | hroom
  · rwa [OrderedDict.size_set_of_mem hmem]
  · have hle := OrderedDict.size_set_le (d := cache) (k := key) (v := entry)
    omega

theorem setItem_size_le {value : Option β} {now : ℚ} (hsize : cache.size ≤ settings.maxsize) :
    (setItem settings key value now cache).2.size ≤ settings.maxsize := by
  by_cases hfull : key ∉ cache.keys ∧ cache.size = settings.maxsize
  · rw [setItem_apply, if_pos hfull]
    cases hleast : cache.least settings.byValue with
    | none => exact hsize
    | some oldest =>
      have hmem := OrderedDict.mem_keys_iff.mpr ⟨_, OrderedDict.least_find hleast⟩
      have hlt := OrderedDict.size_erase_lt hmem
      have hle := OrderedDict.size_set_le (d := cache.erase oldest.1) (k := key)
        (v := (⟨now + settings.ttl, value⟩ : Entry β))
      simp only
      omega
  · have hroom : key ∈ cache.keys ∨ cache.size ≠ settings.maxsize := by tauto
    rw [setItem_room hroom]
    exact set_size_le hsize hroom

theorem load_size_le (hsize : cache.size ≤ settings.maxsize) (loader : Option (Load β)) :
    (load settings key loader cache).2.size ≤ settings.maxsize := by
  match loader with
  | none | some .returnsNone | some .raises => exact hsize
  | some (.returns value storedAt) =>
    rw [load_returns]
    exact setItem_size_le hsize

theorem call_size_le (hsize : cache.size ≤ settings.maxsize) (act : Act κ β) :
    (callOf settings cache act).after.size ≤ settings.maxsize := by
  have herase : ∀ key, (cache.erase key).size ≤ settings.maxsize := fun key =>
    OrderedDict.size_erase_le.trans hsize
  cases act with
  | get key now loader =>
    change (get settings key now loader cache).2.size ≤ _
    cases hv : cache.find key with
    | none =>
      rw [get_missing (by simp [hv])]
      exact load_size_le (herase key) loader
    | some v =>
      rcases le_or_gt now v.expireAt with hlive | hstale
      · rw [get_live hv hlive]
        exact hsize
      · rw [get_missing (by simpa [hv] using hstale)]
        exact load_size_le (herase key) loader
  | set key value now =>
    simp only [callOf, run_set]
    exact setItem_size_le hsize
  | pop key now =>
    change (pop key cache).2.size ≤ _
    cases hv : cache.find key with
    | none =>
      rw [pop_absent hv]
      exact hsize
    | some v =>
      rw [pop_present hv]
      exact herase key

theorem replacesLeast_iff {oldest : κ × Entry β} {entry : Entry β} (hnew : key ∉ cache.keys)
    (hleast : cache.least settings.byValue = some oldest) :
    cache.ReplacesLeast Entry.expireAt key entry ((cache.erase oldest.1).set key entry) ↔
      Evictable settings cache := by
  have hold := OrderedDict.least_find hleast
  have hne : oldest.1 ≠ key := fun heq => hnew (OrderedDict.mem_keys_iff.mpr ⟨_, heq ▸ hold⟩)
  constructor
  · rintro ⟨victim, old, hvictim, hfirst, hafter⟩
    have hgone := hafter oldest.1
    rw [OrderedDict.find_set, if_neg hne, if_neg hne, OrderedDict.find_erase, if_pos rfl] at hgone
    have hsame : oldest.1 = victim := by
      by_contra hother
      rw [if_neg hother, hold] at hgone
      cases hgone
    obtain rfl : old = oldest.2 := Option.some.inj (hvictim.symm.trans (hsame ▸ hold))
    exact ⟨oldest, hleast, hfirst⟩
  · rintro ⟨oldest', hleast', hfirst⟩
    obtain rfl : oldest = oldest' := Option.some.inj (hleast.symm.trans hleast')
    exact OrderedDict.replacesLeast hold hfirst

theorem stored_iff (value : Option β) (now : ℚ) (hnew : key ∉ cache.keys)
    (hfull : cache.size = settings.maxsize) :
    ((setItem settings key value now cache).1 ≠ .error .min ∧
      cache.ReplacesLeast Entry.expireAt key ⟨now + settings.ttl, value⟩
        (setItem settings key value now cache).2) ↔ Evictable settings cache := by
  rw [setItem_apply, if_pos ⟨hnew, hfull⟩]
  cases hleast : cache.least settings.byValue with
  | none => simp [Evictable, hleast]
  | some oldest =>
    simp only [ne_eq, reduceCtorEq, not_false_eq_true, true_and]
    exact replacesLeast_iff hnew hleast

/-- A call that stores a new key in a full cache is sound if and only if the right entry is
evicted. -/
theorem sound_iff_evictable {call : Call κ β} {value : Option β} {storedAt : ℚ}
    (hstores : call.act.stores = some (value, storedAt)) (hnew : call.act.key ∉ call.before.keys)
    (hfull : call.before.size = settings.maxsize)
    (hraise : call.result = .error .min ↔
      (setItem settings call.act.key value storedAt call.before).1 = .error .min)
    (hafter : call.after = (setItem settings call.act.key value storedAt call.before).2) :
    call.Sound settings ↔ Evictable settings call.before := by
  have hstored := stored_iff value storedAt hnew hfull
  constructor
  · intro h
    have hreplaces := h.evicts_oldest _ _ hstores hnew hfull
    rw [hafter] at hreplaces
    exact hstored.mp ⟨fun he => h.no_raise (hraise.mpr he), hreplaces⟩
  · intro h
    obtain ⟨hok, hreplaces⟩ := hstored.mpr h
    refine ⟨?_, ?_, fun he => hok (hraise.mp he), ?_⟩
    · rw [hafter]
      exact setItem_size_le hfull.le
    · intro entry _ hentry
      rw [OrderedDict.find_eq_none_iff.mpr hnew] at hentry
      cases hentry
    · intro value' storedAt' hstores' _ _
      obtain ⟨rfl, rfl⟩ : value = value' ∧ storedAt = storedAt' := by
        simpa using hstores.symm.trans hstores'
      rw [hafter]
      exact hreplaces

theorem fits_iff_evictable {act : Act κ β} (hstores : act.stores.isSome)
    (hpop : ∀ key now, act ≠ .pop key now) (hnew : act.key ∉ cache.keys)
    (hfull : cache.size = settings.maxsize) :
    Fits settings cache act ↔ Evictable settings cache :=
  ⟨fun h => h.evictable hstores hnew hfull,
    fun h => ⟨fun _ _ _ => h, fun key now _ heq => absurd heq (hpop key now)⟩⟩

theorem sound_set_iff {value : Option β} {now : ℚ} (hsize : cache.size ≤ settings.maxsize) :
    (callOf settings cache (.set key value now)).Sound settings ↔
      Fits settings cache (.set key value now) := by
  have hrun : (Act.set key value now).run settings cache = _ := run_set
  by_cases hfull : key ∉ cache.keys ∧ cache.size = settings.maxsize
  · rw [fits_iff_evictable rfl (by simp) hfull.1 hfull.2]
    refine sound_iff_evictable rfl hfull.1 hfull.2 ?_ ?_
    · simp only [callOf, hrun, Act.key]
      cases (setItem settings key value now cache).1 <;> simp [Except.map]
    · simp only [callOf, hrun, Act.key]
  · have hroom : key ∈ cache.keys ∨ cache.size ≠ settings.maxsize := by tauto
    rw [setItem_room hroom] at hrun
    refine iff_of_true ⟨call_size_le hsize _, ?_, ?_, ?_⟩ ⟨?_, by simp⟩
    · intro _ _ _ _ hresult
      simp [callOf, hrun, Except.map] at hresult
    · simp [callOf, hrun, Except.map]
    · intro _ _ _ hnew hmax
      exact absurd ⟨hnew, hmax⟩ hfull
    · intro _ hnew hmax
      exact absurd ⟨hnew, hmax⟩ hfull

theorem sound_live_iff {v : Entry β} {now : ℚ} {loader : Option (Load β)}
    (hsize : cache.size ≤ settings.maxsize) (hv : cache.find key = some v)
    (hlive : now ≤ v.expireAt) :
    (callOf settings cache (.get key now loader)).Sound settings ↔
      Fits settings cache (.get key now loader) := by
  have hrun : (Act.get key now loader).run settings cache = (.ok v.value, cache) :=
    get_live hv hlive
  have hmem : key ∈ cache.keys := OrderedDict.mem_keys_iff.mpr ⟨v, hv⟩
  refine iff_of_true ⟨call_size_le hsize _, ?_, ?_, ?_⟩ ⟨?_, by simp⟩
  · intro entry _ hentry hstale
    obtain rfl : v = entry := Option.some.inj (hv.symm.trans hentry)
    exact absurd hlive (not_le.mpr hstale)
  · simp [callOf, hrun]
  · intro _ _ _ hnew
    exact absurd hmem hnew
  · intro _ hnew
    exact absurd hmem hnew

theorem sound_missing_iff {now : ℚ} {loader : Option (Load β)}
    (hsize : cache.size ≤ settings.maxsize)
    (h : ∀ v, cache.find key = some v → v.expireAt < now) :
    (callOf settings cache (.get key now loader)).Sound settings ↔
      Fits settings cache (.get key now loader) := by
  have hrun : (Act.get key now loader).run settings cache =
      load settings key loader (cache.erase key) := get_missing h
  match loader with
  | none | some .returnsNone | some .raises =>
    refine iff_of_true ⟨call_size_le hsize _, ?_, ?_, ?_⟩ ⟨?_, by simp⟩
    · intro _ _ _ _ hresult
      simp [callOf, hrun, load, pure_apply, raise] at hresult
    · simp [callOf, hrun, load, pure_apply, raise]
    · intro _ _ hstores
      cases hstores
    · intro hstores
      cases hstores
  | some (.returns value storedAt) =>
    rw [load_returns] at hrun
    by_cases hfull : key ∉ cache.keys ∧ cache.size = settings.maxsize
    · rw [fits_iff_evictable rfl (by simp) hfull.1 hfull.2]
      rw [OrderedDict.erase_of_not_mem hfull.1] at hrun
      refine sound_iff_evictable rfl hfull.1 hfull.2 ?_ ?_
      · simp only [callOf, hrun, Act.key]
        cases (setItem settings key (some value) storedAt cache).1 <;> simp [Except.map]
      · simp only [callOf, hrun, Act.key]
    · -- An expired entry has made room for the loaded one.
      have hroom : key ∈ (cache.erase key).keys ∨ (cache.erase key).size ≠ settings.maxsize := by
        by_cases hmem : key ∈ cache.keys
        · exact .inr (Nat.ne_of_lt (Nat.lt_of_lt_of_le (OrderedDict.size_erase_lt hmem) hsize))
        · rw [OrderedDict.erase_of_not_mem hmem]
          tauto
      rw [setItem_room hroom] at hrun
      refine iff_of_true ⟨call_size_le hsize _, ?_, ?_, ?_⟩ ⟨?_, by simp⟩
      · intro _ _ _ _ hresult
        simpa [callOf, hrun, Except.map, Act.loaded] using hresult
      · simp [callOf, hrun, Except.map]
      · intro _ _ _ hnew hmax
        exact absurd ⟨hnew, hmax⟩ hfull
      · intro _ hnew hmax
        exact absurd ⟨hnew, hmax⟩ hfull

theorem sound_pop_iff {now : ℚ} (hsize : cache.size ≤ settings.maxsize) :
    (callOf settings cache (.pop key now)).Sound settings ↔
      Fits settings cache (.pop key now) := by
  cases hv : cache.find key with
  | none =>
    have hrun : (Act.pop key now).run settings cache = (.ok none, cache) := pop_absent hv
    refine iff_of_true ⟨call_size_le hsize _, ?_, ?_, ?_⟩ ⟨?_, ?_⟩
    · intro _ _ _ _ hresult
      simp [callOf, hrun] at hresult
    · simp [callOf, hrun]
    · intro _ _ hstores
      cases hstores
    · intro hstores
      cases hstores
    · rintro _ _ entry ⟨⟩ hentry
      rw [hv] at hentry
      cases hentry
  | some v =>
    have hrun : (Act.pop key now).run settings cache = (.ok v.value, cache.erase key) :=
      pop_present hv
    constructor
    · intro h
      refine ⟨by simp [Act.stores], ?_⟩
      rintro _ _ entry ⟨⟩ hentry hstale
      obtain rfl : v = entry := Option.some.inj (hv.symm.trans hentry)
      cases hvalue : v.value with
      | none => rfl
      | some value =>
        have hnone := h.not_stale v value hv hstale (by simp [callOf, hrun, hvalue])
        cases hnone
    · intro h
      refine ⟨call_size_le hsize _, ?_, ?_, ?_⟩
      · intro entry value hentry hstale hresult
        have hnone := h.not_popped key now entry rfl hentry hstale
        obtain rfl : v = entry := Option.some.inj (hv.symm.trans hentry)
        simp [callOf, hrun, hnone] at hresult
      · simp [callOf, hrun]
      · intro _ _ hstores
        cases hstores

theorem sound_iff (hsize : cache.size ≤ settings.maxsize) (act : Act κ β) :
    (callOf settings cache act).Sound settings ↔ Fits settings cache act := by
  cases act with
  | get key now loader =>
    cases hv : cache.find key with
    | none =>
      refine sound_missing_iff hsize fun v hfind => ?_
      rw [hv] at hfind
      cases hfind
    | some v =>
      rcases le_or_gt now v.expireAt with hlive | hstale
      · exact sound_live_iff hsize hv hlive
      · refine sound_missing_iff hsize fun w hfind => ?_
        obtain rfl : v = w := Option.some.inj (hv.symm.trans hfind)
        exact hstale
  | set key value now => exact sound_set_iff hsize
  | pop key now => exact sound_pop_iff hsize

theorem step_eq_some : step settings s act = some t ↔
    (s.clock ≤ act.now ∧ act.now ≤ act.ends) ∧
    t = ⟨act.ends, (callOf settings s.cache act).after,
      callOf settings s.cache act :: s.calls⟩ := by
  unfold step
  split
  · rename_i hclock
    simp [hclock, @eq_comm _ t]
  · rename_i hclock
    simp [hclock]

/-- Every call of a run keeps to the bound and the expiries, does not raise for the values, and
evicts in order, if and only if every step fits. -/
theorem sound_iff_guarded {clock : ℚ} (h : Run (step settings) Free (initial clock) xs t) :
    (∀ call ∈ t.calls, call.Sound settings) ↔
      Run (step settings) (fun s act => Fits settings s.cache act) (initial clock) xs t := by
  refine h.good_iff_guarded (I := fun s => s.cache.size ≤ settings.maxsize)
    (G := fun s => ∀ call ∈ s.calls, call.Sound settings) ?_ ?_ ?_ ?_ ?_ ?_
  · intro s act t hstep hsize
    obtain ⟨_, rfl⟩ := step_eq_some.mp hstep
    exact call_size_le hsize act
  · intro s act t hstep _ hbad hall
    obtain ⟨_, rfl⟩ := step_eq_some.mp hstep
    exact hbad fun call hcall => hall call (List.mem_cons_of_mem _ hcall)
  · intro s act t hfits hstep hsize hall
    obtain ⟨_, rfl⟩ := step_eq_some.mp hstep
    exact List.forall_mem_cons.mpr ⟨(sound_iff hsize act).mpr hfits, hall⟩
  · intro s act t hstep hsize hunfit hall
    obtain ⟨_, rfl⟩ := step_eq_some.mp hstep
    exact hunfit ((sound_iff hsize act).mp (hall _ List.mem_cons_self))
  · exact Nat.zero_le _
  · exact fun _ hcall => absurd hcall (List.not_mem_nil)

/-- Two places, ten seconds, and numbers for values. -/
def twoPlaces : Settings ℕ where
  maxsize := 2
  ttl := 10
  lt v w := do
    let v ← v
    let w ← w
    some (decide (v < w))
  one_lt_maxsize := by decide
  ttl_pos := by decide

/-- Whether a step fits, told from what `min` finds. -/
def fitsCheck (settings : Settings β) (s : State κ β) (act : Act κ β) : Bool :=
  (match s.cache.least settings.byValue with
  | none => s.cache.entries.isEmpty
  | some oldest =>
    s.cache.entries.all fun entry => decide (oldest.2.expireAt ≤ entry.2.expireAt)) &&
  s.cache.entries.all fun entry => decide (act.now ≤ entry.2.expireAt)

theorem fits_of_check (settings : Settings β) (s : State κ β) (act : Act κ β)
    (h : fitsCheck settings s act = true) : Fits settings s.cache act := by
  obtain ⟨hleast, hlive⟩ := Bool.and_eq_true_iff.mp h
  constructor
  · intro _ _ hfull
    split at hleast
    · have hone := settings.one_lt_maxsize
      rw [← hfull, OrderedDict.size, List.isEmpty_iff.mp hleast] at hone
      exact absurd hone (Nat.not_lt_zero 1)
    · rename_i oldest heq
      refine ⟨oldest, heq, fun k other hother => ?_⟩
      simpa using List.all_eq_true.mp hleast _ (OrderedDict.mem_entries_iff.mpr hother)
  · rintro key now entry rfl hentry hstale
    have hle := List.all_eq_true.mp hlive _ (OrderedDict.mem_entries_iff.mpr hentry)
    exact absurd (of_decide_eq_true hle) (not_le.mpr hstale)

/-- Where the values grow as the expiries do, the order of eviction is the right one. -/
theorem growing_values_sound : ∃ t,
    Run (step twoPlaces) Free (initial 0)
      [.set 1 (some 5) 0, .get 2 1 (some (.returns 6 2)), .set 3 (some 7) 3, .pop 2 4] t ∧
    t.cache.size = 1 ∧ ∀ call ∈ t.calls, call.Sound twoPlaces := by
  obtain ⟨t, hrun, ht⟩ := exists_run_of_exec (fits_of_check twoPlaces) (step twoPlaces) (initial 0)
    [.set 1 (some 5) 0, .get 2 1 (some (.returns 6 2)), .set 3 (some 7) 3, .pop 2 4]
    (fun t => t.cache.size = 1) (by decide +kernel)
  exact ⟨t, hrun.free, by simpa using ht, (sound_iff_guarded hrun.free).mpr hrun⟩

/-- The second entry expires later and has the smaller value: it is the one that goes. -/
theorem smaller_value_evicted : ∃ t,
    Run (step twoPlaces) Free (initial 0)
      [.set 1 (some 2) 0, .set 2 (some 1) 1, .set 3 (some 3) 2] t ∧
    ¬ ∀ call ∈ t.calls, call.Sound twoPlaces := by
  obtain ⟨t, hrun, ht⟩ := exists_run_of_exec free_of_check (step twoPlaces) (initial 0)
    [.set 1 (some 2) 0, .set 2 (some 1) 1, .set 3 (some 3) 2]
    (fun t => t.calls.any fun call =>
      decide (call.act.key = 3 ∧ call.act.stores = some (some 3, 2) ∧
        call.before.entries = [(1, ⟨10, some 2⟩), (2, ⟨11, some 1⟩)] ∧
        call.after.entries = [(1, ⟨10, some 2⟩), (3, ⟨12, some 3⟩)])) (by decide +kernel)
  refine ⟨t, hrun, fun hall => ?_⟩
  obtain ⟨call, hcall, hcheck⟩ := List.any_eq_true.mp ht
  obtain ⟨hkey, hstores, hbefore, hafter⟩ := of_decide_eq_true hcheck
  have hnew : call.act.key ∉ call.before.keys := by
    rw [hkey, OrderedDict.keys, hbefore]
    decide
  have hfull : call.before.size = twoPlaces.maxsize := by
    rw [OrderedDict.size, hbefore]
    rfl
  have hfirst : call.before.find 1 = some ⟨10, some 2⟩ := by
    rw [OrderedDict.find, hbefore]
    rfl
  have hsecond : call.before.find 2 = some ⟨11, some 1⟩ := by
    rw [OrderedDict.find, hbefore]
    rfl
  have hgone : call.after.find 2 = none := by
    rw [OrderedDict.find, hafter]
    rfl
  obtain ⟨victim, old, hvictim, hoffered, hplaces⟩ :=
    (hall call hcall).evicts_oldest _ _ hstores hnew hfull
  have hsame : 2 = victim := by
    by_contra hother
    have htwo := hplaces 2
    rw [hkey, if_neg (by decide), if_neg hother, hgone, hsecond] at htwo
    cases htwo
  obtain rfl : old = ⟨11, some 1⟩ := Option.some.inj (hvictim.symm.trans (hsame ▸ hsecond))
  exact absurd (hoffered 1 _ hfirst) (by decide +kernel)

end ShimService.TtlCache
