import ShimService.Cache.ConcurrentTtlCache

/-!
The calls of a `ConcurrentTtlCache` against a bounded expiring map, which is told from the calls
alone: what they had to store, what they removed, and which entries gave way.
-/
namespace ShimService.ConcurrentTtlCache

open Program Transition
open TtlCache (Load)

variable {κ β : Type} [DecidableEq κ] {settings : Settings} {store : Store κ β} {key : κ}
  {last : κ → Option (CacheEntry β)} {cache after : Cache κ β} {entry : CacheEntry β}
  {clock now : ℚ} {s t : State κ β} {act : Act κ β} {xs : List (Act κ β)}

/-- The entry of a key as long as it has not expired. -/
def live (last : κ → Option (CacheEntry β)) (key : κ) (now : ℚ) : Option (CacheEntry β) :=
  (last key).filter fun entry => decide (now < entry.expireAt)

/-- The key and the entry that a call has to store: a `set` always, and a `get` what its loader
returns where the map has no live entry. -/
def Act.storing (settings : Settings) (last : κ → Option (CacheEntry β)) (act : Act κ β) :
    Option (κ × CacheEntry β) :=
  let entry := (act.stores settings).map fun stored =>
    (stored.1, ⟨stored.2.1, stored.2.2 + settings.ttl⟩)
  match act with
  | .get key now _ _ => if (live last key now).isSome then none else entry
  | _ => entry

/-- The map after a call, from the one before it. An entry is evicted where a call that stores
another has dropped it from the cache. -/
def Call.lastAfter (settings : Settings) (call : Call κ β) (last : κ → Option (CacheEntry β))
    (key : κ) : Option (CacheEntry β) :=
  match call.act with
  | .invalidate k _ _ => if key = k then none else last key
  | .clear _ => none
  | act =>
    match act.storing settings last with
    | none => last key
    | some (k, entry) =>
      if key = k then some entry
      else if key ∈ call.before.cache.keys ∧ key ∉ call.after.cache.keys then none
      else last key

/-- The last entry stored for each key in some calls, the last call first, unless it has been
evicted, invalidated or cleared since. -/
def lastStoredBy (settings : Settings) : List (Call κ β) → κ → Option (CacheEntry β)
  | [] => fun _ => none
  | call :: earlier => call.lastAfter settings (lastStoredBy settings earlier)

/-- The `find`s, and the `get`s that have no loader to call. -/
def Act.looksUp (settings : Settings) : Act κ β → Option κ
  | .find key _ => some key
  | .get key _ none _ => if settings.hasLoader then none else some key
  | _ => none

/-- An entry is in the cache, where the least to expire has made room for it if there was none, and
nothing else has changed. -/
def StoredIn (settings : Settings) (before : Cache κ β) (key : κ) (entry : CacheEntry β)
    (after : Cache κ β) : Prop :=
  if key ∉ before.keys ∧ before.size = settings.maxsize then
    before.ReplacesLeast CacheEntry.expireAt key entry after
  else ∀ k, after.find k = if k = key then some entry else before.find k

/-- A call is one of a bounded map that held `last` before it. -/
structure Call.Sound (settings : Settings) (last : κ → Option (CacheEntry β)) (call : Call κ β) :
    Prop where
  size_le : call.after.cache.size ≤ settings.maxsize
  looked_up : ∀ key, call.act.looksUp settings = some key →
    call.result = .ok ((live last key call.act.now).bind CacheEntry.value)
  /-- A live entry answers any `get`, which changes nothing. -/
  hits : ∀ key now loader default entry, call.act = .get key now loader default →
    live last key now = some entry → call.result = .ok entry.value ∧ call.after = call.before
  /-- A loader is called only for a key without a live entry. -/
  loads : ∀ events key, call.after.log = events ++ call.before.log → .loading key ∈ events →
    live last key call.act.now = none
  stores : ∀ key entry, call.act.storing settings last = some (key, entry) →
    StoredIn settings call.before.cache key entry call.after.cache

/-! The lazily cleaned cache and the map. -/

/-- The cache has the entry of each key, or has lost one that has expired. -/
def Refines (cache : Cache κ β) (last : κ → Option (CacheEntry β)) (clock : ℚ) : Prop :=
  ∀ key, cache.find key = last key ∨
    cache.find key = none ∧ ∀ entry, last key = some entry → entry.expireAt ≤ clock

theorem Refines.mono {clock' : ℚ} (h : Refines cache last clock) (hle : clock ≤ clock') :
    Refines cache last clock' := fun key =>
  (h key).imp_right fun hlost => ⟨hlost.1, fun entry hentry => (hlost.2 entry hentry).trans hle⟩

theorem Refines.live_eq (h : Refines cache last clock) (hle : clock ≤ now) (key : κ) :
    live last key now = (cache.find key).filter fun entry => decide (now < entry.expireAt) := by
  unfold live
  rcases h key with hsame | ⟨hnone, hexpired⟩
  · rw [hsame]
  · rw [hnone]
    cases hlast : last key with
    | none => rfl
    | some entry =>
      have hnot : ¬ now < entry.expireAt := not_lt.mpr ((hexpired entry hlast).trans hle)
      simp [Option.filter, hnot]

theorem Refines.live_eq_some (h : Refines cache last clock) (hle : clock ≤ now)
    (hfind : cache.find key = some entry) (hlt : now < entry.expireAt) :
    live last key now = some entry := by
  rw [h.live_eq hle key, hfind]
  simp [Option.filter, hlt]

theorem Refines.live_eq_none (h : Refines cache last clock) (hle : clock ≤ now)
    (hmiss : ∀ entry, cache.find key = some entry → entry.expireAt ≤ now) :
    live last key now = none := by
  rw [h.live_eq hle key, Option.filter_eq_none_iff]
  intro entry hentry
  simpa using hmiss entry hentry

theorem Refines.expire (h : Refines cache last clock) (hfind : cache.find key = some entry)
    (hexpired : entry.expireAt ≤ clock) : Refines (cache.erase key) last clock := by
  intro j
  rw [OrderedDict.find_erase]
  split
  · rename_i hj
    subst hj
    refine .inr ⟨rfl, fun stored hstored => ?_⟩
    rcases h j with hsame | ⟨hnone, _⟩
    · rw [hfind, hstored] at hsame
      exact Option.some.inj hsame ▸ hexpired
    · rw [hfind] at hnone
      cases hnone
  · exact h j

theorem Refines.remove (h : Refines cache last clock) (key : κ) :
    Refines (cache.erase key) (fun k => if k = key then none else last k) clock := by
  intro j
  rw [OrderedDict.find_erase]
  by_cases hj : j = key
  · simp [hj]
  · simpa only [if_neg hj] using h j

theorem Refines.remove_absent (h : Refines cache last clock) (hfind : cache.find key = none) :
    Refines cache (fun k => if k = key then none else last k) clock := by
  intro j
  by_cases hj : j = key
  · simp [hj, hfind]
  · simpa only [if_neg hj] using h j

/-- An entry is stored, and every other is kept or dropped from the cache and the map at once. -/
theorem Refines.storing (h : Refines cache last clock)
    (hstored : StoredIn settings cache key entry after) :
    Refines after (fun k => if k = key then some entry
      else if k ∈ cache.keys ∧ k ∉ after.keys then none else last k) clock := by
  have hafter : after.find key = some entry ∧
      ∀ k, k ≠ key → after.find k = none ∨ after.find k = cache.find k := by
    unfold StoredIn at hstored
    split at hstored
    · obtain ⟨victim, _, _, _, hfind⟩ := hstored
      refine ⟨by simp [hfind], fun k hk => ?_⟩
      rw [hfind, if_neg hk]
      split
      · exact .inl rfl
      · exact .inr rfl
    · exact ⟨by simp [hstored], fun k hk => .inr (by simp [hstored, hk])⟩
  intro k
  by_cases hk : k = key
  · simp [hk, hafter.1]
  · simp only [if_neg hk]
    split
    · rename_i hdropped
      exact .inl (OrderedDict.find_eq_none_iff.mpr hdropped.2)
    · rename_i hkept
      rcases hafter.2 k hk with hnone | hsame
      · have hgone : k ∉ cache.keys := fun hmem =>
          hkept ⟨hmem, OrderedDict.find_eq_none_iff.mp hnone⟩
        simpa [hnone, OrderedDict.find_eq_none_iff.mpr hgone] using h k
      · rw [hsame]
        exact h k

/-! What the calls do. -/

theorem Store.live_or_missing (store : Store κ β) (key : κ) (now : ℚ) :
    (∃ entry, store.cache.find key = some entry ∧ now < entry.expireAt) ∨
      ∀ entry, store.cache.find key = some entry → entry.expireAt ≤ now := by
  by_cases hlive : ∃ entry, store.cache.find key = some entry ∧ now < entry.expireAt
  · exact .inl hlive
  · exact .inr fun entry hfind => not_lt.mp fun hlt => hlive ⟨entry, hfind, hlt⟩

theorem find_live {entry : CacheEntry β} (hfind : store.cache.find key = some entry)
    (hlive : now < entry.expireAt) : find key now store = (.ok entry.value, store) := by
  unfold find
  rw [bind_read]
  simp only [id, hfind, gt_iff_lt, if_pos hlive, pure_apply]

theorem find_expired {entry : CacheEntry β} (hfind : store.cache.find key = some entry)
    (hexpired : entry.expireAt ≤ now) : find key now store = (.ok none, store.expire key) := by
  unfold find
  rw [bind_read]
  simp only [id, hfind, gt_iff_lt, if_neg (not_lt.mpr hexpired), bind_modify, pure_apply]

theorem find_absent (hfind : store.cache.find key = none) :
    find key now store = (.ok none, store) := by
  unfold find
  rw [bind_read]
  simp only [id, hfind, pure_apply]

theorem get_live {entry : CacheEntry β} {loader : Option (Load β)}
    (hfind : store.cache.find key = some entry) (hlive : now < entry.expireAt) :
    get settings key now loader store = (.ok entry.value, store) := by
  unfold get
  rw [bind_read]
  simp only [id, hfind, gt_iff_lt, if_pos hlive, pure_apply]

theorem get_missing {loader : Option (Load β)}
    (h : ∀ entry, store.cache.find key = some entry → entry.expireAt ≤ now) :
    get settings key now loader store = load settings key loader store := by
  unfold get
  rw [bind_read]
  cases hfind : store.cache.find key with
  | none => simp only [id, hfind]
  | some entry => simp only [id, hfind, gt_iff_lt, if_neg (not_lt.mpr (h entry hfind))]

theorem invalidate_absent {action : Option Bool} (hfind : store.cache.find key = none) :
    invalidate key action store = (.ok none, store) := by
  unfold invalidate
  rw [bind_read]
  simp only [id, hfind, pure_apply]

theorem invalidate_present {action : Option Bool} {entry : CacheEntry β}
    (hfind : store.cache.find key = some entry) :
    (invalidate key action store).2 = store.invalidate key := by
  unfold invalidate
  rw [bind_read]
  simp only [id, hfind, bind_modify]
  by_cases haction : action = some true
  · simp only [if_pos haction]
    rfl
  · simp only [if_neg haction]
    rfl

/-- A new key in a full cache takes the place of a first entry to expire. -/
theorem setItem_full (store : Store κ β) (value : Option β) (now : ℚ)
    (hnew : key ∉ store.cache.keys)
    (hfull : store.cache.size = settings.maxsize) :
    ∃ oldest : κ × CacheEntry β, store.cache.find oldest.1 = some oldest.2 ∧
      (∀ k other, store.cache.find k = some other → oldest.2.expireAt ≤ other.expireAt) ∧
      setItem settings key value now store =
        (.ok (), (store.evict oldest.1).put key ⟨value, now + settings.ttl⟩) := by
  have hsome : 0 < store.cache.size := by
    have hone := settings.one_lt_maxsize
    omega
  obtain ⟨oldest, hleast, hfirst⟩ := OrderedDict.least_linear CacheEntry.expireAt hsome
  refine ⟨oldest, OrderedDict.least_find hleast, hfirst, ?_⟩
  unfold setItem
  rw [bind_read]
  simp only [id, if_pos (And.intro hnew hfull), hleast]
  rfl

theorem setItem_room {value : Option β}
    (h : key ∈ store.cache.keys ∨ store.cache.size ≠ settings.maxsize) :
    setItem settings key value now store =
      (.ok (), store.put key ⟨value, now + settings.ttl⟩) := by
  have hnot : ¬ (key ∉ store.cache.keys ∧ store.cache.size = settings.maxsize) := by tauto
  unfold setItem
  rw [bind_read]
  simp only [id, if_neg hnot]
  rfl

theorem setItem_ok {value : Option β} : (setItem settings key value now store).1 = .ok () := by
  by_cases hfull : key ∉ store.cache.keys ∧ store.cache.size = settings.maxsize
  · obtain ⟨oldest, _, _, heq⟩ := setItem_full store value now hfull.1 hfull.2
    rw [heq]
  · rw [setItem_room (by tauto)]

/-- Storing keeps to the bound and calls no loader. -/
theorem setItem_keeps (key : κ) (value : Option β) (now : ℚ)
    (hsize : store.cache.size ≤ settings.maxsize) :
    (setItem settings key value now store).2.cache.size ≤ settings.maxsize ∧
    ∃ events, (setItem settings key value now store).2.log = events ++ store.log ∧
      ∀ k, .loading k ∉ events := by
  have hput := OrderedDict.size_set_le (d := store.cache) (k := key)
    (v := (⟨value, now + settings.ttl⟩ : CacheEntry β))
  by_cases hfull : key ∉ store.cache.keys ∧ store.cache.size = settings.maxsize
  · obtain ⟨oldest, hold, _, heq⟩ := setItem_full store value now hfull.1 hfull.2
    rw [heq]
    refine ⟨?_, [.stored key ⟨value, now + settings.ttl⟩, .evicted oldest.1], rfl, by simp⟩
    have hlt := OrderedDict.size_erase_lt (OrderedDict.mem_keys_iff.mpr ⟨_, hold⟩)
    have hle := OrderedDict.size_set_le (d := store.cache.erase oldest.1) (k := key)
      (v := (⟨value, now + settings.ttl⟩ : CacheEntry β))
    simp only [Store.put, Store.evict]
    omega
  · have hroom : key ∈ store.cache.keys ∨ store.cache.size ≠ settings.maxsize := by tauto
    rw [setItem_room hroom]
    refine ⟨?_, [.stored key ⟨value, now + settings.ttl⟩], rfl, by simp⟩
    simp only [Store.put]
    rcases hroom with hmem | hne
    · rwa [OrderedDict.size_set_of_mem hmem]
    · omega

theorem load_returns {value : β} {storedAt : ℚ} :
    load settings key (some (.returns value storedAt)) store =
      (.ok (some value),
        (setItem settings key (some value) storedAt (store.loading key)).2) := by
  change (setItem settings key (some value) storedAt >>= fun _ => pure (some value))
    (store.loading key) = _
  rw [bind_pure_apply, setItem_ok]
  rfl

theorem load_keeps (key : κ) (hsize : store.cache.size ≤ settings.maxsize)
    (loader : Option (Load β)) :
    (load settings key loader store).2.cache.size ≤ settings.maxsize ∧
    ∃ events, (load settings key loader store).2.log = events ++ store.log ∧
      ∀ k, .loading k ∈ events → k = key := by
  match loader with
  | none => exact ⟨hsize, [], rfl, by simp⟩
  | some .raises | some .returnsNone => exact ⟨hsize, [.loading key], rfl, by simp⟩
  | some (.returns value storedAt) =>
    have hloading : (store.loading key).cache.size ≤ settings.maxsize := hsize
    obtain ⟨hbound, events, hlog, hnone⟩ :=
      setItem_keeps key (some value) storedAt hloading
    rw [load_returns]
    refine ⟨hbound, events ++ [.loading key], ?_, ?_⟩
    · rw [hlog, List.append_assoc]
      rfl
    · intro k hk
      rcases List.mem_append.mp hk with hk | hk
      · exact absurd hk (hnone k)
      · simpa using hk

theorem setItem_stores (settings : Settings) (store : Store κ β) (key : κ) (value : Option β)
    (now : ℚ) :
    StoredIn settings store.cache key ⟨value, now + settings.ttl⟩
      (setItem settings key value now store).2.cache := by
  unfold StoredIn
  split
  · rename_i hfull
    obtain ⟨oldest, hold, hfirst, heq⟩ := setItem_full store value now hfull.1 hfull.2
    rw [heq]
    exact OrderedDict.replacesLeast hold hfirst
  · rename_i hroom
    rw [setItem_room (by tauto)]
    intro k
    simp [Store.put, OrderedDict.find_set]

/-! What holds of every call. -/

omit [DecidableEq κ] in
/-- A call that leaves the log as it was has called no loader. -/
theorem no_loading {log events : List (Event κ β)} (h : log = events ++ log) :
    .loading key ∉ events := by
  have hnil : events = [] := by simpa using h
  simp [hnil]

theorem sound_find (h : Refines store.cache last clock) (hclock : clock ≤ now)
    (hsize : store.cache.size ≤ settings.maxsize) :
    (callOf settings store (.find key now)).Sound settings last := by
  have hlive := h.live_eq hclock key
  have hlog : (find key now store).2.log = store.log ∧
      (find key now store).2.cache.size ≤ settings.maxsize ∧
      (find key now store).1 =
        .ok ((live last key now).bind CacheEntry.value) := by
    rw [hlive]
    cases hfind : store.cache.find key with
    | none =>
      rw [find_absent hfind]
      exact ⟨rfl, hsize, rfl⟩
    | some entry =>
      by_cases hlt : now < entry.expireAt
      · rw [find_live hfind hlt]
        exact ⟨rfl, hsize, by simp [Option.filter, hlt]⟩
      · rw [find_expired hfind (not_lt.mp hlt)]
        exact ⟨rfl, OrderedDict.size_erase_le.trans hsize, by simp [Option.filter, hlt]⟩
  refine ⟨hlog.2.1, ?_, ?_, ?_, ?_⟩
  · intro key' hkey
    obtain rfl : key = key' := by simpa [callOf, Act.looksUp] using hkey
    exact hlog.2.2
  · intro _ _ _ _ _ hact
    cases hact
  · intro events key' hevents hmem
    exact absurd hmem (no_loading (hlog.1.symm.trans hevents))
  · intro _ _ hstores
    cases hstores

theorem run_set {value : Option β} : (Act.set key value now).run settings store =
    ((setItem settings key value now store).1.map fun _ => none,
      (setItem settings key value now store).2) := bind_pure_apply

/-- A call that is no `get` and looks nothing up only has to keep to the bound and to store what it
should. -/
theorem sound_of_no_load (hkey : act.looksUp settings = none)
    (hget : ∀ key now loader default, act ≠ .get key now loader default)
    (hsize : (callOf settings store act).after.cache.size ≤ settings.maxsize)
    (hlog : ∃ events, (callOf settings store act).after.log = events ++ store.log ∧
      ∀ k, .loading k ∉ events)
    (hstores : ∀ key entry, act.storing settings last = some (key, entry) →
      StoredIn settings store.cache key entry (callOf settings store act).after.cache) :
    (callOf settings store act).Sound settings last where
  size_le := hsize
  looked_up key h := by
    have hsome : act.looksUp settings = some key := h
    rw [hkey] at hsome
    cases hsome
  hits key now loader default _ hact := absurd hact (hget key now loader default)
  loads events key hevents hmem := by
    obtain ⟨events', hlog, hnone⟩ := hlog
    rw [← List.append_cancel_right (hlog.symm.trans hevents)] at hmem
    exact absurd hmem (hnone key)
  stores := hstores

theorem sound_set {value : Option β} (hsize : store.cache.size ≤ settings.maxsize) :
    (callOf settings store (.set key value now)).Sound settings last := by
  obtain ⟨hbound, hlog⟩ := setItem_keeps key value now hsize
  refine sound_of_no_load rfl nofun ?_ ?_ ?_
  · simpa only [callOf, run_set] using hbound
  · simpa only [callOf, run_set] using hlog
  · intro key' entry hstores
    obtain ⟨rfl, rfl⟩ : key = key' ∧ ⟨value, now + settings.ttl⟩ = entry := by
      simpa [Act.storing, Act.stores] using hstores
    simpa only [callOf, run_set] using setItem_stores settings store key value now

theorem sound_invalidate {action : Option Bool} (hsize : store.cache.size ≤ settings.maxsize) :
    (callOf settings store (.invalidate key now action)).Sound settings last := by
  have hafter : (invalidate key action store).2.cache.size ≤ settings.maxsize ∧
      ∃ events, (invalidate key action store).2.log = events ++ store.log ∧
        ∀ k, .loading k ∉ events := by
    cases hfind : store.cache.find key with
    | none =>
      rw [invalidate_absent hfind]
      exact ⟨hsize, [], rfl, by simp⟩
    | some entry =>
      rw [invalidate_present hfind]
      exact ⟨OrderedDict.size_erase_le.trans hsize, [.invalidated key], rfl, by simp⟩
  exact sound_of_no_load rfl nofun hafter.1 hafter.2 nofun

theorem sound_clear : (callOf settings store (.clear now)).Sound settings last :=
  sound_of_no_load rfl nofun (Nat.zero_le _) ⟨[.cleared], rfl, by simp⟩ nofun

omit [DecidableEq κ] in
theorem looksUp_get {loader : Option (Load β)} {default : Load β} {key' : κ}
    (h : (Act.get key now loader default).looksUp settings = some key') :
    key = key' ∧ (Act.get key now loader default).loader settings = none := by
  cases loader with
  | none => cases hloader : settings.hasLoader <;> simp_all [Act.looksUp, Act.loader]
  | some loader => cases h

omit [DecidableEq κ] in
/-- What a `get` has to store is what its loader returns. -/
theorem storing_get {last : κ → Option (CacheEntry β)} {loader : Option (Load β)}
    {default : Load β} {key' : κ} {entry : CacheEntry β}
    (h : (Act.get key now loader default).storing settings last = some (key', entry)) :
    live last key now = none ∧ key = key' ∧ ∃ value storedAt,
      (Act.get key now loader default).loader settings = some (.returns value storedAt) ∧
        entry = ⟨some value, storedAt + settings.ttl⟩ := by
  simp only [Act.storing, Act.stores] at h
  split at h
  · cases h
  · rename_i hlive
    refine ⟨by simpa using hlive, ?_⟩
    split at h
    · rename_i value storedAt hloader
      simp only [Option.map_some, Option.some.injEq, Prod.mk.injEq] at h
      exact ⟨h.1, value, storedAt, hloader, h.2.symm⟩
    · cases h

theorem sound_get_live {loader : Option (Load β)} {default : Load β} {entry : CacheEntry β}
    (h : Refines store.cache last clock) (hclock : clock ≤ now)
    (hsize : store.cache.size ≤ settings.maxsize)
    (hfind : store.cache.find key = some entry) (hlt : now < entry.expireAt) :
    (callOf settings store (.get key now loader default)).Sound settings last := by
  have hrun : (Act.get key now loader default).run settings store = (.ok entry.value, store) :=
    get_live hfind hlt
  have hlive := h.live_eq_some hclock hfind hlt
  refine ⟨?_, ?_, ?_, ?_, ?_⟩
  · simpa only [callOf, hrun] using hsize
  · intro key' hkey
    obtain ⟨rfl, _⟩ := looksUp_get hkey
    simp only [callOf, hrun]
    change _ = Except.ok ((live last key now).bind CacheEntry.value)
    rw [hlive]
    rfl
  · intro key' now' loader' default' entry' hact hlive'
    cases hact
    obtain rfl : entry = entry' := Option.some.inj (hlive.symm.trans hlive')
    simp only [callOf, hrun]
    trivial
  · intro events _ hevents hmem
    simp only [callOf, hrun] at hevents
    exact absurd hmem (no_loading hevents)
  · intro key' entry' hstores
    obtain ⟨hnone, _⟩ := storing_get hstores
    rw [hlive] at hnone
    cases hnone

theorem sound_get_missing {loader : Option (Load β)} {default : Load β}
    (h : Refines store.cache last clock) (hclock : clock ≤ now)
    (hsize : store.cache.size ≤ settings.maxsize)
    (hmiss : ∀ entry, store.cache.find key = some entry → entry.expireAt ≤ now) :
    (callOf settings store (.get key now loader default)).Sound settings last := by
  have hrun : (Act.get key now loader default).run settings store =
      load settings key ((Act.get key now loader default).loader settings) store :=
    get_missing hmiss
  have hlive := h.live_eq_none hclock hmiss
  obtain ⟨hbound, events, hlog, hkeys⟩ := load_keeps key hsize
    ((Act.get key now loader default).loader settings)
  refine ⟨?_, ?_, ?_, ?_, ?_⟩
  · simpa only [callOf, hrun] using hbound
  · intro key' hkey
    obtain ⟨rfl, hnone⟩ := looksUp_get hkey
    simp only [callOf, hrun, hnone]
    change _ = Except.ok ((live last key now).bind CacheEntry.value)
    rw [hlive]
    rfl
  · intro key' now' loader' default' entry' hact hlive'
    cases hact
    rw [hlive] at hlive'
    cases hlive'
  · intro events' key' hevents hmem
    simp only [callOf, hrun, hlog] at hevents
    rw [← List.append_cancel_right hevents] at hmem
    rw [hkeys key' hmem]
    exact hlive
  · intro key' entry hstores
    obtain ⟨_, rfl, value, storedAt, hloader, rfl⟩ := storing_get hstores
    simp only [callOf, hrun, hloader, load_returns]
    exact setItem_stores settings (store.loading key) key (some value) storedAt

/-- Every call keeps to the bound, looks up what was stored last, loads only what is missing, and
evicts in order. -/
theorem call_sound (h : Refines store.cache last clock)
    (hsize : store.cache.size ≤ settings.maxsize) (act : Act κ β) (hclock : clock ≤ act.now) :
    (callOf settings store act).Sound settings last := by
  cases act with
  | find key now => exact sound_find h hclock hsize
  | get key now loader default =>
    rcases store.live_or_missing key now with ⟨entry, hfind, hlt⟩ | hmiss
    · exact sound_get_live h hclock hsize hfind hlt
    · exact sound_get_missing h hclock hsize hmiss
  | set key value now => exact sound_set hsize
  | invalidate key now action => exact sound_invalidate hsize
  | clear now => exact sound_clear

/-- What a loader returns is stored. -/
theorem load_refines (settings : Settings) (key : κ) (h : Refines store.cache last clock)
    (loader : Option (Load β)) :
    Refines (load settings key loader store).2.cache
      (match loader with
        | some (.returns value storedAt) => fun k =>
          if k = key then some ⟨some value, storedAt + settings.ttl⟩
          else if k ∈ store.cache.keys ∧ k ∉ (load settings key loader store).2.cache.keys then none
          else last k
        | _ => last) clock := by
  match loader with
  | none | some .raises | some .returnsNone => exact h
  | some (.returns value storedAt) =>
    rw [load_returns]
    exact h.storing (setItem_stores settings (store.loading key) key (some value) storedAt)

theorem refines_get {loader : Option (Load β)} {default : Load β}
    (h : Refines store.cache last clock) (hclock : clock ≤ now) :
    Refines (callOf settings store (.get key now loader default)).after.cache
      ((callOf settings store (.get key now loader default)).lastAfter settings last) clock := by
  rcases store.live_or_missing key now with ⟨entry, hfind, hlt⟩ | hmiss
  · have hrun : (Act.get key now loader default).run settings store = (.ok entry.value, store) :=
      get_live hfind hlt
    have hlive := h.live_eq_some hclock hfind hlt
    unfold Call.lastAfter
    simpa only [callOf, Act.storing, hlive, hrun, Option.isSome_some, if_true] using h
  · have hrun : (Act.get key now loader default).run settings store =
        load settings key ((Act.get key now loader default).loader settings) store :=
      get_missing hmiss
    have hlive := h.live_eq_none hclock hmiss
    have hload := load_refines settings key h
      ((Act.get key now loader default).loader settings)
    unfold Call.lastAfter
    simp only [callOf, Act.storing, hlive, hrun, Option.isSome_none, Act.stores,
      Bool.false_eq_true, if_false]
    cases hloader : (Act.get key now loader default).loader settings with
    | none =>
      rw [hloader] at hload
      exact hload
    | some call =>
      rw [hloader] at hload
      cases call <;> exact hload

/-- Every call takes the cache along with the map. -/
theorem call_refines (h : Refines store.cache last clock) (act : Act κ β)
    (hclock : clock ≤ act.now) (hends : act.now ≤ act.ends settings) :
    Refines (callOf settings store act).after.cache
      ((callOf settings store act).lastAfter settings last) (act.ends settings) := by
  have hnow := h.mono (hclock.trans hends)
  cases act with
  | find key now =>
    change Refines (find key now store).2.cache last _
    cases hfind : store.cache.find key with
    | none =>
      rw [find_absent hfind]
      exact hnow
    | some entry =>
      by_cases hlt : now < entry.expireAt
      · rw [find_live hfind hlt]
        exact hnow
      · rw [find_expired hfind (not_lt.mp hlt)]
        exact hnow.expire hfind ((not_lt.mp hlt).trans hends)
  | get key now loader default => exact (refines_get h hclock).mono (hclock.trans hends)
  | set key value now =>
    simp only [callOf, run_set]
    exact hnow.storing (setItem_stores settings store key value now)
  | invalidate key now action =>
    change Refines (invalidate key action store).2.cache _ _
    cases hfind : store.cache.find key with
    | none =>
      rw [invalidate_absent hfind]
      exact hnow.remove_absent hfind
    | some entry =>
      rw [invalidate_present hfind]
      exact hnow.remove key
  | clear now => exact fun _ => .inl rfl

theorem step_eq_some : step settings s act = some t ↔
    (s.clock ≤ act.now ∧ act.now ≤ act.ends settings) ∧
    t = ⟨act.ends settings, (callOf settings s.store act).after,
      callOf settings s.store act :: s.calls⟩ := by
  unfold step
  split
  · rename_i hclock
    simp [hclock, @eq_comm _ t]
  · rename_i hclock
    simp [hclock]

structure Inv (settings : Settings) (s : State κ β) : Prop where
  refines : Refines s.store.cache (lastStoredBy settings s.calls) s.clock
  size_le : s.store.cache.size ≤ settings.maxsize
  calls : ∀ call earlier, call :: earlier <:+ s.calls →
    call.Sound settings (lastStoredBy settings earlier)

theorem inv_initial : Inv settings (initial clock : State κ β) :=
  ⟨fun _ => .inl rfl, Nat.zero_le _, fun _ _ hsuffix => absurd (List.suffix_nil.mp hsuffix)
    (List.cons_ne_nil _ _)⟩

theorem inv_step (hstep : step settings s act = some t) (hs : Inv settings s) :
    Inv settings t := by
  obtain ⟨⟨hclock, hends⟩, rfl⟩ := step_eq_some.mp hstep
  have hsound := call_sound hs.refines hs.size_le act hclock
  refine ⟨call_refines hs.refines act hclock hends, hsound.size_le, fun call earlier hsuffix => ?_⟩
  rcases List.suffix_cons_iff.mp hsuffix with heq | hold
  · cases heq
    exact hsound
  · exact hs.calls call earlier hold

/-- In every run of calls the cache is within its bound, a call without a loader finds exactly the
last live value stored by the calls before it, loaders are called for missing keys only, and a full
cache gives up an entry with the earliest expiry. -/
theorem bounded_expiring_map (h : Run (step settings) Free (initial clock) xs t) :
    ∀ call earlier, call :: earlier <:+ t.calls →
      call.Sound settings (lastStoredBy settings earlier) :=
  (h.invariant (fun _ _ _ _ hstep hs => inv_step hstep hs) inv_initial).calls

theorem ten_pos : (0 : ℚ) < 10 := by decide

def twoPlaces : Settings where
  maxsize := 2
  ttl := 10
  hasLoader := false
  one_lt_maxsize := Nat.one_lt_two
  ttl_pos := ten_pos

/-- An entry that has expired is evicted all the same. -/
theorem bounded_expiring_map_two_places : ∃ t,
    Run (step twoPlaces) Free (initial 0)
      [.set 1 (some "a") 0, .get 2 1 (some (.returns "b" 2)) .raises, .find 1 5,
        .set 3 (some "c") 11, .get 1 11 none .raises, .find 2 12, .clear 12] t ∧
    t.calls.length = 7 ∧ ∀ call earlier, call :: earlier <:+ t.calls →
      call.Sound twoPlaces (lastStoredBy twoPlaces earlier) := by
  obtain ⟨t, hrun, ht⟩ := exists_run_of_exec free_of_check
    (step twoPlaces) (initial 0)
    [.set 1 (some "a") 0, .get 2 1 (some (.returns "b" 2)) .raises, .find 1 5,
      .set 3 (some "c") 11, .get 1 11 none .raises, .find 2 12, .clear 12]
    (fun t => t.calls.length = 7) (by decide +kernel)
  exact ⟨t, hrun, by simpa using ht, bounded_expiring_map hrun⟩

end ShimService.ConcurrentTtlCache
