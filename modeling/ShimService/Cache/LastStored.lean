import ShimService.Cache.ConcurrentTtlCache

/-! What a `ConcurrentTtlCache` keeps of what its log says has been stored. -/
namespace ShimService.ConcurrentTtlCache

variable {κ β : Type} [DecidableEq κ] {store : Store κ β} {key : κ} {clock : ℚ}

/-- The last entry stored for a key, unless it has been evicted, invalidated or cleared since. -/
def lastStored (key : κ) : List (Event κ β) → Option (CacheEntry β)
  | [] => none
  | .stored k entry :: log => if key = k then some entry else lastStored key log
  | .evicted k :: log | .invalidated k :: log => if key = k then none else lastStored key log
  | .cleared :: _ => none
  | .loading _ :: log => lastStored key log

/-- The cache has the last entry stored for a key, or has lost one that has expired. -/
def Holds (store : Store κ β) (clock : ℚ) : Prop :=
  ∀ key, store.cache.find key = lastStored key store.log ∨
    store.cache.find key = none ∧
      ∀ entry, lastStored key store.log = some entry → entry.expireAt ≤ clock

theorem Holds.mono {clock' : ℚ} (h : Holds store clock) (hle : clock ≤ clock') :
    Holds store clock' := fun key =>
  (h key).imp_right fun hlost => ⟨hlost.1, fun entry hentry => (hlost.2 entry hentry).trans hle⟩

theorem Holds.put (h : Holds store clock) (entry : CacheEntry β) :
    Holds (store.put key entry) clock := by
  intro j
  simp only [Store.put, lastStored, OrderedDict.find_set]
  split
  · exact .inl rfl
  · exact h j

theorem Holds.evict (h : Holds store clock) : Holds (store.evict key) clock := by
  intro j
  simp only [Store.evict, lastStored, OrderedDict.find_erase]
  split
  · exact .inl rfl
  · exact h j

theorem Holds.invalidate (h : Holds store clock) : Holds (store.invalidate key) clock := by
  intro j
  simp only [Store.invalidate, lastStored, OrderedDict.find_erase]
  split
  · exact .inl rfl
  · exact h j

theorem Holds.clear : Holds store.clear clock := fun _ => .inl rfl

theorem Holds.loading (h : Holds store clock) : Holds (store.loading key) clock := h

theorem Holds.expire {entry : CacheEntry β} (h : Holds store clock)
    (hfind : store.cache.find key = some entry) (hexpired : entry.expireAt ≤ clock) :
    Holds (store.expire key) clock := by
  intro j
  simp only [Store.expire, OrderedDict.find_erase]
  split
  · rename_i hj
    subst hj
    refine .inr ⟨rfl, fun last hlast => ?_⟩
    rcases h j with hsame | ⟨hnone, _⟩
    · rw [hfind, hlast] at hsame
      exact Option.some.inj hsame ▸ hexpired
    · rw [hfind] at hnone
      cases hnone
  · exact h j

end ShimService.ConcurrentTtlCache
