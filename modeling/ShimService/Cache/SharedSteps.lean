import ShimService.Cache.LastStored
import ShimService.Cache.SharedCache

/-! What each step of a shared `ConcurrentTtlCache` keeps. -/
namespace ShimService.ConcurrentTtlCache.Shared

open Transition

variable {τ κ β : Type} [DecidableEq κ] {settings : Settings} {hash : κ → ℤ}
  {s s' : State τ κ β} {t u : τ} {c c' d : Call κ β} {key : κ} {e entry : CacheEntry β} {i j a : ℕ}
  {log : List (Event κ β)} {oldest : Option (κ × CacheEntry β)} {outcome : Outcome β}

/-- The last entry stored for a key, whatever has become of it. -/
def latest (key : κ) : List (Event κ β) → Option (CacheEntry β)
  | [] => none
  | .stored k entry :: log => if key = k then some entry else latest key log
  | _ :: log => latest key log

theorem latest_of_lastStored (h : lastStored key log = some e) : latest key log = some e := by
  induction log with
  | nil => cases h
  | cons event log ih =>
    cases event with
    | stored k entry =>
      simp only [lastStored, latest] at h ⊢
      split
      · rename_i hk
        simpa [hk] using h
      · rename_i hk
        exact ih (by simpa [hk] using h)
    | evicted k | invalidated k =>
      simp only [lastStored] at h
      split at h
      · cases h
      · exact ih h
    | cleared => cases h
    | loading k => exact ih h

/-- The number of the mutex of a shard is known from its creation on. -/
def Pc.hasShard : Pc κ β → Bool
  | .leavingMutex | .entering => true
  | pc => pc.inShard

namespace State

/-- An entry has been taken out since the last failed eviction. -/
def Disturbed (s : State τ κ β) : Prop := s.faults < s.drops

/-- The oldest of the first `i` entries. -/
def OldestOf (s : State τ κ β) (i : ℕ) : Option (κ × CacheEntry β) → Prop
  | none => i = 0
  | some oldest => oldest ∈ s.store.cache.entries ∧
    ∀ other ∈ s.store.cache.entries.take i, oldest.2.expireAt ≤ other.2.expireAt

def Oldest (s : State τ κ β) (oldest : κ) : Prop :=
  ∃ entry, s.store.cache.find oldest = some entry ∧
    ∀ k other, s.store.cache.find k = some other → entry.expireAt ≤ other.expireAt

/-- What a call that ends has found, stored or removed is what has been stored last, and has not
been out of date. -/
def Answers (s : State τ κ β) (key : κ) : Outcome β → Prop
  | .found entry now =>
    latest key s.store.log = some entry ∧ now < entry.expireAt ∧ now ≤ s.clock
  | .stored entry | .removed entry => latest key s.store.log = some entry
  | .nothing | .raised _ => True

end State

/-- What is known at the place where a call stands. -/
def Call.Known (settings : Settings) (hash : κ → ℤ) (s : State τ κ β) (c : Call κ β) : Prop :=
  match c.pc with
  | .creating => s.mutexes (shardIndex settings hash c.op.key) = none
  | .checking current => latest c.op.key s.store.log = some current
  | .dropping current =>
    latest c.op.key s.store.log = some current ∧ current.expireAt ≤ s.clock
  | .acting entry => latest c.op.key s.store.log = some entry
  | .choosing _ => s.store.cache.size = settings.maxsize ∨ s.Disturbed
  | .iterating _ used i oldest =>
    used = s.store.cache.size ∧ 0 < used ∧ s.OldestOf i oldest ∨ s.Disturbed
  | .deleting _ oldest => s.Oldest oldest ∨ s.Disturbed
  | .stamping _ | .storing _ =>
    c.op.key ∈ s.store.cache.keys ∨ s.store.cache.size < settings.maxsize
  | .leavingStore outcome | .leaving outcome => s.Answers c.op.key outcome
  | _ => True

structure Call.Ok (settings : Settings) (hash : κ → ℤ) (s : State τ κ β) (c : Call κ β) :
    Prop where
  shard : c.pc.hasShard = true →
    ∃ a, c.m = some a ∧ s.mutexes (shardIndex settings hash c.op.key) = some a
  known : c.Known settings hash s

/-- Who holds the mutexes. -/
structure Locked (s : State τ κ β) : Prop where
  mutex : ∀ t, s.mutex = some t ↔ ∃ c, s.call t = some c ∧ c.pc.inMutex = true
  locks : ∀ a t, s.locks a = some t ↔
    ∃ c, s.call t = some c ∧ c.m = some a ∧ c.pc.inShard = true

structure Inv (settings : Settings) (hash : κ → ℤ) (s : State τ κ β) : Prop where
  locked : Locked s
  created : ∀ i a, s.mutexes i = some a → a < s.created
  inj : ∀ i j a, s.mutexes i = some a → s.mutexes j = some a → i = j
  calls : ∀ t c, s.call t = some c → c.Ok settings hash s
  holds : Holds s.store s.clock
  size_le : s.store.cache.size ≤ settings.maxsize
  faults_le : s.faults ≤ s.drops

/-! Mutual exclusion. -/

theorem Inv.eq_of_inMutex (h : Inv settings hash s) (hc : s.call t = some c)
    (hd : s.call u = some d) (hct : c.pc.inMutex = true) (hdu : d.pc.inMutex = true) : t = u := by
  have ht := (h.locked.mutex t).mpr ⟨c, hc, hct⟩
  have hu := (h.locked.mutex u).mpr ⟨d, hd, hdu⟩
  exact Option.some.inj (ht.symm.trans hu)

omit [DecidableEq κ] in
theorem Pc.hasShard_of_inShard {pc : Pc κ β} (h : pc.inShard = true) : pc.hasShard = true := by
  cases pc <;> first | rfl | exact h

theorem Inv.eq_of_inShard (h : Inv settings hash s) (hc : s.call t = some c)
    (hd : s.call u = some d) (hct : c.pc.inShard = true) (hdu : d.pc.inShard = true)
    (hsame : shardIndex settings hash c.op.key = shardIndex settings hash d.op.key) : t = u := by
  obtain ⟨a, hca, ha⟩ := (h.calls t c hc).shard (Pc.hasShard_of_inShard hct)
  obtain ⟨b, hdb, hb⟩ := (h.calls u d hd).shard (Pc.hasShard_of_inShard hdu)
  obtain rfl : a = b := Option.some.inj (ha.symm.trans (hsame ▸ hb))
  have ht := (h.locked.locks a t).mpr ⟨c, hc, hca, hct⟩
  have hu := (h.locked.locks a u).mpr ⟨d, hd, hdb, hdu⟩
  exact Option.some.inj (ht.symm.trans hu)

/-! What a step does to the calls of the other threads. -/

def Undisturbed (s s' : State τ κ β) : Prop :=
  s'.store.cache = s.store.cache ∧ s'.drops = s.drops ∧ s'.faults = s.faults

def Shrunk (s s' : State τ κ β) : Prop :=
  s'.store.cache.size < s.store.cache.size ∧ s'.Disturbed

/-- What a step changes, told by the place where the thread's call stands before it. -/
structure Effect (s s' : State τ κ β) (c : Call κ β) : Prop where
  clock : s.clock ≤ s'.clock
  mutexes : ∀ i a, s.mutexes i = some a → s'.mutexes i = some a
  table : s'.mutexes = s.mutexes ∨ c.pc.inMutex = true
  latest : ∀ key, latest key s'.store.log = latest key s.store.log ∨
    key = c.op.key ∧ c.pc.inShard = true
  cache : Undisturbed s s' ∨ Shrunk s s' ∨ c.pc.inMutex = true

theorem State.Answers.mono (h : s.Answers key outcome) (hclock : s.clock ≤ s'.clock)
    (hlatest : latest key s'.store.log = latest key s.store.log) : s'.Answers key outcome := by
  cases outcome with
  | found entry now => exact ⟨hlatest.trans h.1, h.2.1, h.2.2.trans hclock⟩
  | stored entry | removed entry => exact hlatest.trans h
  | nothing | raised ex => trivial

/-- What is known at a place stays known where the step keeps to what the mutexes of the place
allow. -/
theorem Call.Known.mono (hknown : d.Known settings hash s)
    (hsize : s.store.cache.size ≤ settings.maxsize) (hclock : s.clock ≤ s'.clock)
    (htable : d.pc.inMutex = true → s'.mutexes = s.mutexes)
    (hlatest : d.pc.inShard = true →
      latest d.op.key s'.store.log = latest d.op.key s.store.log)
    (hcache : d.pc.inMutex = true → Undisturbed s s' ∨ Shrunk s s') :
    d.Known settings hash s' := by
  unfold Call.Known at hknown ⊢
  cases hpc : d.pc with
  | creating =>
    rw [hpc] at hknown htable
    simpa only [htable rfl] using hknown
  | checking current | acting current =>
    rw [hpc] at hknown hlatest
    exact (hlatest rfl).trans hknown
  | dropping current =>
    rw [hpc] at hknown hlatest
    exact ⟨(hlatest rfl).trans hknown.1, hknown.2.trans hclock⟩
  | choosing value =>
    rw [hpc] at hknown hcache
    rcases hcache rfl with ⟨hsame, hdrops, hfaults⟩ | hshrunk
    · simpa only [State.Disturbed, hsame, hdrops, hfaults] using hknown
    · exact .inr hshrunk.2
  | iterating value used i oldest =>
    rw [hpc] at hknown hcache
    rcases hcache rfl with ⟨hsame, hdrops, hfaults⟩ | hshrunk
    · cases oldest <;>
        simpa only [State.Disturbed, State.OldestOf, hsame, hdrops, hfaults] using hknown
    · exact .inr hshrunk.2
  | deleting value oldest =>
    rw [hpc] at hknown hcache
    rcases hcache rfl with ⟨hsame, hdrops, hfaults⟩ | hshrunk
    · simpa only [State.Disturbed, State.Oldest, hsame, hdrops, hfaults] using hknown
    · exact .inr hshrunk.2
  | stamping value | storing entry =>
    rw [hpc] at hknown hcache
    rcases hcache rfl with ⟨hsame, -⟩ | hshrunk
    · simpa only [hsame] using hknown
    · exact .inr (hshrunk.1.trans_le hsize)
  | leavingStore outcome | leaving outcome =>
    rw [hpc] at hknown hlatest
    exact State.Answers.mono hknown hclock (hlatest rfl)
  | _ => trivial

theorem known_of_effect (h : Inv settings hash s) (hc : s.call t = some c)
    (hd : s.call u = some d) (hne : u ≠ t) (he : Effect s s' c) : d.Known settings hash s' := by
  have hmutex : d.pc.inMutex = true → c.pc.inMutex ≠ true := fun hdu hct =>
    hne (h.eq_of_inMutex hd hc hdu hct)
  refine (h.calls u d hd).known.mono h.size_le he.clock ?_ ?_ ?_
  · exact fun hdu => he.table.resolve_right (hmutex hdu)
  · intro hdu
    rcases he.latest d.op.key with hsame | ⟨hkey, hct⟩
    · exact hsame
    · exact absurd (h.eq_of_inShard hd hc hdu hct (by rw [hkey])) hne
  · exact fun hdu => he.cache.imp_right fun hor => hor.resolve_right (hmutex hdu)

theorem ok_of_effect (h : Inv settings hash s) (hc : s.call t = some c)
    (hd : s.call u = some d) (hne : u ≠ t) (he : Effect s s' c) : d.Ok settings hash s' :=
  ⟨fun hshard => ((h.calls u d hd).shard hshard).imp fun _ ha => ⟨ha.1, he.mutexes _ _ ha.2⟩,
    known_of_effect h hc hd hne he⟩

end ShimService.ConcurrentTtlCache.Shared
