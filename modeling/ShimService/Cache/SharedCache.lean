import Mathlib.Logic.Function.Basic
import ShimService.Cache.ConcurrentTtlCache

/-!
`ConcurrentTtlCache` shared by any number of threads: each read and write of the cache, of the table
of mutexes or of a mutex is a step of its own. Loaders and actions do not call the cache, and the
clock does not go back.
-/
namespace ShimService.ConcurrentTtlCache.Shared

open Transition

variable {τ κ β : Type}

/-- A call. A `get` is told whether it has a loader, an `invalidate` whether it has an action. -/
inductive Op (κ β : Type) where
  | find (key : κ)
  | get (key : κ) (loads : Bool)
  | invalidate (key : κ) (acts : Bool)
  | set (key : κ) (value : Option β)
  deriving DecidableEq

def Op.key : Op κ β → κ
  | find key | get key _ | invalidate key _ | set key _ => key

/-- The exceptions: those of a loader and of an action, and the three that an eviction can end in,
of the iteration in `min`, of `min` itself, and of `del`. -/
inductive Raised where
  | loader
  | action
  | changedSize
  | emptyMin
  | keyError
  deriving DecidableEq

/-- What a call ends with. An entry is told with the reading of the clock that it outlives. -/
inductive Outcome (β : Type) where
  | nothing
  | found (entry : CacheEntry β) (now : ℚ)
  | stored (entry : CacheEntry β)
  | removed (entry : CacheEntry β)
  | raised (ex : Raised)
  deriving DecidableEq

/-- Where a call stands, named after what it does next. -/
inductive Pc (κ β : Type) where
  -- `__get_shard_mutex`
  | lookingUp
  | acquiringMutex
  | lookingAgain
  | creating
  | leavingMutex
  | entering
  -- in the section of the shard
  | reading
  | checking (current : CacheEntry β)
  | dropping (current : CacheEntry β)
  | loading
  | popping
  | acting (entry : CacheEntry β)
  -- `__set`
  | acquiringStore (value : Option β)
  | testingKey (value : Option β)
  | testingSize (value : Option β)
  | choosing (value : Option β)
  | iterating (value : Option β) (used i : ℕ) (oldest : Option (κ × CacheEntry β))
  | deleting (value : Option β) (oldest : κ)
  | stamping (value : Option β)
  | storing (entry : CacheEntry β)
  | leavingStore (outcome : Outcome β)
  | leaving (outcome : Outcome β)
  deriving DecidableEq

namespace Pc

/-- The thread holds the mutex of the cache. -/
def inMutex : Pc κ β → Bool
  | lookingAgain | creating | leavingMutex | testingKey _ | testingSize _ | choosing _
  | iterating .. | deleting .. | stamping _ | storing _ | leavingStore _ => true
  | _ => false

/-- The thread holds the mutex of its shard. -/
def inShard : Pc κ β → Bool
  | lookingUp | acquiringMutex | lookingAgain | creating | leavingMutex | entering => false
  | _ => true

end Pc

/-- A call with its variable for the mutex of the shard. -/
structure Call (κ β : Type) where
  op : Op κ β
  m : Option ℕ
  pc : Pc κ β
  deriving DecidableEq

/-- A mutex of a shard is told by its number among those created. `created`, `drops` and `faults`
are no fields: `drops` counts the entries that have been taken out other than by an eviction, a
`clear` of a cache with entries as one, and `faults` the evictions that have failed. -/
structure State (τ κ β : Type) where
  clock : ℚ
  store : Store κ β
  mutexes : ℕ → Option ℕ
  created : ℕ
  locks : ℕ → Option τ
  mutex : Option τ
  call : τ → Option (Call κ β)
  drops : ℕ
  faults : ℕ

/-- How a step goes: into a call, on, as the loader or the action has it, or through `clear`. -/
inductive Choice (κ β : Type) where
  | begins (op : Op κ β)
  | goes
  | returns (value : Option β)
  | raises
  | clears

inductive Act (τ κ β : Type) where
  | thread (t : τ) (choice : Choice κ β)
  | tick (now : ℚ)

def initial (clock : ℚ) : State τ κ β :=
  ⟨clock, ⟨.empty, []⟩, fun _ => none, 0, fun _ => none, none, fun _ => none, 0, 0⟩

/-- The index in `__get_shard_mutex`. -/
def shardIndex (settings : Settings) (hash : κ → ℤ) (key : κ) : ℕ :=
  (hash key).natAbs % (settings.maxsize / 4 + 1)

/-- What a comparison by `expire_at` keeps of the oldest entry so far and the next one. -/
def older (oldest : Option (κ × CacheEntry β)) (next : κ × CacheEntry β) : κ × CacheEntry β :=
  match oldest with
  | none => next
  | some oldest => if next.2.expireAt < oldest.2.expireAt then next else oldest

variable [DecidableEq τ] [DecidableEq κ]

namespace State

variable (s : State τ κ β) (t : τ) (c : Call κ β)

def setCall (call : Option (Call κ β)) : State τ κ β :=
  { s with call := Function.update s.call t call }

def goto (pc : Pc κ β) : State τ κ β := s.setCall t (some { c with pc })

def setLock (m : ℕ) (holder : Option τ) : State τ κ β :=
  { s with locks := Function.update s.locks m holder }

/-- An entry that is there is taken out, and nothing happens where none is. -/
def drop (key : κ) (store : Store κ β) : State τ κ β :=
  if key ∈ s.store.cache.keys then { s with store, drops := s.drops + 1 } else s

/-- An eviction fails. -/
def fail (ex : Raised) : State τ κ β :=
  { s with faults := s.faults + 1 }.goto t c (.leavingStore (.raised ex))

end State

variable (settings : Settings) (hash : κ → ℤ)

/-- The next step of a call. -/
def next (s : State τ κ β) (t : τ) (c : Call κ β) : Choice κ β → Option (State τ κ β)
  | .goes =>
    let key := c.op.key
    let index := shardIndex settings hash key
    match c.pc with
    | .lookingUp =>
      let m := s.mutexes index
      some (s.goto t { c with m } (if m.isNone then .acquiringMutex else .entering))
    | .acquiringMutex =>
      if s.mutex.isNone then some ({ s with mutex := some t }.goto t c .lookingAgain) else none
    | .lookingAgain =>
      let m := s.mutexes index
      some (s.goto t { c with m } (if m.isNone then .creating else .leavingMutex))
    | .creating =>
      let m := some s.created
      some ({ s with mutexes := Function.update s.mutexes index m, created := s.created + 1 }.goto t
        { c with m } .leavingMutex)
    | .leavingMutex => some ({ s with mutex := none }.goto t c .entering)
    | .entering => do
      let m ← c.m
      if (s.locks m).isNone then
        some ((s.setLock m (some t)).goto t c (match c.op with
          | .find _ | .get .. => .reading
          | .invalidate .. => .popping
          | .set _ value => .acquiringStore value))
      else none
    | .reading =>
      match s.store.cache.find key, c.op with
      | some current, _ => some (s.goto t c (.checking current))
      | none, .get _ true => some ({ s with store := s.store.loading key }.goto t c .loading)
      | none, _ => some (s.goto t c (.leaving .nothing))
    | .checking current =>
      if current.expireAt > s.clock then
        some (s.goto t c (.leaving (.found current s.clock)))
      else
        match c.op with
        | .find _ => some (s.goto t c (.dropping current))
        | .get _ true => some ({ s with store := s.store.loading key }.goto t c .loading)
        | _ => some (s.goto t c (.leaving .nothing))
    | .dropping _ => some ((s.drop key (s.store.expire key)).goto t c (.leaving .nothing))
    | .popping =>
      match s.store.cache.find key, c.op with
      | some entry, .invalidate _ true =>
        some ((s.drop key (s.store.invalidate key)).goto t c (.acting entry))
      | some entry, _ =>
        some ((s.drop key (s.store.invalidate key)).goto t c (.leaving (.removed entry)))
      | none, _ => some (s.goto t c (.leaving .nothing))
    | .acting entry => some (s.goto t c (.leaving (.removed entry)))
    | .acquiringStore value =>
      if s.mutex.isNone then some ({ s with mutex := some t }.goto t c (.testingKey value))
      else none
    | .testingKey value =>
      some (s.goto t c
        (if key ∈ s.store.cache.keys then .stamping value else .testingSize value))
    | .testingSize value =>
      some (s.goto t c
        (if s.store.cache.size = settings.maxsize then .choosing value else .stamping value))
    | .choosing value => some (s.goto t c (.iterating value s.store.cache.size 0 none))
    | .iterating value used i oldest =>
      -- An iterator over the items raises when the size is no longer the one it has started with.
      if s.store.cache.size ≠ used then some (s.fail t c .changedSize)
      else
        match s.store.cache.entries[i]? with
        | some entry => some (s.goto t c (.iterating value used (i + 1) (older oldest entry)))
        | none =>
          match oldest with
          | some oldest => some (s.goto t c (.deleting value oldest.1))
          | none => some (s.fail t c .emptyMin)
    | .deleting value oldest =>
      if oldest ∈ s.store.cache.keys then
        some ({ s with store := s.store.evict oldest }.goto t c (.stamping value))
      else some (s.fail t c .keyError)
    | .stamping value => some (s.goto t c (.storing ⟨value, s.clock + settings.ttl⟩))
    | .storing entry =>
      some ({ s with store := s.store.put key entry }.goto t c (.leavingStore (.stored entry)))
    | .leavingStore outcome => some ({ s with mutex := none }.goto t c (.leaving outcome))
    | .leaving _ => do
      let m ← c.m
      some ((s.setLock m none).setCall t none)
    | .loading => none
  | .returns value =>
    match c.pc, value with
    | .loading, none => some (s.goto t c (.leaving .nothing))
    | .loading, some value => some (s.goto t c (.acquiringStore (some value)))
    | _, _ => none
  | .raises =>
    match c.pc with
    | .loading => some (s.goto t c (.leaving (.raised .loader)))
    | .acting _ => some (s.goto t c (.leaving (.raised .action)))
    | _ => none
  | _ => none

def step (s : State τ κ β) : Act τ κ β → Option (State τ κ β)
  | .tick now => if s.clock ≤ now then some { s with clock := now } else none
  | .thread t choice =>
    match s.call t, choice with
    | some c, choice => next settings hash s t c choice
    | none, .begins op => some (s.setCall t (some ⟨op, none, .lookingUp⟩))
    | none, .clears =>
      some { s with
        store := s.store.clear
        drops := if s.store.cache.size = 0 then s.drops else s.drops + 1 }
    | none, _ => none

end ShimService.ConcurrentTtlCache.Shared
