import ShimService.Cache.TtlCache

/-!
`utils.concurrent_cache.ConcurrentTtlCache`, with calls that are each run to their end: the locks
that keep them apart are left out.
-/
namespace ShimService.ConcurrentTtlCache

open Program Transition
open TtlCache (Load)

structure CacheEntry (β : Type) where
  value : Option β
  expireAt : ℚ
  deriving DecidableEq

abbrev Cache (κ β : Type) := OrderedDict κ (CacheEntry β)

/-- The arguments of the constructor. What its loader does is told with each call. -/
structure Settings where
  maxsize : ℕ
  ttl : ℚ
  hasLoader : Bool
  one_lt_maxsize : 1 < maxsize
  ttl_pos : 0 < ttl

/-- What has been done about a key, or about all of them. -/
inductive Event (κ β : Type)
  | stored (key : κ) (entry : CacheEntry β)
  | evicted (key : κ)
  | invalidated (key : κ)
  | cleared
  | loading (key : κ)

/-- The cache, and all that has been done to it, the last first: no call reads `log`. -/
structure Store (κ β : Type) where
  cache : Cache κ β
  log : List (Event κ β)

inductive Raised
  | min
  | loader
  | action
  deriving DecidableEq

variable {κ β : Type} [DecidableEq κ]

namespace Store

variable (store : Store κ β) (key : κ)

def put (entry : CacheEntry β) : Store κ β :=
  ⟨store.cache.set key entry, .stored key entry :: store.log⟩

def evict : Store κ β := ⟨store.cache.erase key, .evicted key :: store.log⟩

def invalidate : Store κ β := ⟨store.cache.erase key, .invalidated key :: store.log⟩

/-- An expired entry goes without notice. -/
def expire : Store κ β := ⟨store.cache.erase key, store.log⟩

def clear : Store κ β := ⟨.empty, .cleared :: store.log⟩

def loading : Store κ β := ⟨store.cache, .loading key :: store.log⟩

end Store

def find (key : κ) (now : ℚ) : Program (Store κ β) Raised (Option β) := do
  let store ← read id
  match store.cache.find key with
  | none => pure none
  | some current =>
    if current.expireAt > now then pure current.value
    else
      modify fun store => store.expire key
      pure none

/-- `__set`. -/
def setItem (settings : Settings) (key : κ) (value : Option β) (now : ℚ) :
    Program (Store κ β) Raised Unit := do
  let store ← read id
  if key ∉ store.cache.keys ∧ store.cache.size = settings.maxsize then
    match store.cache.least fun v w => some (decide (v.expireAt < w.expireAt)) with
    | none => raise .min
    | some oldest => modify fun store => store.evict oldest.1
  modify fun store => store.put key ⟨value, now + settings.ttl⟩

/-- A loader is called, which is noted whatever comes of it: its value, with the clock when it is
stored. -/
def callLoader (key : κ) (call : Load β) : Program (Store κ β) Raised (Option (β × ℚ)) := do
  modify fun store => store.loading key
  match call with
  | .raises => raise .loader
  | .returnsNone => pure none
  | .returns value storedAt => pure (some (value, storedAt))

/-- `__load`, and the storing of what it returns. -/
def load (settings : Settings) (key : κ) :
    Option (Load β) → Program (Store κ β) Raised (Option β)
  | none => pure none
  | some call => do
    match ← callLoader key call with
    | none => pure none
    | some (value, storedAt) =>
      setItem settings key (some value) storedAt
      pure (some value)

def get (settings : Settings) (key : κ) (now : ℚ) (loader : Option (Load β)) :
    Program (Store κ β) Raised (Option β) := do
  let store ← read id
  match store.cache.find key with
  | none => load settings key loader
  | some current =>
    if current.expireAt > now then pure current.value else load settings key loader

/-- The action, if there is one, may raise. -/
def invalidate (key : κ) (action : Option Bool) : Program (Store κ β) Raised (Option β) := do
  let store ← read id
  match store.cache.find key with
  | none => pure none
  | some entry =>
    modify fun store => store.invalidate key
    if action = some true then raise .action
    pure entry.value

/-- A call with the clock at its beginning. A `get` is told what the constructor's loader does if it
is called. -/
inductive Act (κ β : Type)
  | find (key : κ) (now : ℚ)
  | get (key : κ) (now : ℚ) (loader : Option (Load β)) (default : Load β)
  | set (key : κ) (value : Option β) (now : ℚ)
  | invalidate (key : κ) (now : ℚ) (action : Option Bool)
  | clear (now : ℚ)

namespace Act

variable (settings : Settings)

def now : Act κ β → ℚ
  | find _ now | get _ now _ _ | set _ _ now | invalidate _ now _ | clear now => now

/-- The loader that a call is made with, the constructor's where none is given. -/
def loader : Act κ β → Option (Load β)
  | get _ _ loader default => loader <|> if settings.hasLoader then some default else none
  | _ => none

/-- The key and the value that a call stores if it finds none, and the clock reading then. -/
def stores (act : Act κ β) : Option (κ × Option β × ℚ) :=
  match act with
  | get key _ _ _ =>
    match act.loader settings with
    | some (.returns value storedAt) => some (key, some value, storedAt)
    | _ => none
  | set key value now => some (key, value, now)
  | _ => none

def ends (act : Act κ β) : ℚ := ((act.stores settings).map fun stored => stored.2.2).getD act.now

def run (act : Act κ β) : Program (Store κ β) Raised (Option β) :=
  match act with
  | find key now => ConcurrentTtlCache.find key now
  | get key now _ _ => ConcurrentTtlCache.get settings key now (act.loader settings)
  | set key value now => do
    setItem settings key value now
    pure none
  | invalidate key _ action => ConcurrentTtlCache.invalidate key action
  | clear _ => do
    modify fun store => store.clear
    pure none

end Act

/-- A call that has ended. -/
structure Call (κ β : Type) where
  before : Store κ β
  act : Act κ β
  result : Except Raised (Option β)
  after : Store κ β

/-- The calls that have ended, the last one first. -/
structure State (κ β : Type) where
  clock : ℚ
  store : Store κ β
  calls : List (Call κ β)

def initial (clock : ℚ) : State κ β := ⟨clock, ⟨.empty, []⟩, []⟩

def callOf (settings : Settings) (store : Store κ β) (act : Act κ β) : Call κ β :=
  ⟨store, act, (act.run settings store).1, (act.run settings store).2⟩

/-- A call reads the clock no earlier than the calls before it did. -/
def step (settings : Settings) (s : State κ β) (act : Act κ β) : Option (State κ β) :=
  if s.clock ≤ act.now ∧ act.now ≤ act.ends settings then
    let call := callOf settings s.store act
    some ⟨act.ends settings, call.after, call :: s.calls⟩
  else none

end ShimService.ConcurrentTtlCache
