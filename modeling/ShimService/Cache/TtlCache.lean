import Mathlib.Data.Rat.Defs
import Mathlib.Algebra.Order.Ring.Rat
import ShimService.Library.OrderedDict
import ShimService.Library.Program
import ShimService.Library.Transition

/-! `utils.cache.TTLCache` in use: `get` with or without a loader, `__setitem__` and `pop`. -/
namespace ShimService.TtlCache

open Program Transition

/-- `None` is cached like any other value. -/
structure Entry (β : Type) where
  expireAt : ℚ
  value : Option β
  deriving DecidableEq

abbrev Cache (κ β : Type) := OrderedDict κ (Entry β)

/-- The arguments of the constructor, and the `<` of the values, which may raise. -/
structure Settings (β : Type) where
  maxsize : ℕ
  ttl : ℚ
  lt : Option β → Option β → Option Bool
  one_lt_maxsize : 1 < maxsize
  ttl_pos : 0 < ttl

/-- The key function of the `min` takes the value out of an item, not its expiry. -/
def Settings.byValue {β : Type} (settings : Settings β) (v w : Entry β) : Option Bool :=
  settings.lt v.value w.value

inductive Raised
  | min
  | loader
  deriving DecidableEq

/-- What a call of a loader comes to; a value is stored at the clock reading after the call. -/
inductive Load (β : Type)
  | raises
  | returnsNone
  | returns (value : β) (storedAt : ℚ)

variable {κ β : Type} [DecidableEq κ]

def setItem (settings : Settings β) (key : κ) (value : Option β) (now : ℚ) :
    Program (Cache κ β) Raised Unit := do
  let cache ← read id
  if key ∉ cache.keys ∧ cache.size = settings.maxsize then
    match cache.least settings.byValue with
    | none => raise .min
    | some oldest => modify fun cache => cache.erase oldest.1
  modify fun cache => cache.set key ⟨now + settings.ttl, value⟩

def load (settings : Settings β) (key : κ) :
    Option (Load β) → Program (Cache κ β) Raised (Option β)
  | none | some .returnsNone => pure none
  | some .raises => raise .loader
  | some (.returns value storedAt) => do
    setItem settings key (some value) storedAt
    pure (some value)

def get (settings : Settings β) (key : κ) (now : ℚ) (loader : Option (Load β)) :
    Program (Cache κ β) Raised (Option β) := do
  let cache ← read id
  match cache.find key with
  | none => load settings key loader
  | some v =>
    if now > v.expireAt then
      modify fun cache => cache.erase key
      load settings key loader
    else pure v.value

def pop (key : κ) : Program (Cache κ β) Raised (Option β) := do
  let cache ← read id
  match cache.find key with
  | none => pure none
  | some v =>
    modify fun cache => cache.erase key
    pure v.value

/-- A call with the clock at its beginning. -/
inductive Act (κ β : Type)
  | get (key : κ) (now : ℚ) (loader : Option (Load β))
  | set (key : κ) (value : Option β) (now : ℚ)
  | pop (key : κ) (now : ℚ)

namespace Act

def key : Act κ β → κ
  | get key _ _ | set key _ _ | pop key _ => key

def now : Act κ β → ℚ
  | get _ now _ | set _ _ now | pop _ now => now

/-- What the loader of a call returns. -/
def loaded : Act κ β → Option β
  | get _ _ (some (.returns value _)) => some value
  | _ => none

/-- The value that a call stores if it finds none, and the clock reading then. -/
def stores : Act κ β → Option (Option β × ℚ)
  | get _ _ (some (.returns value storedAt)) => some (some value, storedAt)
  | set _ value now => some (value, now)
  | _ => none

def ends (act : Act κ β) : ℚ := (act.stores.map Prod.snd).getD act.now

def run (settings : Settings β) : Act κ β → Program (Cache κ β) Raised (Option β)
  | get key now loader => TtlCache.get settings key now loader
  | set key value now => do
    setItem settings key value now
    pure none
  | pop key _ => TtlCache.pop key

end Act

/-- A call that has ended. -/
structure Call (κ β : Type) where
  before : Cache κ β
  act : Act κ β
  result : Except Raised (Option β)
  after : Cache κ β

/-- The calls that have ended, the last one first. -/
structure State (κ β : Type) where
  clock : ℚ
  cache : Cache κ β
  calls : List (Call κ β)

def initial (clock : ℚ) : State κ β := ⟨clock, .empty, []⟩

def callOf (settings : Settings β) (cache : Cache κ β) (act : Act κ β) : Call κ β :=
  ⟨cache, act, (act.run settings cache).1, (act.run settings cache).2⟩

/-- A call reads the clock no earlier than the calls before it did. -/
def step (settings : Settings β) (s : State κ β) (act : Act κ β) : Option (State κ β) :=
  if s.clock ≤ act.now ∧ act.now ≤ act.ends then
    let call := callOf settings s.cache act
    some ⟨act.ends, call.after, call :: s.calls⟩
  else none

end ShimService.TtlCache
