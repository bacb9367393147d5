import ShimService.Keys.Repositories
import ShimService.Library.TextOrder

/-!
The range keys that `AwsPendingEventsRepo.query_events` compares: those of the pending events, and
the one that it builds from the time of the query.
-/
namespace ShimService.Keys

variable {β : Type}

structure PendingEvent where
  eventType : String
  eventTime : ℤ
  tenantId : ℕ
  sessionId : String
  userId : Option String
  activeAt : ℕ
  updateTime : ℤ
  deriving DecidableEq, Repr

namespace PendingEvent

/-- `other` is the `None` of a missing user id. -/
def toRecord (e : PendingEvent) : Item Unit := fun name =>
  if name = "eventType" then some (.str e.eventType)
  else if name = "eventTime" then some (.int e.eventTime)
  else if name = "tenantId" then some (.int e.tenantId)
  else if name = "sessionId" then some (.str e.sessionId)
  else if name = "userId" then some ((e.userId.map Value.str).getD (.other ()))
  else if name = "activeAt" then some (.int e.activeAt)
  else if name = "updateTime" then some (.int e.updateTime)
  else none

/-- The range key of the item that `prepare_item` makes of the event. -/
def rangeKey (e : PendingEvent) : Option (Value Unit) :=
  (awsPendingEventsRepo.prepForSerialization e.toRecord).bind (· virtualRangeKey)

end PendingEvent

/-- The components are gone from the result when its first entry is read. -/
def CompoundKey.buildRangeKeyFromArgs [ToString β] (key : CompoundKey) (args : List (Value β)) :
    Option (String × Value β) := do
  let rangeKey ← key.rangeKey
  let (resultKey, _) ← rangeKey.populateKeyFromArgs args fun _ => none
  let resultKey ← rangeKey.prepForSerialization resultKey
  let value ← resultKey rangeKey.attributeName
  return (rangeKey.attributeName, value)

def maxTenantId : ℕ := 999999999999

/-- The qualifier of `query_events`, whose operation is `<=`. -/
def dueFilter (now : ℕ) : Option (String × Value Unit) :=
  awsPendingEventsRepo.buildRangeKeyFromArgs [.int now, .int maxTenantId, .str "X"]

/-- The encoded range key: two padded numerals and the session id. -/
def encodeRange (activeAt tenantId : ℕ) (sessionId : String) : String :=
  Text.join defaultDelimiter
    [Text.rjust (toString activeAt) 19 '0', Text.rjust (toString tenantId) 12 '0', sessionId]

theorem rangeKey_eq (e : PendingEvent) :
    e.rangeKey = some (.str (encodeRange e.activeAt e.tenantId e.sessionId)) := rfl

/-- Its arguments are formatted as the key's components are, twice over. -/
theorem buildRangeKeyFromArgs_pending (activeAt tenantId : ℕ) (sessionId : String) :
    awsPendingEventsRepo.buildRangeKeyFromArgs
        [Value.int activeAt, .int tenantId, (.str sessionId : Value Unit)] =
      some (virtualRangeKey, .str (encodeRange activeAt tenantId sessionId)) := by
  have hbuilt : awsPendingEventsRepo.buildRangeKeyFromArgs
      [Value.int activeAt, .int tenantId, (.str sessionId : Value Unit)] =
    some (virtualRangeKey, .str (Text.join defaultDelimiter
      [Text.rjust (Text.rjust (toString activeAt) 19 '0') 19 '0',
        Text.rjust (Text.rjust (toString tenantId) 12 '0') 12 '0', sessionId])) := rfl
  rw [hbuilt, Text.rjust_rjust, Text.rjust_rjust, encodeRange]

theorem dueFilter_eq (now : ℕ) :
    dueFilter now = some (virtualRangeKey, .str (encodeRange now maxTenantId "X")) :=
  buildRangeKeyFromArgs_pending now maxTenantId "X"

section

variable {activeAt activeAt' tenantId tenantId' now : ℕ} {sessionId sessionId' : String}

theorem length_numeral {n w : ℕ} (hw : 0 < w) (hn : n < 10 ^ w) :
    (Text.rjust (toString n) w '0').length = w := by
  rw [← String.length_toList]
  exact Text.length_rjust_toString hw hn

/-- The earlier event has the smaller key, whatever follows. -/
theorem encodeRange_lt (h : activeAt < activeAt') (hmax : activeAt' < 10 ^ 19) :
    encodeRange activeAt tenantId sessionId < encodeRange activeAt' tenantId' sessionId' := by
  have hmin : activeAt < 10 ^ 19 := Nat.lt_trans h hmax
  apply Text.join_lt_join
  · rw [length_numeral (by decide) hmin, length_numeral (by decide) hmax]
  · exact (Text.rjust_lt_iff (by decide) hmin hmax).mpr h

theorem encodeRange_lt_of_tenant (h : tenantId < tenantId') (hmax : tenantId' < 10 ^ 12) :
    encodeRange activeAt tenantId sessionId < encodeRange activeAt tenantId' sessionId' := by
  have hmin : tenantId < 10 ^ 12 := Nat.lt_trans h hmax
  apply Text.join_cons_lt_join_cons
  apply Text.join_lt_join
  · rw [length_numeral (by decide) hmin, length_numeral (by decide) hmax]
  · exact (Text.rjust_lt_iff (by decide) hmin hmax).mpr h

theorem encodeRange_lt_iff (hne : activeAt ≠ activeAt') (hmax : activeAt < 10 ^ 19)
    (hmax' : activeAt' < 10 ^ 19) :
    encodeRange activeAt tenantId sessionId < encodeRange activeAt' tenantId' sessionId' ↔
      activeAt < activeAt' := by
  rcases Nat.lt_or_gt_of_ne hne with hlt | hgt
  · exact iff_of_true (encodeRange_lt hlt hmax') hlt
  · exact iff_of_false (String.lt_asymm (encodeRange_lt hgt hmax)) (by omega)

/-- The largest tenant id lets in every event of the very time of the query. -/
theorem encodeRange_le_due (htenant : tenantId < maxTenantId) (hmax : activeAt < 10 ^ 19)
    (hnow : now < 10 ^ 19) :
    encodeRange activeAt tenantId sessionId ≤ encodeRange now maxTenantId "X" ↔
      activeAt ≤ now := by
  rcases Nat.lt_trichotomy activeAt now with hlt | rfl | hgt
  · exact iff_of_true (String.lt_asymm (encodeRange_lt hlt hnow)) hlt.le
  · exact iff_of_true (String.lt_asymm (encodeRange_lt_of_tenant htenant (by decide))) le_rfl
  · exact iff_of_false (String.not_le.mpr (encodeRange_lt hgt hmax)) (by omega)

end

/-- The range condition of the query selects exactly the events that are due, and events of
different times stand in the table in the order of their times. -/
theorem due_query_selects_due (event other : PendingEvent) (now : ℕ)
    (htenant : event.tenantId < maxTenantId) (hactive : event.activeAt < 10 ^ 19)
    (hother : other.activeAt < 10 ^ 19) (hnow : now < 10 ^ 19) :
    ∃ key otherKey filter, event.rangeKey = some (.str key) ∧
      other.rangeKey = some (.str otherKey) ∧
      dueFilter now = some (virtualRangeKey, .str filter) ∧
      (key ≤ filter ↔ event.activeAt ≤ now) ∧
      (event.activeAt ≠ other.activeAt →
        (key < otherKey ↔ event.activeAt < other.activeAt)) :=
  ⟨_, _, _, rangeKey_eq event, rangeKey_eq other, dueFilter_eq now,
    encodeRange_le_due htenant hactive hnow,
    fun hne => encodeRange_lt_iff hne hactive hother⟩

/-- An event with a time of 13 digits, as they are in milliseconds. -/
def sampleEvent (activeAt : ℕ) : PendingEvent :=
  ⟨"lap", 1700000000000, 1, "a", none, activeAt, 1700000000000⟩

theorem due_query_selects_sample : ∃ key otherKey filter,
    (sampleEvent 1700000000001).rangeKey = some (.str key) ∧
      (sampleEvent 1700000000002).rangeKey = some (.str otherKey) ∧
      dueFilter 1700000000001 = some (virtualRangeKey, .str filter) ∧ key ≤ filter ∧
      key < otherKey := by
  obtain ⟨key, otherKey, filter, hkey, hother, hfilter, hdue, horder⟩ :=
    due_query_selects_due (sampleEvent 1700000000001) (sampleEvent 1700000000002) 1700000000001
      (by decide) (by decide) (by decide) (by decide)
  exact ⟨key, otherKey, filter, hkey, hother, hfilter, hdue.mpr (Nat.le_refl _),
    (horder (by decide)).mpr (by decide)⟩

end ShimService.Keys
