import ShimService.Sequence.Unique
import ShimService.Session.Store

/-!
`AwsPushNotificationsRepo.submit`, each call with its sequence number and its transaction inside
`execute_with_event`, and the runs of `PushNotificationProcessor` that read, deliver and mark.
-/
namespace ShimService.PushNotifications

open CondTable

/-- The stored `LocalRecord` beside its session key. -/
structure Notification where
  seqNo : ℕ
  channelType : String
  messageType : String
  messageData : String
  timeCreated : ℕ
  sent : Bool
  expireTime : ℕ
  deriving DecidableEq, Repr

/-- The notifications of one session, in key order. -/
structure Notifications where
  rows : List Notification
  sorted : rows.Pairwise (·.seqNo < ·.seqNo)

namespace Notifications

variable {t t' : Notifications} {n : Notification} {m : ℕ}

def empty : Notifications := ⟨[], .nil⟩

/-- A put under a free key. -/
def put (t : Notifications) (n : Notification) : Option Notifications :=
  if t.rows.any (·.seqNo = n.seqNo) then none
  else some {
    rows := t.rows.filter (·.seqNo < n.seqNo) ++ n :: t.rows.filter (n.seqNo < ·.seqNo)
    sorted := by
      refine List.pairwise_append.mpr ⟨t.sorted.filter _,
        List.pairwise_cons.mpr ⟨?_, t.sorted.filter _⟩, ?_⟩
      · intro b hb
        simpa using (List.mem_filter.mp hb).2
      · intro a ha b hb
        have hlt : a.seqNo < n.seqNo := by simpa using (List.mem_filter.mp ha).2
        rcases List.mem_cons.mp hb with rfl | hb
        · exact hlt
        · have : n.seqNo < b.seqNo := by simpa using (List.mem_filter.mp hb).2
          omega }

/-- The patch `sent = True` of a row that must exist. -/
def setSent (t : Notifications) (seqNo : ℕ) : Option Notifications :=
  if t.rows.any (·.seqNo = seqNo) then some {
    rows := t.rows.map fun n => if n.seqNo = seqNo then { n with sent := true } else n
    sorted := by
      refine List.pairwise_map.mpr (t.sorted.imp ?_)
      intro a b hab
      split_ifs <;> exact hab }
  else none

/-- The unsent notifications after one number and up to another, in key order. -/
def unsent (t : Notifications) (startAfter upTo : Option ℕ) : List Notification :=
  t.rows.filter fun n => startAfter.all (· < n.seqNo) && upTo.all (n.seqNo ≤ ·) && !n.sent

theorem mem_put (h : t.put n = some t') {r : Notification} :
    r ∈ t'.rows ↔ r = n ∨ r ∈ t.rows := by
  unfold put at h
  split at h
  · cases h
  · rename_i hfree
    cases h
    simp only [List.any_eq_true, decide_eq_true_eq, not_exists, not_and] at hfree
    simp only [List.mem_append, List.mem_filter, List.mem_cons, decide_eq_true_eq]
    constructor
    · rintro (⟨hr, _⟩ | rfl | ⟨hr, _⟩)
      · exact .inr hr
      · exact .inl rfl
      · exact .inr hr
    · rintro (rfl | hr)
      · exact .inr (.inl rfl)
      · have := hfree r hr
        by_cases hlt : r.seqNo < n.seqNo
        · exact .inl ⟨hr, hlt⟩
        · exact .inr (.inr ⟨hr, by omega⟩)

/-- A patch keeps the numbers, and a row that it marks is the one it is for. -/
theorem mem_setSent (h : t.setSent m = some t') {r : Notification} (hr : r ∈ t'.rows) :
    ∃ r₀ ∈ t.rows, r₀.seqNo = r.seqNo ∧ (r.sent = true → r₀.sent = true ∨ r.seqNo = m) := by
  unfold setSent at h
  split at h <;> cases h
  obtain ⟨r₀, hr₀, rfl⟩ := List.mem_map.mp hr
  by_cases hm : r₀.seqNo = m
  · exact ⟨r₀, hr₀, by simp [hm], fun _ => .inr (by simp [hm])⟩
  · exact ⟨r₀, hr₀, by simp [hm], fun hs => .inl (by simpa [hm] using hs)⟩

theorem mem_unsent {startAfter upTo : Option ℕ} : n ∈ t.unsent startAfter upTo ↔ n ∈ t.rows ∧
    (∀ p, startAfter = some p → p < n.seqNo) ∧ (∀ p, upTo = some p → n.seqNo ≤ p) ∧
      n.sent = false := by
  unfold unsent
  cases startAfter <;> cases upTo <;> simp [and_assoc]

end Notifications

/-- `PushNotificationContextSettings`. -/
structure Settings where
  lastSeqNo : Option ℕ
  deriving DecidableEq, Repr

/-- The arguments of one `submit` call. -/
structure Submit where
  sessionKey : SessionKey
  userId : String
  platformChannelType : String
  messageType : String
  message : String
  deriving DecidableEq, Repr

structure Tables where
  notifications : SessionKey → Notifications
  events : Table (ℕ × ℕ) Event
  contexts : Table SessionKey Settings

/-- Where a notifier run stands, with the records of its page still to be sent and the key its
result set goes on from. -/
inductive Notifier where
  | idle
  | loaded (key : SessionKey) (settings : Settings)
  | reading (key : SessionKey) (page : List Notification) (nextKey : Option ℕ)
  | delivered (key : SessionKey) (record : Notification) (page : List Notification)
      (nextKey : Option ℕ)
  deriving DecidableEq, Repr

/-- `versions` are the settings a context has had, any of which its read may return; `delivered`
are the numbers that `send_push_notification` has sent. -/
structure State where
  sequence : SequenceRepo.State
  tables : Tables
  versions : SessionKey → List Settings
  delivered : SessionKey → ℕ → Bool
  notifiers : ℕ → Notifier

def State.setNotifier (s : State) (j : ℕ) (n : Notifier) : State :=
  { s with notifiers := Function.update s.notifiers j n }

@[simp] theorem State.setNotifier_notifiers (s : State) (i j : ℕ) (n : Notifier) :
    (s.setNotifier j n).notifiers i = if i = j then n else s.notifiers i := by
  simp [State.setNotifier, Function.update_apply]

/-- The `execute` call of a submit. -/
def sequenceArgs (submits : ℕ → Submit) (c : ℕ) : SequenceRepo.Args :=
  ⟨(submits c).sessionKey.tenantId, "EventSeq", 30⟩

def newNotification (submit : Submit) (seqNo now expirationSeconds : ℕ) : Notification where
  seqNo := seqNo
  channelType := submit.platformChannelType
  messageType := submit.messageType
  messageData := submit.message
  timeCreated := now
  sent := false
  expireTime := getSystemTimeInSeconds now + expirationSeconds

def putNotification (key : SessionKey) (n : Notification) : Tables → Option Tables := fun t =>
  ((t.notifications key).put n).map fun rows =>
    { t with notifications := Function.update t.notifications key rows }

def putEvent (tenantId seqNo : ℕ) (event : Event) : Tables → Option Tables := fun t =>
  (t.events.putNew (tenantId, seqNo) event).map fun events => { t with events := events }

def patchSent (key : SessionKey) (seqNo : ℕ) : Tables → Option Tables := fun t =>
  ((t.notifications key).setSent seqNo).map fun rows =>
    { t with notifications := Function.update t.notifications key rows }

def patchContext (key : SessionKey) (settings : Settings) : Tables → Option Tables := fun t =>
  (AbstractAwsRepo.patch t.contexts key fun _ => settings).map fun contexts =>
    { t with contexts := contexts }

/-- The transaction of `submit`. -/
def submitTransaction (submit : Submit) (seqNo now expirationSeconds : ℕ) (t : Tables) :
    Except ℕ Tables :=
  transact [putNotification submit.sessionKey (newNotification submit seqNo now expirationSeconds),
    putEvent submit.sessionKey.tenantId seqNo
      ⟨.pushNotification, submit.sessionKey.sessionId, submit.userId⟩] t

/-- The transaction of `set_sent` with a context. -/
def setSent (key : SessionKey) (record : Notification) (settings : Settings) (t : Tables) :
    Except ℕ Tables :=
  transact [patchSent key record.seqNo, patchContext key settings] t

/-- The rows a page of `query_notifications` covers: up to the row whose key comes with it. -/
def fetch (s : State) (j : ℕ) (key : SessionKey) (startAfter upTo : Option ℕ) : Option State :=
  if upTo.all fun u => (s.tables.notifications key).rows.any (·.seqNo = u) then
    match (s.tables.notifications key).unsent startAfter upTo with
    | [] => some (s.setNotifier j .idle)
    | record :: page => some (s.setNotifier j (.reading key (record :: page) upTo))
  else none

/-- `sequence` is a step of a submit outside its transaction; a submit that does not come to its
transaction raises in the callback. -/
inductive Act where
  | sequence (a : SequenceRepo.Act)
  | commit (c now : ℕ) (returned : Bool)
  | createContext (key : SessionKey)
  | deleteContext (key : SessionKey)
  | load (j : ℕ) (key : SessionKey) (settings : Settings)
  | fetch (j : ℕ) (upTo : Option ℕ)
  | deliver (j : ℕ)
  | setSent (j : ℕ)
  | quit (j : ℕ)

def step (submits : ℕ → Submit) (expirationSeconds : ℕ) (s : State) : Act → Option State
  | .sequence a =>
    (SequenceRepo.step (sequenceArgs submits) s.sequence a).map fun t => { s with sequence := t }
  | .commit c now returned =>
    match s.sequence.calls c with
    | .running held =>
      (SequenceRepo.step (sequenceArgs submits) s.sequence (.callback c returned)).map fun t =>
        match submitTransaction (submits c) held.nextValue now expirationSeconds s.tables with
        | .ok tables => { s with sequence := t, tables := tables }
        | .error _ => { s with sequence := t }
    | _ => none
  | .createContext key =>
    (AbstractAwsRepo.create s.tables.contexts key ⟨none⟩).map fun contexts => { s with
      tables := { s.tables with contexts := contexts }
      versions := Function.update s.versions key (⟨none⟩ :: s.versions key) }
  | .deleteContext key =>
    some { s with tables := { s.tables with contexts := s.tables.contexts.remove key } }
  | .load j key settings =>
    if s.notifiers j = .idle ∧ settings ∈ s.versions key then
      some (s.setNotifier j (.loaded key settings))
    else none
  | .fetch j upTo =>
    match s.notifiers j with
    | .loaded key settings => fetch s j key settings.lastSeqNo upTo
    | .reading key [] (some nextKey) => fetch s j key (some nextKey) upTo
    | _ => none
  | .deliver j =>
    match s.notifiers j with
    | .reading key (record :: page) nextKey => some ({ s with
        delivered := Function.update s.delivered key
          (Function.update (s.delivered key) record.seqNo true)
      }.setNotifier j (.delivered key record page nextKey))
    | _ => none
  -- A refused transaction is a warning, and the run goes on.
  | .setSent j =>
    match s.notifiers j with
    | .delivered key record page nextKey =>
      match setSent key record ⟨some record.seqNo⟩ s.tables with
      | .ok tables => some ({ s with
          tables := tables
          versions := Function.update s.versions key (⟨some record.seqNo⟩ :: s.versions key)
        }.setNotifier j (.reading key page nextKey))
      | .error _ => some (s.setNotifier j (.reading key page nextKey))
    | _ => none
  | .quit j => some (s.setNotifier j .idle)

/-- No notification, event or context is stored; the sequence rows are any. -/
def initial (clock : ℕ) (sequences : Table SequenceRepo.SeqKey SequenceRepo.Sequence) : State where
  sequence := SequenceRepo.initial clock sequences
  tables := ⟨fun _ => .empty, fun _ => none, fun _ => none⟩
  versions := fun _ => []
  delivered := fun _ _ => false
  notifiers := fun _ => .idle

/-- What a step has found and where it leads, a constructor for each way through `step`. -/
inductive Effect (submits : ℕ → Submit) (expirationSeconds : ℕ) (s : State) :
    Act → State → Prop where
  | sequence {a : SequenceRepo.Act} {q : SequenceRepo.State}
      (hq : SequenceRepo.step (sequenceArgs submits) s.sequence a = some q) :
      Effect submits expirationSeconds s (.sequence a) { s with sequence := q }
  | committed {c now : ℕ} {returned : Bool} {held : SequenceRepo.Sequence} {q : SequenceRepo.State}
      {tables : Tables} (hc : s.sequence.calls c = .running held)
      (hq : SequenceRepo.step (sequenceArgs submits) s.sequence (.callback c returned) = some q)
      (htables : submitTransaction (submits c) held.nextValue now expirationSeconds s.tables =
        .ok tables) :
      Effect submits expirationSeconds s (.commit c now returned)
        { s with sequence := q, tables := tables }
  | refused {c now index : ℕ} {returned : Bool} {held : SequenceRepo.Sequence}
      {q : SequenceRepo.State} (hc : s.sequence.calls c = .running held)
      (hq : SequenceRepo.step (sequenceArgs submits) s.sequence (.callback c returned) = some q)
      (htables : submitTransaction (submits c) held.nextValue now expirationSeconds s.tables =
        .error index) :
      Effect submits expirationSeconds s (.commit c now returned) { s with sequence := q }
  | createContext {key : SessionKey} (hfree : s.tables.contexts key = none) :
      Effect submits expirationSeconds s (.createContext key) { s with
        tables := { s.tables with contexts := Function.update s.tables.contexts key (some ⟨none⟩) }
        versions := Function.update s.versions key (⟨none⟩ :: s.versions key) }
  | deleteContext {key : SessionKey} : Effect submits expirationSeconds s (.deleteContext key)
      { s with tables := { s.tables with contexts := s.tables.contexts.remove key } }
  | load {j : ℕ} {key : SessionKey} {settings : Settings} (hj : s.notifiers j = .idle)
      (hread : settings ∈ s.versions key) :
      Effect submits expirationSeconds s (.load j key settings)
        (s.setNotifier j (.loaded key settings))
  | fetchFirst {j : ℕ} {upTo : Option ℕ} {key : SessionKey} {settings : Settings} {t : State}
      (hj : s.notifiers j = .loaded key settings)
      (hfetch : fetch s j key settings.lastSeqNo upTo = some t) :
      Effect submits expirationSeconds s (.fetch j upTo) t
  | fetchNext {j nextKey : ℕ} {upTo : Option ℕ} {key : SessionKey} {t : State}
      (hj : s.notifiers j = .reading key [] (some nextKey))
      (hfetch : fetch s j key (some nextKey) upTo = some t) :
      Effect submits expirationSeconds s (.fetch j upTo) t
  | deliver {j : ℕ} {key : SessionKey} {record : Notification} {page : List Notification}
      {nextKey : Option ℕ} (hj : s.notifiers j = .reading key (record :: page) nextKey) :
      Effect submits expirationSeconds s (.deliver j) ({ s with
        delivered := Function.update s.delivered key
          (Function.update (s.delivered key) record.seqNo true)
        }.setNotifier j (.delivered key record page nextKey))
  | sent {j : ℕ} {key : SessionKey} {record : Notification} {page : List Notification}
      {nextKey : Option ℕ} {tables : Tables}
      (hj : s.notifiers j = .delivered key record page nextKey)
      (htables : PushNotifications.setSent key record ⟨some record.seqNo⟩ s.tables = .ok tables) :
      Effect submits expirationSeconds s (.setSent j) ({ s with
        tables := tables
        versions := Function.update s.versions key (⟨some record.seqNo⟩ :: s.versions key)
        }.setNotifier j (.reading key page nextKey))
  | unsent {j index : ℕ} {key : SessionKey} {record : Notification} {page : List Notification}
      {nextKey : Option ℕ} (hj : s.notifiers j = .delivered key record page nextKey)
      (htables : PushNotifications.setSent key record ⟨some record.seqNo⟩ s.tables =
        .error index) :
      Effect submits expirationSeconds s (.setSent j) (s.setNotifier j (.reading key page nextKey))
  | quit {j : ℕ} : Effect submits expirationSeconds s (.quit j) (s.setNotifier j .idle)

theorem step_effect {submits : ℕ → Submit} {expirationSeconds : ℕ} {s t : State} {a : Act}
    (h : step submits expirationSeconds s a = some t) :
    Effect submits expirationSeconds s a t := by
  cases a with
  | sequence a =>
    simp only [step, Option.map_eq_some_iff] at h
    obtain ⟨q, hq, rfl⟩ := h
    exact .sequence hq
  | commit c now returned =>
    simp only [step] at h
    split at h
    · rename_i held hc
      obtain ⟨q, hq, hs⟩ := Option.map_eq_some_iff.mp h
      split at hs <;> subst hs <;> rename_i htables
      · exact .committed hc hq htables
      · exact .refused hc hq htables
    · cases h
  | createContext key =>
    simp only [step, Option.map_eq_some_iff] at h
    obtain ⟨contexts, hcontexts, rfl⟩ := h
    obtain ⟨hfree, rfl⟩ := AbstractAwsRepo.create_eq_some.mp hcontexts
    exact .createContext hfree
  | deleteContext key =>
    cases h
    exact .deleteContext
  | load j key settings =>
    simp only [step, Option.ite_none_right_eq_some] at h
    obtain ⟨⟨hj, hread⟩, h⟩ := h
    obtain rfl := Option.some.inj h
    exact .load hj hread
  | fetch j upTo =>
    simp only [step] at h
    split at h
    · rename_i hj
      exact .fetchFirst hj h
    · rename_i hj
      exact .fetchNext hj h
    · cases h
  | deliver j =>
    simp only [step] at h
    split at h <;> cases h
    rename_i hj
    exact .deliver hj
  | setSent j =>
    simp only [step] at h
    split at h
    · rename_i hj
      split at h <;> cases h <;> rename_i htables
      · exact .sent hj htables
      · exact .unsent hj htables
    · cases h
  | quit j =>
    cases h
    exact .quit

section

variable {t t' : Tables} {key : SessionKey} {submit : Submit} {seqNo now expirationSeconds : ℕ}
  {record : Notification} {settings : Settings}

/-- A submit leaves the contexts alone, and a row is an old one or the new notification. -/
theorem submitTransaction_ok
    (h : submitTransaction submit seqNo now expirationSeconds t = .ok t') :
    t'.contexts = t.contexts ∧ ∀ k, ∀ r ∈ (t'.notifications k).rows,
      r ∈ (t.notifications k).rows ∨ k = submit.sessionKey ∧
        r = newNotification submit seqNo now expirationSeconds := by
  simp only [submitTransaction, transact_cons_ok, transact_nil_ok, putNotification, putEvent,
    Option.map_eq_some_iff] at h
  obtain ⟨_, ⟨rows, hput, rfl⟩, _, ⟨events, _, rfl⟩, rfl⟩ := h
  refine ⟨rfl, ?_⟩
  intro k r hr
  by_cases hk : k = submit.sessionKey
  · subst hk
    rcases (Notifications.mem_put hput).mp (by simpa using hr) with rfl | hold
    · exact .inr ⟨rfl, rfl⟩
    · exact .inl hold
  · exact .inl (by simpa [hk] using hr)

/-- `set_sent` stores the settings, and a row keeps its number and is marked only if it is the one
sent. -/
theorem setSent_ok (h : setSent key record settings t = .ok t') :
    t'.contexts = Function.update t.contexts key (some settings) ∧
      ∀ k, ∀ r ∈ (t'.notifications k).rows, ∃ r₀ ∈ (t.notifications k).rows,
        r₀.seqNo = r.seqNo ∧
          (r.sent = true → r₀.sent = true ∨ k = key ∧ r.seqNo = record.seqNo) := by
  simp only [setSent, transact_cons_ok, transact_nil_ok, patchSent, patchContext,
    Option.map_eq_some_iff, AbstractAwsRepo.patch_eq_some] at h
  obtain ⟨_, ⟨rows, hset, rfl⟩, _, ⟨contexts, ⟨_, _, rfl⟩, rfl⟩, rfl⟩ := h
  refine ⟨rfl, ?_⟩
  intro k r hr
  by_cases hk : k = key
  · subst hk
    obtain ⟨r₀, hr₀, hseq, hsent⟩ := Notifications.mem_setSent hset (by simpa using hr)
    exact ⟨r₀, hr₀, hseq, fun h => (hsent h).imp_right fun h => ⟨rfl, h⟩⟩
  · exact ⟨r, by simpa [hk] using hr, rfl, .inl⟩

end

end ShimService.PushNotifications
