import ShimService.PushNotification.Processor

/-!
Who runs the push notifier: each `submit` invokes it for its session once its event is stored, and
a run that finds the session locked schedules another one under the session's schedule name.
-/
namespace ShimService.PushNotifications.Wakeups

open CondTable

/-- A schedule is deleted some time after it has invoked its function. -/
inductive Schedule where
  | pending
  | fired
  deriving DecidableEq, Repr

/-- `toInvoke` has the submits that have stored a notification, with its number, and have still to
invoke the notifier; `inFlight` are the invocations not yet received. `locked` are the runs inside
the session's lock, and `refused` those that did not get it and have still to schedule.
`abandoned` notes which notifications were stored when whoever was to send them gave up, or
stopped at a page before theirs. -/
structure State where
  base : PushNotifications.State
  toInvoke : ℕ → Option ℕ
  inFlight : List SessionKey
  locked : ℕ → Bool
  refused : ℕ → Option SessionKey
  schedules : SessionKey → Option Schedule
  abandoned : SessionKey → List ℕ

/-- `giveUp` and `fail` are exceptions and crashes, of a submit that has stored its notification
and of a run. -/
inductive Act where
  | sequence (a : SequenceRepo.Act)
  | commit (c now : ℕ) (returned : Bool)
  | invoke (c : ℕ)
  | giveUp (c : ℕ)
  | createContext (key : SessionKey)
  | deleteContext (key : SessionKey)
  | receive (i j : ℕ) (settings : Settings)
  | receiveNone (i : ℕ) (deletesContext : Bool)
  | tryLock (j : ℕ) (acquired : Bool)
  | schedule (j : ℕ)
  | fire (key : SessionKey)
  | expire (key : SessionKey)
  | fetch (j : ℕ) (upTo : Option ℕ)
  | deliver (j : ℕ)
  | setSent (j : ℕ)
  | finish (j : ℕ)
  | fail (j : ℕ)

namespace State

def abandon (s : State) (key : SessionKey) (numbers : List ℕ) : State :=
  { s with abandoned := Function.update s.abandoned key (numbers ++ s.abandoned key) }

/-- The session is left with what it has stored. -/
def abandonStored (s : State) (key : SessionKey) : State :=
  s.abandon key ((s.base.tables.notifications key).rows.map (·.seqNo))

/-- The session is left with what it has stored after a number. -/
def abandonAfter (s : State) (key : SessionKey) (last : ℕ) : State :=
  s.abandon key (((s.base.tables.notifications key).rows.map (·.seqNo)).filter (last < ·))

end State

/-- The session a run is at. -/
def notifierKey : Notifier → Option SessionKey
  | .idle => none
  | .loaded key _ | .reading key _ _ | .delivered key _ _ _ => some key

/-- A page that has no unsent row ends the run, also where a key to go on from comes with it:
`has_next` does not ask for the next page, and what is stored there is left. -/
def State.fetchPage (s : State) (j : ℕ) (key : SessionKey) (startAfter upTo : Option ℕ) :
    Option State :=
  (PushNotifications.fetch s.base j key startAfter upTo).map fun base =>
    match base.notifiers j, upTo with
    | .idle, some last => { s with base := base }.abandonAfter key last
    | _, _ => { s with base := base }

section

variable (submits : ℕ → Submit) (expirationSeconds : ℕ)

/-- A step of the submits and runs themselves. -/
def baseStep (s : State) (a : PushNotifications.Act) : Option State :=
  (PushNotifications.step submits expirationSeconds s.base a).map fun base =>
    { s with base := base }

def step (s : State) : Act → Option State
  | .sequence a =>
    (baseStep submits expirationSeconds s (.sequence a)).map fun t =>
      match a with
      | .release c =>
        match t.base.sequence.calls c, s.toInvoke c with
        -- The release raises, and `submit` with it.
        | .raised _, some number =>
          { t with toInvoke := Function.update s.toInvoke c none }.abandon
            (submits c).sessionKey [number]
        | _, _ => t
      | _ => t
  | .commit c now returned =>
    match s.base.sequence.calls c with
    | .running held =>
      (baseStep submits expirationSeconds s (.commit c now returned)).map fun t =>
        match submitTransaction (submits c) held.nextValue now expirationSeconds s.base.tables with
        | .ok _ =>
          if returned then
            { t with toInvoke := Function.update s.toInvoke c (some held.nextValue) }
          else t.abandon (submits c).sessionKey [held.nextValue]
        | .error _ => t
    | _ => none
  | .invoke c =>
    match s.base.sequence.calls c, s.toInvoke c with
    | .returned _, some _ => some { s with
        toInvoke := Function.update s.toInvoke c none
        inFlight := (submits c).sessionKey :: s.inFlight }
    | _, _ => none
  | .giveUp c =>
    (s.toInvoke c).map fun number =>
      { s with toInvoke := Function.update s.toInvoke c none }.abandon
        (submits c).sessionKey [number]
  | .createContext key => baseStep submits expirationSeconds s (.createContext key)
  | .deleteContext key => baseStep submits expirationSeconds s (.deleteContext key)
  | .receive i j settings =>
    match s.inFlight[i]?, s.refused j with
    | some key, none =>
      (baseStep submits expirationSeconds s (.load j key settings)).map fun t =>
        { t with inFlight := s.inFlight.eraseIdx i, locked := Function.update s.locked j false }
    | _, _ => none
  -- There is no context, or no token, and then the context is deleted.
  | .receiveNone i deletesContext =>
    (s.inFlight[i]?).bind fun key =>
      let s := { s.abandonStored key with inFlight := s.inFlight.eraseIdx i }
      if deletesContext then baseStep submits expirationSeconds s (.deleteContext key) else some s
  | .tryLock j acquired =>
    match s.base.notifiers j, s.locked j with
    | .loaded key _, false =>
      if acquired then some { s with locked := Function.update s.locked j true }
      else some { s with
        base := s.base.setNotifier j .idle
        refused := Function.update s.refused j (some key) }
    | _, _ => none
  | .schedule j =>
    (s.refused j).map fun key =>
      let t := { s with refused := Function.update s.refused j none }
      match s.schedules key with
      | none => { t with schedules := Function.update s.schedules key (some .pending) }
      | some .pending => t
      -- The name is taken by a schedule that will not invoke the notifier any more.
      | some .fired => t.abandonStored key
  | .fire key =>
    if s.schedules key = some .pending then
      some { s with
        schedules := Function.update s.schedules key (some .fired)
        inFlight := key :: s.inFlight }
    else none
  | .expire key =>
    if s.schedules key = some .fired then
      some { s with schedules := Function.update s.schedules key none }
    else none
  | .fetch j upTo =>
    if s.locked j then
      match s.base.notifiers j with
      | .loaded key settings => s.fetchPage j key settings.lastSeqNo upTo
      | .reading key [] (some nextKey) => s.fetchPage j key (some nextKey) upTo
      | _ => none
    else none
  | .deliver j => baseStep submits expirationSeconds s (.deliver j)
  | .setSent j => baseStep submits expirationSeconds s (.setSent j)
  | .finish j =>
    match s.base.notifiers j with
    | .reading _ [] none => some { s with base := s.base.setNotifier j .idle }
    | _ => none
  | .fail j =>
    match notifierKey (s.base.notifiers j), s.refused j with
    | some key, _ => some ({ s with base := s.base.setNotifier j .idle }.abandonStored key)
    | none, some key =>
      some ({ s with refused := Function.update s.refused j none }.abandonStored key)
    | none, none => none

end

/-- Nothing is stored, in flight or scheduled. -/
def initial (clock : ℕ) (sequences : Table SequenceRepo.SeqKey SequenceRepo.Sequence) : State where
  base := PushNotifications.initial clock sequences
  toInvoke := fun _ => none
  inFlight := []
  locked := fun _ => false
  refused := fun _ => none
  schedules := fun _ => none
  abandoned := fun _ => []

end ShimService.PushNotifications.Wakeups
