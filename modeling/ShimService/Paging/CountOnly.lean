import Mathlib.Data.List.Count
import ShimService.Paging.ResultSet
import ShimService.Session.Session

/-!
A query with `Select` COUNT through the same `ResultSet`, and the function that asks whether a
tenant has sessions with a channel. A filter applies after the service has cut its page, and the
answer has no items.
-/
namespace ShimService.Paging

variable {ρ : Type*}

/-- The service's answer to one counting request. -/
def respondCount (filter : ρ → Bool) (rows : List ρ) (props : Props) (cut : Cut) : Response ρ :=
  let page := respond rows props cut
  { items := [], lastEvaluatedKey := page.lastEvaluatedKey, count := page.items.countP filter }

def countClientQuery (filter : ρ → Bool) (rows : List ρ) (props : Props) :
    List Cut → Response ρ × List Cut
  | [] => (respondCount filter rows props (.full (props.limit.getD rows.length)), [])
  | cut :: cuts => (respondCount filter rows props cut, cuts)

/-- A row of the session table with its key. -/
abbrev SessionRow := SessionKey × SessionItem

/-- `status_filter` and `channel_filter`. -/
def channelFilter (channelType : String) (row : SessionRow) : Bool :=
  row.2.sessionStatus = some .active && row.2.platformChannels channelType

/-- The rows under the tenant's hash key. -/
def tenantRows (sessions : List SessionRow) (tenantId : ℕ) : List SessionRow :=
  sessions.filter (·.1.tenantId = tenantId)

def hasSessionsWithPlatformChannelType (sessions : List SessionRow) (tenantId : ℕ)
    (channelType : String) (cuts : List Cut) : Except Exc Bool := do
  let client := countClientQuery (channelFilter channelType) (tenantRows sessions tenantId)
  -- The body of the `for` ends it after one step.
  let (_, r) ← (ddbQuery none none cuts).iterNext (queryFunctionWith client)
  match r.countReturned with
  | some count => return 0 < count
  | none => throw .typeError

/-- The service's answer to the first request. -/
def firstPage (sessions : List SessionRow) (tenantId : ℕ) (channelType : String)
    (cuts : List Cut) : Response SessionRow :=
  (countClientQuery (channelFilter channelType) (tenantRows sessions tenantId) ⟨none, none⟩ cuts).1

/-- What comes of a first page with this count: `none` is an exception, which the second
`has_next` of a step leads to where more pages follow. -/
def firstPageAnswer (count : ℕ) (more : Bool) : Option Bool :=
  if more && 0 < count then none else some (0 < count)

section

variable {sessions : List SessionRow} {tenantId : ℕ} {channelType : String} {cuts : List Cut}
  {client : Props → List Cut → Response ρ × List Cut} {response : Response ρ} {r r' : ResultSet ρ}
  {more : Bool}

/-- Every answer of a counting query is without items. -/
def CountsOnly (client : Props → List Cut → Response ρ × List Cut) : Prop :=
  ∀ props cuts, (client props cuts).1.items = []

theorem countsOnly_client (filter : ρ → Bool) (rows : List ρ) :
    CountsOnly (countClientQuery filter rows) := by
  intro props cuts
  cases cuts <;> rfl

/-- A set of a query without a limit or a start key, before any fetch or after one. -/
def Unlimited (r : ResultSet ρ) : Prop :=
  r.closure.limit = none ∧ r.closure.props = ⟨none, none⟩

/-- A fetch of a counting query: there is more to come where it has a key and counts a row. -/
theorem fetch_count (hclient : CountsOnly client) (hr : Unlimited r)
    (hresponse : (client ⟨r.nextKey, none⟩ r.closure.cuts).1 = response) :
    ∃ r', r.fetch (queryFunctionWith client) =
        .ok (response.lastEvaluatedKey.isSome && 0 < response.count, r') ∧
      r'.items = some [] ∧ r'.nextKey = response.lastEvaluatedKey ∧
      r'.countReturned = some response.count ∧ Unlimited r' ∧
      (response.lastEvaluatedKey.isSome = true → 0 < response.count →
        r'.done = r.done ∧ r'.counter = 0) := by
  obtain ⟨⟨limit, props, cuts⟩, nextKey, items, counter, done, countReturned⟩ := r
  obtain ⟨rfl, rfl⟩ := hr
  have hitems : response.items = [] := hresponse ▸ hclient _ _
  have hquery : queryFunctionWith client nextKey ⟨none, ⟨none, none⟩, cuts⟩ =
      .ok (some (response, ⟨none, ⟨none, none⟩, (client ⟨nextKey, none⟩ cuts).2⟩)) := by
    subst hresponse
    cases nextKey <;> rfl
  simp only [ResultSet.fetch, hquery, bind, Except.bind, hitems, List.length_nil, true_and,
    Nat.lt_irrefl, gt_iff_lt, false_or, pure, Except.pure]
  cases response.lastEvaluatedKey with
  | none => exact ⟨_, rfl, rfl, rfl, rfl, ⟨rfl, rfl⟩, fun hmore => by cases hmore⟩
  | some key =>
    by_cases hcount : 0 < response.count
    · simp only [reduceCtorEq, if_false, hcount, if_true]
      exact ⟨_, rfl, rfl, rfl, rfl, ⟨rfl, rfl⟩, fun _ _ => ⟨rfl, rfl⟩⟩
    · simp only [reduceCtorEq, if_false, hcount]
      exact ⟨_, rfl, rfl, rfl, rfl, ⟨rfl, rfl⟩, fun _ hpos => hpos.elim⟩

/-- There is no item to take, whether or not there is said to be a next one. -/
theorem next_error {query : Option ℕ → Closure → Except Exc (Option (Response ρ × Closure))}
    (h : r.hasNext query = .ok (more, r')) (hitems : r'.items = some []) :
    ∃ e, r.next query = .error e := by
  cases more with
  | false => exact ⟨.noMore, by simp [ResultSet.next, h, bind, Except.bind]; rfl⟩
  | true => exact ⟨.indexError, by simp [ResultSet.next, h, hitems, bind, Except.bind]; rfl⟩

/-- The first step over a counting query, by its first page. -/
theorem iterNext_count (hclient : CountsOnly client)
    (hresponse : (client ⟨none, none⟩ cuts).1 = response) :
    (∃ e, (ddbQuery none none cuts).iterNext (queryFunctionWith client) = .error e) ∧
        (response.lastEvaluatedKey.isSome && 0 < response.count) = true ∨
      (∃ r, (ddbQuery none none cuts).iterNext (queryFunctionWith client) = .ok (none, r) ∧
        r.countReturned = some response.count) ∧
        (response.lastEvaluatedKey.isSome && 0 < response.count) = false := by
  obtain ⟨r, hfetch, hitems, hkey, hcount, hr, hmore⟩ :=
    fetch_count (r := ddbQuery none none cuts) hclient ⟨rfl, rfl⟩ hresponse
  have hnext : (ddbQuery none none cuts).hasNext (queryFunctionWith client) =
      .ok (response.lastEvaluatedKey.isSome && 0 < response.count, r) := hfetch
  cases hb : response.lastEvaluatedKey.isSome && decide (0 < response.count) with
  | false =>
    refine .inr ⟨⟨r, ?_, hcount⟩, rfl⟩
    simp [ResultSet.iterNext, hnext, hb, bind, Except.bind, pure, Except.pure]
  | true =>
    obtain ⟨hsome, hpos⟩ := Bool.and_eq_true_iff.mp hb
    obtain ⟨hdone, hcounter⟩ := hmore hsome (of_decide_eq_true hpos)
    obtain ⟨r', hfetch', hitems', _⟩ := fetch_count hclient hr rfl
    -- The items are used up at once, so the second `has_next` asks for the next page.
    have hagain : r.hasNext (queryFunctionWith client) =
        r.fetch (queryFunctionWith client) := by
      have hdone : r.done = false := hdone
      simp [ResultSet.hasNext, hdone, hitems, hcounter, hkey, hsome]
    obtain ⟨e, he⟩ := next_error (hagain.trans hfetch') hitems'
    refine .inl ⟨⟨e, ?_⟩, rfl⟩
    simp [ResultSet.iterNext, hnext, hb, he, bind, Except.bind]

theorem hasSessions_eq :
    (hasSessionsWithPlatformChannelType sessions tenantId channelType cuts).toOption =
      firstPageAnswer (firstPage sessions tenantId channelType cuts).count
        (firstPage sessions tenantId channelType cuts).lastEvaluatedKey.isSome := by
  have hpage : (countClientQuery (channelFilter channelType) (tenantRows sessions tenantId)
      ⟨none, none⟩ cuts).1 = firstPage sessions tenantId channelType cuts := rfl
  unfold hasSessionsWithPlatformChannelType firstPageAnswer
  rcases iterNext_count (countsOnly_client _ _) hpage with
    ⟨⟨e, he⟩, hb⟩ | ⟨⟨r, hr, hcount⟩, hb⟩
  · rw [if_pos hb]
    simp only [bind, Except.bind, he]
    rfl
  · rw [if_neg (by simp [hb])]
    simp only [bind, Except.bind, hr, hcount]
    rfl

/-- Some session of the tenant is ACTIVE with the channel. -/
def HasChannelSession (sessions : List SessionRow) (tenantId : ℕ) (channelType : String) : Prop :=
  ∃ key item, (key, item) ∈ sessions ∧ key.tenantId = tenantId ∧
    item.sessionStatus = some .active ∧ item.platformChannels channelType = true

theorem hasChannelSession_iff : HasChannelSession sessions tenantId channelType ↔
    0 < (tenantRows sessions tenantId).countP (channelFilter channelType) := by
  simp only [HasChannelSession, List.countP_pos_iff, tenantRows, List.mem_filter, channelFilter,
    Prod.exists, decide_eq_true_eq, Bool.and_eq_true]
  grind

/-- A first page with no key after it counts all the tenant's rows, and any first page counts
some of them. -/
theorem firstPage_count (sessions : List SessionRow) (tenantId : ℕ) (channelType : String)
    (cuts : List Cut) :
    ((firstPage sessions tenantId channelType cuts).lastEvaluatedKey = none →
      (firstPage sessions tenantId channelType cuts).count =
        (tenantRows sessions tenantId).countP (channelFilter channelType)) ∧
    (firstPage sessions tenantId channelType cuts).count ≤
      (tenantRows sessions tenantId).countP (channelFilter channelType) := by
  have hpage : ∀ cut,
      ((respondCount (channelFilter channelType) (tenantRows sessions tenantId) ⟨none, none⟩
        cut).lastEvaluatedKey = none → (respondCount (channelFilter channelType)
          (tenantRows sessions tenantId) ⟨none, none⟩ cut).count =
            (tenantRows sessions tenantId).countP (channelFilter channelType)) ∧
      (respondCount (channelFilter channelType) (tenantRows sessions tenantId) ⟨none, none⟩
        cut).count ≤ (tenantRows sessions tenantId).countP (channelFilter channelType) := by
    intro cut
    generalize tenantRows sessions tenantId = rows
    refine ⟨fun hkey => ?_, ?_⟩
    · simp only [respondCount, respond, Option.getD_none, List.drop_zero] at hkey ⊢
      split at hkey
      · cases hkey
      · rename_i hlast
        simp only [Bool.or_eq_true, decide_eq_true_eq, not_or, List.length_take] at hlast
        rw [List.take_of_length_le (by omega)]
    · simp only [respondCount, respond, Option.getD_none, List.drop_zero]
      exact (List.take_sublist _ _).countP_le
  cases cuts <;> exact hpage _

/-- Returns normally, and the answer says whether the tenant has such a session. -/
def Answers (result : Except Exc Bool) (has : Prop) : Prop :=
  ∃ answer, result = .ok answer ∧ (answer = true ↔ has)

theorem answers_iff {result : Except Exc Bool} {has : Prop} :
    Answers result has ↔ ∃ answer, result.toOption = some answer ∧ (answer = true ↔ has) := by
  cases result <;> simp [Answers, Except.toOption]

/-- The answer is right where the first page is the only one, and where the tenant has no such
session at all. -/
theorem has_sessions_iff_one_page_or_none :
    Answers (hasSessionsWithPlatformChannelType sessions tenantId channelType cuts)
        (HasChannelSession sessions tenantId channelType) ↔
      (firstPage sessions tenantId channelType cuts).lastEvaluatedKey = none ∨
        ¬ HasChannelSession sessions tenantId channelType := by
  obtain ⟨hall, hsome⟩ := firstPage_count sessions tenantId channelType cuts
  rw [answers_iff, hasSessions_eq, hasChannelSession_iff]
  unfold firstPageAnswer
  cases hkey : (firstPage sessions tenantId channelType cuts).lastEvaluatedKey with
  | none => simp [hall hkey]
  | some key =>
    simp only [Option.isSome_some, Bool.true_and]
    split
    · rename_i hpos
      have hmatch := Nat.lt_of_lt_of_le (of_decide_eq_true hpos) hsome
      simpa using hmatch
    · rename_i hzero
      simp only [hzero, Option.some.injEq, exists_eq_left', Bool.false_eq_true, false_iff,
        reduceCtorEq, false_or]

end

/-- A row of tenant 1 whose session is ACTIVE with the omni channel. -/
def activeRow (sessionId : String) : SessionRow :=
  (⟨1, sessionId⟩,
    { (sampleSession sessionId).toRecord with sessionStatus := some .active })

def pendingRow (sessionId : String) : SessionRow :=
  (⟨1, sessionId⟩, (sampleSession sessionId).toRecord)

/-- The match on the first page ends in an exception. -/
example : (hasSessionsWithPlatformChannelType [activeRow "a", activeRow "b"] 1 "omni"
    [⟨1, false⟩]).toOption = none := rfl

/-- The first page matches nothing, and the ACTIVE session on the second is not seen. -/
theorem session_on_second_page_missed : ¬ ∀ (sessions : List SessionRow) (tenantId : ℕ)
    (channelType : String) (cuts : List Cut),
    Answers (hasSessionsWithPlatformChannelType sessions tenantId channelType cuts)
      (HasChannelSession sessions tenantId channelType) := by
  intro h
  rcases has_sessions_iff_one_page_or_none.mp
    (h [pendingRow "a", activeRow "b"] 1 "omni" [⟨1, false⟩]) with hkey | hnone
  · cases hkey
  · exact hnone ⟨⟨1, "b"⟩, (activeRow "b").2, List.mem_cons_of_mem _ List.mem_cons_self, rfl, rfl,
      rfl⟩

end ShimService.Paging
