import Mathlib.Data.Nat.Basic

/-!
`DynamoDb.query` with its `ResultSet`, and `AbstractAwsRepo.query` over it.
`rows` are the rows a query matches, in key order, and a key stands for the number of them that
it and the keys before it cover.
-/
namespace ShimService.Paging

inductive Exc where
  | typeError
  | indexError
  | noMore
  | outOfFuel
  deriving DecidableEq, Repr

/-- How the service cuts one page: at most `count` rows, and with a `LastEvaluatedKey` even where
no row is left if `more`. -/
structure Cut where
  count : ℕ
  more : Bool
  deriving DecidableEq, Repr

/-- The cut of a service that fills its pages. -/
def Cut.full (limit : ℕ) : Cut := ⟨limit, false⟩

variable {ρ : Type*}

structure Response (ρ : Type*) where
  items : List ρ
  lastEvaluatedKey : Option ℕ
  count : ℕ

/-- The keyword arguments of `query` that vary between requests. -/
structure Props where
  exclusiveStartKey : Option ℕ
  limit : Option ℕ
  deriving DecidableEq, Repr

/-- The service's answer to one request. Rows that are left always come with a key. -/
def respond (rows : List ρ) (props : Props) (cut : Cut) : Response ρ :=
  let start := props.exclusiveStartKey.getD 0
  let left := rows.drop start
  let items := left.take (match props.limit with
    | none => cut.count
    | some limit => min cut.count limit)
  { items := items
    lastEvaluatedKey :=
      if cut.more || items.length < left.length then some (start + items.length) else none
    count := items.length }

/-- One request. Past the end of `cuts` the service fills its pages. -/
def clientQuery (rows : List ρ) (props : Props) : List Cut → Response ρ × List Cut
  | [] => (respond rows props (.full (props.limit.getD rows.length)), [])
  | cut :: cuts => (respond rows props cut, cuts)

/-- What `query_function` closes over, and the cuts to come. -/
structure Closure where
  limit : Option ℕ
  props : Props
  cuts : List Cut
  deriving DecidableEq, Repr

/-- `query_function` over any way the service answers a request; `none` is its `StopIteration`. -/
def queryFunctionWith (client : Props → List Cut → Response ρ × List Cut) (nextKey : Option ℕ)
    (c : Closure) : Except Exc (Option (Response ρ × Closure)) :=
  if c.limit = some 0 then .ok none
  else
    let props := { c.props with limit := c.limit <|> c.props.limit }
    let ask (request : Props) :=
      let (response, cuts) := client request c.cuts
      .ok (some (response, ⟨c.limit.map (· - response.items.length), props, cuts⟩))
    match nextKey with
    | none => ask props
    | some key =>
      -- `query(ExclusiveStartKey=next_key, **props)`
      if props.exclusiveStartKey.isSome then .error .typeError
      else ask { props with exclusiveStartKey := some key }

def queryFunction (rows : List ρ) :
    Option ℕ → Closure → Except Exc (Option (Response ρ × Closure)) :=
  queryFunctionWith (clientQuery rows)

structure ResultSet (ρ : Type*) where
  closure : Closure
  nextKey : Option ℕ := none
  items : Option (List ρ) := none
  counter : ℕ := 0
  done : Bool := false
  countReturned : Option ℕ := none

namespace ResultSet

section

variable (query : Option ℕ → Closure → Except Exc (Option (Response ρ × Closure)))

/-- `has_next` where the items read so far are used up. -/
def fetch (r : ResultSet ρ) : Except Exc (Bool × ResultSet ρ) := do
  match ← query r.nextKey r.closure with
  | none => return (false, { r with done := true })
  | some (response, closure) =>
    let r := { r with
      closure := closure
      items := some response.items
      nextKey := response.lastEvaluatedKey
      countReturned := some response.count }
    if response.items.length = 0 ∧ response.lastEvaluatedKey = none then
      return (false, { r with done := true })
    else if response.items.length > 0 ∨ response.count > 0 then
      return (true, { r with counter := 0 })
    else return (false, { r with done := true })

def hasNext (r : ResultSet ρ) : Except Exc (Bool × ResultSet ρ) :=
  if r.done then .ok (false, r)
  else
    match r.items with
    | none => r.fetch query
    | some items =>
      if r.counter = items.length then
        if r.nextKey.isSome then r.fetch query else .ok (false, { r with done := true })
      else .ok (true, r)

def next (r : ResultSet ρ) : Except Exc (ρ × ResultSet ρ) := do
  let (more, r) ← r.hasNext query
  if !more then throw .noMore
  match r.items.bind (·[r.counter]?) with
  | none => throw .indexError
  | some item => return (item, { r with counter := r.counter + 1 })

/-- `__next__`; `none` is its `StopIteration`. -/
def iterNext (r : ResultSet ρ) : Except Exc (Option ρ × ResultSet ρ) := do
  let (more, r) ← r.hasNext query
  if !more then return (none, r)
  let (item, r) ← r.next query
  return (some item, r)

/-- `list` of the result set. -/
def toList : ℕ → ResultSet ρ → Except Exc (List ρ × ResultSet ρ)
  | 0, _ => .error .outOfFuel
  | fuel + 1, r => do
    match ← r.iterNext query with
    | (none, r) => return ([], r)
    | (some item, r) =>
      let (items, r) ← toList fuel r
      return (item :: items, r)

variable {query} {r r' : ResultSet ρ} {items : List ρ} {fuel : ℕ}

/-- The items read so far are used up, and the service has not said that there are no more. -/
def Spent (r : ResultSet ρ) : Prop :=
  r.done = false ∧ (r.items = none ∨
    ∃ items, r.items = some items ∧ r.counter = items.length ∧ r.nextKey.isSome)

/-- `items` have been read, and the first `counter` of them are used up. -/
structure Reading (r : ResultSet ρ) (items : List ρ) : Prop where
  more : r.done = false
  items : r.items = some items

theorem hasNext_spent (h : r.Spent) : r.hasNext query = r.fetch query := by
  obtain ⟨hdone, hitems | ⟨items, hitems, hcounter, hkey⟩⟩ := h
  · simp [hasNext, hdone, hitems]
  · simp [hasNext, hdone, hitems, hcounter, hkey]

theorem hasNext_reading (h : r.Reading items) (hlt : r.counter < items.length) :
    r.hasNext query = .ok (true, r) := by
  simp [hasNext, h.more, h.items, Nat.ne_of_lt hlt]

theorem iterNext_eq (h : r.hasNext query = .ok (true, r'))
    (h' : r'.hasNext query = .ok (true, r')) :
    r.iterNext query = r'.iterNext query := by
  simp only [iterNext, h, h']

theorem toList_eq (h : r.hasNext query = .ok (true, r'))
    (h' : r'.hasNext query = .ok (true, r')) :
    r.toList query (fuel + 1) = r'.toList query (fuel + 1) := by
  simp only [toList, iterNext_eq h h']

theorem toList_stop (h : r.hasNext query = .ok (false, r')) :
    r.toList query (fuel + 1) = .ok ([], r') := by
  simp [toList, iterNext, h, bind, Except.bind, pure, Except.pure]

theorem toList_error {e : Exc} (h : r.hasNext query = .error e) :
    r.toList query (fuel + 1) = .error e := by
  simp [toList, iterNext, h, bind, Except.bind]

theorem iterNext_reading (h : r.Reading items) (hlt : r.counter < items.length) :
    r.iterNext query = .ok (some items[r.counter], { r with counter := r.counter + 1 }) := by
  simp [iterNext, next, hasNext_reading h hlt, h.items, hlt, bind, Except.bind, pure,
    Except.pure]

/-- The rest of the items read come first, then whatever follows them. -/
theorem toList_reading (h : r.Reading items) (hle : r.counter ≤ items.length) :
    r.toList query (items.length - r.counter + fuel) =
      (({ r with counter := items.length }).toList query fuel).map
        fun (rest, r') => (items.drop r.counter ++ rest, r') := by
  generalize hn : items.length - r.counter = n
  induction n generalizing r with
  | zero =>
    have hcounter : r.counter = items.length := by omega
    rw [hcounter, List.drop_length, ← hcounter, Nat.zero_add]
    cases r.toList query fuel <;> simp [Except.map]
  | succ n ih =>
    have hlt : r.counter < items.length := by omega
    have hrest := @ih { r with counter := r.counter + 1 } ⟨h.more, h.items⟩ hlt (by simp; omega)
    rw [Nat.succ_add, toList, iterNext_reading h hlt]
    simp only [bind, Except.bind, pure, Except.pure, hrest]
    cases ({ r with counter := items.length } : ResultSet ρ).toList query fuel with
    | error e => rfl
    | ok result =>
      simp only [Except.map]
      rw [← List.cons_append, List.getElem_cons_drop]

/-- The result set once it has read a page. -/
def after (r : ResultSet ρ) (response : Response ρ) (closure : Closure) : ResultSet ρ :=
  { r with
    closure := closure
    items := some response.items
    nextKey := response.lastEvaluatedKey
    countReturned := some response.count }

/-- The result set once the items of that page are used up. -/
def used (r : ResultSet ρ) (response : Response ρ) (closure : Closure) : ResultSet ρ :=
  { r.after response closure with counter := response.items.length }

section

variable {response : Response ρ} {closure : Closure}

theorem fetch_empty (hquery : query r.nextKey r.closure = .ok (some (response, closure)))
    (hcount : response.count = response.items.length) (hitems : response.items = []) :
    r.fetch query = .ok (false, { r.after response closure with done := true }) := by
  simp only [fetch, hquery, bind, Except.bind, pure, Except.pure]
  simp [after, hcount, hitems]

theorem fetch_items (hquery : query r.nextKey r.closure = .ok (some (response, closure)))
    (hitems : response.items ≠ []) :
    r.fetch query = .ok (true, { r.after response closure with counter := 0 }) := by
  have hpos : 0 < response.items.length := List.length_pos_iff.mpr hitems
  simp only [fetch, hquery, bind, Except.bind, pure, Except.pure]
  simp [after, hitems, hpos]

theorem toList_empty (hr : r.Spent)
    (hquery : query r.nextKey r.closure = .ok (some (response, closure)))
    (hcount : response.count = response.items.length) (hitems : response.items = []) :
    r.toList query (fuel + 1) = .ok ([], { r.after response closure with done := true }) :=
  toList_stop ((hasNext_spent hr).trans (fetch_empty hquery hcount hitems))

theorem toList_page (hr : r.Spent)
    (hquery : query r.nextKey r.closure = .ok (some (response, closure)))
    (hitems : response.items ≠ []) :
    r.toList query (response.items.length + fuel) =
      ((r.used response closure).toList query fuel).map
        fun (rest, r') => (response.items ++ rest, r') := by
  have hfetch := fetch_items hquery hitems
  have hreading : ({ r.after response closure with counter := 0 }).Reading response.items :=
    ⟨hr.1, rfl⟩
  have hpos : 0 < response.items.length := List.length_pos_iff.mpr hitems
  obtain ⟨n, hn⟩ : ∃ n, response.items.length + fuel = n + 1 :=
    ⟨response.items.length + fuel - 1, by omega⟩
  rw [hn, toList_eq ((hasNext_spent hr).trans hfetch) (hasNext_reading hreading hpos),
    ← hn]
  exact toList_reading hreading (Nat.zero_le _)

/-- The end of a page that came without a key. -/
theorem toList_last (hdone : r.done = false) (hitems : r.items = some items)
    (hcounter : r.counter = items.length) (hkey : r.nextKey = none) :
    r.toList query (fuel + 1) = .ok ([], { r with done := true }) :=
  toList_stop (by simp [hasNext, hdone, hitems, hcounter, hkey])

end

end

end ResultSet

/-- `DynamoDb.query`. -/
def ddbQuery (limit : Option ℕ) (lastEvaluatedKey : Option ℕ) (cuts : List Cut) : ResultSet ρ where
  closure := ⟨limit, ⟨lastEvaluatedKey, none⟩, cuts⟩

structure QueryResult (ρ : Type*) where
  rows : List ρ
  nextToken : Option ℕ
  deriving DecidableEq, Repr

/-- `AbstractAwsRepo.query`; a query of all of `rows` ends within the fuel given here. -/
def query (rows : List ρ) (limit : Option ℕ) (lastEvaluatedKey : Option ℕ) (cuts : List Cut) :
    Except Exc (QueryResult ρ × List Cut) := do
  let resultSet := ddbQuery limit lastEvaluatedKey cuts
  let (items, r) ← resultSet.toList (queryFunction rows) (rows.length + 1)
  return (⟨items, r.nextKey⟩, r.closure.cuts)

/-- A query for each token returned, until none is. -/
def queryAll (rows : List ρ) (limit : ℕ) :
    ℕ → Option ℕ → List Cut → Except Exc (List (QueryResult ρ))
  | 0, _, _ => .error .outOfFuel
  | fuel + 1, lastEvaluatedKey, cuts => do
    let (result, cuts) ← query rows (some limit) lastEvaluatedKey cuts
    match result.nextToken with
    | none => return [result]
    | some token => return result :: (← queryAll rows limit fuel (some token) cuts)

end ShimService.Paging
