import ShimService.Paging.ResultSet

/-! Which ways of cutting the rows into pages let resumed queries read every row once. -/
namespace ShimService.Paging

variable {ρ : Type*} {rows : List ρ} {limit left start total fuel : ℕ} {cut : Cut}
  {cuts : List Cut}

/-- Every row is returned once and in order, at most `limit` in each result, and nothing raises. -/
def ReadsOnce (rows : List ρ) (limit : ℕ) (cuts : List Cut) : Prop :=
  ∃ fuel results, queryAll rows limit fuel none cuts = .ok results ∧
    (∀ result ∈ results, result.rows.length ≤ limit) ∧ results.flatMap QueryResult.rows = rows

/-- The rows of a page that may take `limit` of the `left` rows. -/
def Cut.taken (cut : Cut) (limit left : ℕ) : ℕ := min (min cut.count limit) left

/-- The page comes without a `LastEvaluatedKey`. -/
def Cut.last (cut : Cut) (limit left : ℕ) : Bool := !cut.more && left ≤ cut.taken limit left

/-- The pages up to the last one, each the first of a resumed query, are empty or full. -/
def wholePages (limit : ℕ) : ℕ → List Cut → Bool
  | _, [] => true
  | left, cut :: cuts =>
    let taken := cut.taken limit left
    cut.last limit left || (taken = 0 || taken = limit) && wholePages limit (left - taken) cuts

/-- The same of the pages after those of the first query, which may still take `allowed` rows. -/
def resumesWhole (limit : ℕ) : ℕ → ℕ → List Cut → Bool
  | _, _, [] => true
  | allowed, left, cut :: cuts =>
    let taken := cut.taken allowed left
    cut.last allowed left ||
      if taken = 0 || taken = allowed then wholePages limit (left - taken) cuts
      else resumesWhole limit (allowed - taken) (left - taken) cuts

theorem respond_items :
    (respond rows ⟨some start, some limit⟩ cut).items =
      (rows.drop start).take (cut.taken limit (rows.length - start)) := by
  simp only [respond, Option.getD_some, Cut.taken]
  rw [← List.length_drop, List.take_eq_take_min]

theorem respond_length (rows : List ρ) (start limit : ℕ) (cut : Cut) :
    (respond rows ⟨some start, some limit⟩ cut).items.length =
      cut.taken limit (rows.length - start) := by
  rw [respond_items, List.length_take, List.length_drop, Cut.taken]
  omega

theorem respond_key (rows : List ρ) (start limit : ℕ) (cut : Cut) :
    (respond rows ⟨some start, some limit⟩ cut).lastEvaluatedKey =
      if cut.last limit (rows.length - start) then none
      else some (start + cut.taken limit (rows.length - start)) := by
  have hlen := respond_length rows start limit cut
  simp only [respond, Option.getD_some, List.length_drop] at hlen ⊢
  rw [hlen, Cut.last]
  cases cut.more <;> grind

namespace ResultSet

variable {r : ResultSet ρ} {response : Response ρ}

/-- The result set once it has read a page that it had allowed `left` rows. -/
def received (r : ResultSet ρ) (response : Response ρ) (left : ℕ) (cuts : List Cut) :
    ResultSet ρ :=
  { r with
    closure :=
      ⟨some (left - response.items.length), { r.closure.props with limit := some left }, cuts⟩
    items := some response.items
    nextKey := response.lastEvaluatedKey
    countReturned := some response.count }

/-- The request of a result set that may make one. -/
structure Asks (r : ResultSet ρ) (left start : ℕ) (cuts : List Cut) : Prop where
  limit : r.closure.limit = some (left + 1)
  cuts : r.closure.cuts = cuts
  once : r.nextKey = none ∨ r.closure.props.exclusiveStartKey = none
  start : (r.nextKey.or r.closure.props.exclusiveStartKey).getD 0 = start

theorem queryFunction_asks (h : r.Asks left start cuts)
    (hresponse : response = respond rows ⟨some start, some (left + 1)⟩
      (cuts.headD (.full (left + 1)))) :
    queryFunction rows r.nextKey r.closure =
      .ok (some (response, (r.received response (left + 1) cuts.tail).closure)) := by
  obtain ⟨hlimit, hcuts, honce, hstart⟩ := h
  have hclient : ∀ key, key.getD 0 = start →
      clientQuery rows ⟨key, some (left + 1)⟩ cuts = (response, cuts.tail) := by
    intro key hkey
    have hrespond : ∀ cut, respond rows ⟨key, some (left + 1)⟩ cut =
        respond rows ⟨some start, some (left + 1)⟩ cut := by
      intro cut
      simp [respond, hkey]
    cases cuts <;> simp [clientQuery, hrespond, hresponse]
  cases hkey : r.nextKey with
  | none =>
    simp only [hkey, Option.none_or] at hstart
    simp [queryFunction, queryFunctionWith, hlimit, hcuts, hclient _ hstart, received]
  | some key =>
    have hprops : r.closure.props.exclusiveStartKey = none := by simpa [hkey] using honce
    simp only [hkey, Option.some_or, Option.getD_some] at hstart
    simp [queryFunction, queryFunctionWith, hlimit, hcuts, hprops, hclient (some key) hstart,
      received]

theorem toList_asked (hr : r.Spent) (h : r.Asks left start cuts)
    (hresponse : response = respond rows ⟨some start, some (left + 1)⟩
      (cuts.headD (.full (left + 1)))) (hitems : response.items ≠ []) :
    r.toList (queryFunction rows) (response.items.length + fuel) =
      (({ r.received response (left + 1) cuts.tail with
        counter := response.items.length }).toList (queryFunction rows) fuel).map
        fun (rest, r') => (response.items ++ rest, r') := by
  exact toList_page hr (queryFunction_asks h hresponse) hitems

/-- The limit is used up. -/
theorem toList_limit (hr : r.Spent) (hlimit : r.closure.limit = some 0) :
    r.toList (queryFunction rows) (fuel + 1) = .ok ([], { r with done := true }) := by
  apply toList_stop
  rw [hasNext_spent hr]
  simp [fetch, queryFunction, queryFunctionWith, hlimit, bind, Except.bind, pure, Except.pure]

/-- The second request of a resumed query. -/
theorem toList_twice (left : ℕ) (hr : r.Spent) (hlimit : r.closure.limit = some (left + 1))
    (hkey : r.nextKey.isSome) (hprops : r.closure.props.exclusiveStartKey.isSome) :
    r.toList (queryFunction rows) (fuel + 1) = .error .typeError := by
  apply toList_error
  obtain ⟨key, hkey⟩ := Option.isSome_iff_exists.mp hkey
  rw [hasNext_spent hr]
  simp [fetch, queryFunction, queryFunctionWith, hlimit, hkey, hprops, bind, Except.bind]

end ResultSet

open ResultSet

variable {r : ResultSet ρ} {response : Response ρ}

/-- A page without a key, an empty page and a page that uses up the limit each end a query. -/
theorem toList_page_ends (hr : r.Spent) (h : r.Asks left start cuts)
    (hcut : cuts.headD (.full (left + 1)) = cut)
    (hend : cut.last (left + 1) (rows.length - start) = true ∨
      cut.taken (left + 1) (rows.length - start) = 0 ∨
      cut.taken (left + 1) (rows.length - start) = left + 1)
    (hfuel : rows.length - start < fuel) :
    ∃ r', r.toList (queryFunction rows) fuel =
        .ok ((rows.drop start).take (cut.taken (left + 1) (rows.length - start)), r') ∧
      r'.nextKey = (if cut.last (left + 1) (rows.length - start) then none
        else some (start + cut.taken (left + 1) (rows.length - start))) ∧
      r'.closure.cuts = cuts.tail := by
  rw [← respond_items, ← respond_key]
  have hlen := respond_length rows start (left + 1) cut
  rw [← hlen] at hend
  have hlast := respond_key rows start (left + 1) cut
  generalize hresponse : respond rows ⟨some start, some (left + 1)⟩ cut = response
    at hlen hend hlast ⊢
  rw [← hcut] at hresponse
  have hshort : response.items.length ≤ rows.length - start := by
    rw [hlen, Cut.taken]
    omega
  obtain ⟨m, rfl⟩ : ∃ m, fuel = response.items.length + (m + 1) :=
    ⟨fuel - response.items.length - 1, by omega⟩
  by_cases hitems : response.items = []
  · refine ⟨{ r.received response (left + 1) cuts.tail with done := true }, ?_, rfl, rfl⟩
    rw [hitems, List.length_nil, Nat.zero_add]
    exact toList_empty hr (queryFunction_asks h hresponse.symm) (by simp [← hresponse, respond])
      hitems
  · have hstop : ({ r.received response (left + 1) cuts.tail with
        counter := response.items.length }).toList (queryFunction rows) (m + 1) =
        .ok ([], { r.received response (left + 1) cuts.tail with
          counter := response.items.length
          done := true }) := by
      by_cases hkey : cut.last (left + 1) (rows.length - start) = true
      · exact toList_last hr.1 rfl rfl (by simp [received, hlast, hkey])
      · have hfull : response.items.length = left + 1 := by
          rcases hend with hend | hend | hend
          · exact absurd hend hkey
          · exact absurd (List.length_eq_zero_iff.mp hend) hitems
          · exact hend
        refine toList_limit ⟨hr.1, .inr ⟨_, rfl, rfl, by simp [received, hlast, hkey]⟩⟩ ?_
        simp [received, hfull]
    refine ⟨{ r.received response (left + 1) cuts.tail with
      counter := response.items.length
      done := true }, ?_, rfl, rfl⟩
    rw [toList_asked hr h hresponse.symm hitems, hstop]
    simp [Except.map]

/-- After any other page a query asks for one more. -/
theorem toList_page_more (fuel : ℕ) (hr : r.Spent) (h : r.Asks left start cuts)
    (hcut : cuts.headD (.full (left + 1)) = cut)
    (hlast : cut.last (left + 1) (rows.length - start) = false)
    (hsome : cut.taken (left + 1) (rows.length - start) ≠ 0) :
    ∃ r' : ResultSet ρ, r'.Spent ∧
      r'.closure = ⟨some (left + 1 - cut.taken (left + 1) (rows.length - start)),
        { r.closure.props with limit := some (left + 1) }, cuts.tail⟩ ∧
      r'.nextKey = some (start + cut.taken (left + 1) (rows.length - start)) ∧
      r.toList (queryFunction rows) (cut.taken (left + 1) (rows.length - start) + fuel) =
        (r'.toList (queryFunction rows) fuel).map fun (rest, r'') =>
          ((rows.drop start).take (cut.taken (left + 1) (rows.length - start)) ++ rest, r'') := by
  have hlen := respond_length rows start (left + 1) cut
  have hkey := respond_key rows start (left + 1) cut
  rw [← respond_items]
  simp only [← hlen] at hsome hkey ⊢
  generalize hresponse : respond rows ⟨some start, some (left + 1)⟩ cut = response
    at hsome hkey ⊢
  rw [← hcut] at hresponse
  have hitems : response.items ≠ [] := fun hnil => hsome (by simp [hnil])
  refine ⟨{ r.received response (left + 1) cuts.tail with counter := response.items.length },
    ⟨hr.1, .inr ⟨_, rfl, rfl, ?_⟩⟩, rfl, ?_, toList_asked hr h hresponse.symm hitems⟩
  · simp [received, hkey, hlast]
  · simp [received, hkey, hlast]

theorem taken_le_left : cut.taken limit left ≤ left := by
  rw [Cut.taken]
  omega

theorem taken_le_limit : cut.taken limit left ≤ limit := by
  rw [Cut.taken]
  omega

theorem taken_of_last (h : cut.last limit left = true) : cut.taken limit left = left := by
  simp only [Cut.last, Bool.and_eq_true, decide_eq_true_eq] at h
  exact le_antisymm taken_le_left h.2

/-- A service that fills its pages sends a full one or the last one. -/
theorem full_ends (limit left : ℕ) : (Cut.full limit).last limit left = true ∨
    (Cut.full limit).taken limit left = limit := by
  by_cases hleft : left ≤ limit
  · simp [Cut.last, Cut.full, Cut.taken, hleft]
  · right
    simp only [Cut.full, Cut.taken]
    omega

/-- How the first query ends, of which `allowed` rows are still to come from `start` on: with no row
left, or with a token, where the pages from here on are as they should be if those after it are. -/
def EndsFirst (rows : List ρ) (limit allowed start : ℕ) (cuts : List Cut)
    (result : Except Exc (List ρ × ResultSet ρ)) : Prop :=
  ∃ n r', result = .ok ((rows.drop start).take n, r') ∧ n ≤ allowed ∧ start + n ≤ rows.length ∧
    ((r'.nextKey = none ∧ start + n = rows.length ∧
      resumesWhole limit allowed (rows.length - start) cuts = true) ∨
    (r'.nextKey = some (start + n) ∧ resumesWhole limit allowed (rows.length - start) cuts =
      wholePages limit (rows.length - (start + n)) r'.closure.cuts))

theorem resumesWhole_page {allowed : ℕ} (limit : ℕ) (hcut : cuts.headD (.full allowed) = cut)
    (hend : cut.last allowed left = true ∨ cut.taken allowed left = 0 ∨
      cut.taken allowed left = allowed) :
    resumesWhole limit allowed left cuts =
      (cut.last allowed left || wholePages limit (left - cut.taken allowed left) cuts.tail) := by
  cases cuts with
  | nil => simp [resumesWhole, wholePages]
  | cons cut' cuts =>
    obtain rfl : cut' = cut := hcut
    rcases hend with hlast | hend
    · simp [resumesWhole, hlast]
    · simp [resumesWhole, hend]

/-- The first query ends with a page that ends a query. -/
theorem endsFirst_page (limit : ℕ) (hr : r.Spent) (h : r.Asks left start cuts)
    (hcut : cuts.headD (.full (left + 1)) = cut)
    (hend : cut.last (left + 1) (rows.length - start) = true ∨
      cut.taken (left + 1) (rows.length - start) = 0 ∨
      cut.taken (left + 1) (rows.length - start) = left + 1)
    (hstart : start ≤ rows.length) (hfuel : rows.length - start < fuel) :
    EndsFirst rows limit (left + 1) start cuts (r.toList (queryFunction rows) fuel) := by
  obtain ⟨r', hlist, hkey, hcuts⟩ := toList_page_ends hr h hcut hend hfuel
  have hle : cut.taken (left + 1) (rows.length - start) ≤ rows.length - start := taken_le_left
  have hwhole := resumesWhole_page limit hcut hend
  refine ⟨_, r', hlist, taken_le_limit, by omega, ?_⟩
  by_cases hlast : cut.last (left + 1) (rows.length - start) = true
  · have htaken := taken_of_last hlast
    exact .inl ⟨by simp [hkey, hlast], by omega, by simp [hwhole, hlast]⟩
  · refine .inr ⟨by simp [hkey, hlast], ?_⟩
    rw [hwhole, hcuts, Nat.sub_sub]
    simp [hlast]

/-- After any other page it ends as the query that asks for one more does. -/
theorem endsFirst_more {n : ℕ} {result result' : Except Exc (List ρ × ResultSet ρ)}
    (hresult : result = result'.map fun (rest, r') => ((rows.drop start).take n ++ rest, r'))
    (hmax : n ≤ left + 1)
    (hwhole : resumesWhole limit (left + 1) (rows.length - start) (cut :: cuts) =
      resumesWhole limit (left + 1 - n) (rows.length - start - n) cuts)
    (h : EndsFirst rows limit (left + 1 - n) (start + n) cuts result') :
    EndsFirst rows limit (left + 1) start (cut :: cuts) result := by
  obtain ⟨m, r', hrest, hm, hsum, hcase⟩ := h
  refine ⟨n + m, r', ?_, by omega, by omega, ?_⟩
  · rw [hresult, hrest]
    simp [Except.map, List.take_add]
  · rw [hwhole, Nat.sub_sub, ← Nat.add_assoc]
    exact hcase

/-- The first query takes a number of rows and either comes to the end or returns a token. -/
theorem toList_first (limit : ℕ) (hr : r.Spent) (h : r.Asks left start cuts)
    (hprops : r.closure.props.exclusiveStartKey = none) (hstart : start ≤ rows.length)
    (hfuel : rows.length - start < fuel) :
    EndsFirst rows limit (left + 1) start cuts (r.toList (queryFunction rows) fuel) := by
  induction cuts generalizing r left start fuel with
  | nil => exact endsFirst_page limit hr h rfl ((full_ends _ _).imp_right .inr) hstart hfuel
  | cons cut cuts ih =>
    have hle : cut.taken (left + 1) (rows.length - start) ≤ rows.length - start := taken_le_left
    have hmax : cut.taken (left + 1) (rows.length - start) ≤ left + 1 := taken_le_limit
    by_cases hend : cut.last (left + 1) (rows.length - start) = true ∨
        cut.taken (left + 1) (rows.length - start) = 0 ∨
        cut.taken (left + 1) (rows.length - start) = left + 1
    · exact endsFirst_page limit hr h rfl hend hstart hfuel
    · simp only [not_or, Bool.not_eq_true] at hend
      obtain ⟨hlast, hsome, hshort⟩ := hend
      obtain ⟨r', hspent, hclosure, hkey, hlist⟩ :=
        toList_page_more (fuel - cut.taken (left + 1) (rows.length - start)) hr h rfl hlast hsome
      have hwhole : resumesWhole limit (left + 1) (rows.length - start) (cut :: cuts) =
          resumesWhole limit (left + 1 - cut.taken (left + 1) (rows.length - start))
            (rows.length - start - cut.taken (left + 1) (rows.length - start)) cuts := by
        simp [resumesWhole, hlast, hsome, hshort]
      simp only [List.headD_cons, List.tail_cons] at hclosure hkey hlist
      generalize cut.taken (left + 1) (rows.length - start) = n at *
      have hallowed : left + 1 - n = left - n + 1 := by omega
      have hprops' : r'.closure.props.exclusiveStartKey = none := by
        rw [hclosure]
        exact hprops
      have hasks : r'.Asks (left - n) (start + n) cuts :=
        ⟨by rw [hclosure, hallowed], by rw [hclosure], .inr hprops', by simp [hkey]⟩
      have hrest := ih hspent hasks hprops' (by omega)
        (show rows.length - (start + n) < fuel - n by omega)
      rw [← hallowed] at hrest
      rw [show n + (fuel - n) = fuel by omega] at hlist
      exact endsFirst_more hlist hmax hwhole hrest

theorem spent_ddbQuery (key : Option ℕ) :
    (ddbQuery (some limit) key cuts : ResultSet ρ).Spent :=
  ⟨rfl, .inl rfl⟩

theorem asks_ddbQuery (key : Option ℕ) :
    (ddbQuery (some (left + 1)) key cuts : ResultSet ρ).Asks left (key.getD 0) cuts :=
  ⟨rfl, rfl, .inl rfl, rfl⟩

theorem query_eq {items : List ρ} {r' : ResultSet ρ} {key : Option ℕ}
    (h : (ddbQuery (some limit) key cuts).toList (queryFunction rows) (rows.length + 1) =
      .ok (items, r')) :
    query rows (some limit) key cuts = .ok (⟨items, r'.nextKey⟩, r'.closure.cuts) := by
  simp [query, h, bind, Except.bind, pure, Except.pure]

/-- A resumed query whose first page ends it. -/
theorem query_resumed (hcut : cuts.headD (.full (left + 1)) = cut)
    (hend : cut.last (left + 1) (rows.length - start) = true ∨
      cut.taken (left + 1) (rows.length - start) = 0 ∨
      cut.taken (left + 1) (rows.length - start) = left + 1) :
    query rows (some (left + 1)) (some start) cuts =
      .ok (⟨(rows.drop start).take (cut.taken (left + 1) (rows.length - start)),
        if cut.last (left + 1) (rows.length - start) then none
        else some (start + cut.taken (left + 1) (rows.length - start))⟩, cuts.tail) := by
  obtain ⟨r', hlist, hkey, hcuts⟩ := toList_page_ends (spent_ddbQuery (some start))
    (asks_ddbQuery (some start)) hcut hend
    (show rows.length - start < rows.length + 1 by omega)
  rw [query_eq hlist, hkey, hcuts]
  rfl

/-- A resumed query whose first page is short and is not the last one. -/
theorem query_resumed_raises (hcut : cuts.headD (.full (left + 1)) = cut)
    (hlast : cut.last (left + 1) (rows.length - start) = false)
    (hsome : cut.taken (left + 1) (rows.length - start) ≠ 0)
    (hshort : cut.taken (left + 1) (rows.length - start) ≠ left + 1) :
    query rows (some (left + 1)) (some start) cuts = .error .typeError := by
  have hle : cut.taken (left + 1) (rows.length - start) ≤ rows.length - start := taken_le_left
  have hmax : cut.taken (left + 1) (rows.length - start) ≤ left + 1 := taken_le_limit
  obtain ⟨r', hspent, hclosure, hkey, hlist⟩ := toList_page_more
    (rows.length - cut.taken (left + 1) (rows.length - start) + 1)
    (spent_ddbQuery (some start)) (asks_ddbQuery (some start)) hcut hlast hsome
  simp only [Option.getD_some] at hclosure hkey hlist
  generalize cut.taken (left + 1) (rows.length - start) = n at *
  have htwice : r'.toList (queryFunction rows) (rows.length - n + 1) = .error .typeError := by
    refine toList_twice (left - n) hspent ?_ (by simp [hkey]) (by rw [hclosure]; rfl)
    rw [hclosure, Option.some.injEq]
    omega
  rw [htwice, ← Nat.add_assoc, Nat.add_sub_cancel' (by omega)] at hlist
  simp [query, hlist, Except.map, bind, Except.bind]

/-- The first query reads some rows, and where it returns a token what is to come decides. -/
theorem query_first (rows : List ρ) (limit left : ℕ) (cuts : List Cut) : ∃ n token rest,
    query rows (some (left + 1)) none cuts = .ok (⟨rows.take n, token⟩, rest) ∧ n ≤ left + 1 ∧
      n ≤ rows.length ∧
      ((token = none ∧ n = rows.length ∧ resumesWhole limit (left + 1) rows.length cuts = true) ∨
      (token = some n ∧ resumesWhole limit (left + 1) rows.length cuts =
        wholePages limit (rows.length - n) rest)) := by
  obtain ⟨n, r', hlist, hn, hsum, hr'⟩ := toList_first limit (spent_ddbQuery none)
    (asks_ddbQuery none) rfl (Nat.zero_le rows.length)
    (show rows.length - 0 < rows.length + 1 by omega)
  simp only [Option.getD_none, List.drop_zero, Nat.zero_add, Nat.sub_zero] at hlist hsum hr'
  exact ⟨n, _, _, query_eq hlist, hn, hsum, hr'⟩

theorem queryAll_done {key : Option ℕ} {items : List ρ} {rest : List Cut}
    (h : query rows (some limit) key cuts = .ok (⟨items, none⟩, rest)) :
    queryAll rows limit (fuel + 1) key cuts = .ok [⟨items, none⟩] := by
  simp [queryAll, h, bind, Except.bind, pure, Except.pure]

theorem queryAll_token {key : Option ℕ} {items : List ρ} {rest : List Cut} {token : ℕ}
    (h : query rows (some limit) key cuts = .ok (⟨items, some token⟩, rest)) :
    queryAll rows limit (fuel + 1) key cuts =
      (queryAll rows limit fuel (some token) rest).map (⟨items, some token⟩ :: ·) := by
  simp only [queryAll, h, bind, Except.bind, pure, Except.pure]
  cases queryAll rows limit fuel (some token) rest <;> rfl

/-- A token is followed by more queries. -/
theorem queryAll_of_token {key : Option ℕ} {items : List ρ} {rest : List Cut} {token : ℕ}
    {results : List (QueryResult ρ)}
    (hquery : query rows (some limit) key cuts = .ok (⟨items, some token⟩, rest))
    (h : queryAll rows limit fuel key cuts = .ok results) :
    ∃ fuel' more, queryAll rows limit fuel' (some token) rest = .ok more := by
  cases fuel with
  | zero => simp [queryAll] at h
  | succ fuel =>
    rw [queryAll_token hquery] at h
    cases hnext : queryAll rows limit fuel (some token) rest with
    | error e => simp [hnext, Except.map] at h
    | ok more => exact ⟨fuel, more, hnext⟩

/-- The rows from `start` on are returned once and in order, at most `limit` in each result. -/
def ReadsRest (rows : List ρ) (limit : ℕ) (key : Option ℕ) (start : ℕ) (cuts : List Cut) : Prop :=
  ∃ fuel results, queryAll rows limit fuel key cuts = .ok results ∧
    (∀ result ∈ results, result.rows.length ≤ limit) ∧
    results.flatMap QueryResult.rows = rows.drop start

theorem readsRest_done {key : Option ℕ} {rest : List Cut}
    (hquery : query rows (some limit) key cuts = .ok (⟨rows.drop start, none⟩, rest))
    (hle : rows.length - start ≤ limit) : ReadsRest rows limit key start cuts := by
  refine ⟨1, _, queryAll_done hquery, ?_, by simp⟩
  simpa using hle

theorem readsRest_token {key : Option ℕ} {rest : List Cut} {n : ℕ}
    (hquery : query rows (some limit) key cuts =
      .ok (⟨(rows.drop start).take n, some (start + n)⟩, rest)) (hle : n ≤ limit)
    (h : ReadsRest rows limit (some (start + n)) (start + n) rest) :
    ReadsRest rows limit key start cuts := by
  obtain ⟨fuel, results, hresults, hlengths, hconcat⟩ := h
  refine ⟨fuel + 1, _, by rw [queryAll_token hquery, hresults]; rfl, ?_, ?_⟩
  · intro result hmem
    rcases List.mem_cons.mp hmem with rfl | hmem
    · simp only [List.length_take]
      omega
    · exact hlengths result hmem
  · rw [List.flatMap_cons, hconcat, ← List.drop_drop, List.take_append_drop]

/-- What `wholePages` says of the page to come and of those after it. -/
theorem wholePages_head {limit' : ℕ} (hcut : cuts.headD (.full limit') = cut) (hpos : 0 < limit')
    (h : wholePages limit' left cuts = true) :
    cut.last limit' left = true ∨ (cut.taken limit' left = 0 ∨ cut.taken limit' left = limit') ∧
      wholePages limit' (left - cut.taken limit' left) cuts.tail = true ∧
      cuts.tail.length + (left - cut.taken limit' left) < cuts.length + left := by
  have hle : cut.taken limit' left ≤ left := taken_le_left
  cases cuts with
  | nil =>
    subst hcut
    rcases full_ends limit' left with hlast | hfull
    · exact .inl hlast
    · refine .inr ⟨.inr hfull, rfl, ?_⟩
      simp only [List.headD_nil, List.tail_nil, List.length_nil] at hle ⊢
      omega
  | cons cut' cuts =>
    obtain rfl : cut' = cut := hcut
    simp only [wholePages, Bool.or_eq_true, Bool.and_eq_true, decide_eq_true_eq] at h
    rcases h with hlast | ⟨hend, hwhole⟩
    · exact .inl hlast
    · refine .inr ⟨hend, hwhole, ?_⟩
      simp only [List.tail_cons, List.length_cons]
      omega

/-- Resumed queries read the rest once where the pages to come are whole. -/
theorem queryAll_resumed (hstart : start ≤ rows.length)
    (hwhole : wholePages (left + 1) (rows.length - start) cuts = true) :
    ReadsRest rows (left + 1) (some start) start cuts := by
  generalize hm : cuts.length + (rows.length - start) = m
  -- Each query takes a page off `cuts` or rows off what is left.
  induction m using Nat.strong_induction_on generalizing cuts start with
  | h m ih =>
    generalize hcut : cuts.headD (.full (left + 1)) = cut
    have hle : cut.taken (left + 1) (rows.length - start) ≤ rows.length - start := taken_le_left
    have hmax : cut.taken (left + 1) (rows.length - start) ≤ left + 1 := taken_le_limit
    by_cases hlast : cut.last (left + 1) (rows.length - start) = true
    · have hquery := query_resumed hcut (.inl hlast)
      rw [if_pos hlast, taken_of_last hlast, ← List.length_drop, List.take_length] at hquery
      rw [taken_of_last hlast] at hmax
      exact readsRest_done hquery hmax
    · obtain ⟨hend, hrest, hless⟩ :=
        (wholePages_head hcut (Nat.succ_pos _) hwhole).resolve_left hlast
      have hquery := query_resumed hcut (.inr hend)
      rw [if_neg hlast] at hquery
      generalize cut.taken (left + 1) (rows.length - start) = n at *
      rw [Nat.sub_sub] at hrest hless
      exact readsRest_token hquery hmax (ih _ (hm ▸ hless) (by omega) hrest rfl)

/-- A short page on the way raises in whichever resumed query meets it. -/
theorem queryAll_raises (hwhole : wholePages (left + 1) (rows.length - start) cuts = false)
    (results : List (QueryResult ρ)) :
    queryAll rows (left + 1) fuel (some start) cuts ≠ .ok results := by
  induction cuts generalizing start fuel results with
  | nil => cases hwhole
  | cons cut cuts ih =>
    intro hall
    simp only [wholePages, Bool.or_eq_false_iff, Bool.and_eq_false_iff] at hwhole
    obtain ⟨hlast, hwhole⟩ := hwhole
    have hhead : (cut :: cuts).headD (.full (left + 1)) = cut := rfl
    by_cases hend : cut.taken (left + 1) (rows.length - start) = 0 ∨
        cut.taken (left + 1) (rows.length - start) = left + 1
    · have hrest : wholePages (left + 1) (rows.length - (start +
          cut.taken (left + 1) (rows.length - start))) cuts = false := by
        rcases hwhole with hnot | hrest
        · exact absurd hend (by simpa using hnot)
        · rwa [← Nat.sub_sub]
      have hquery := query_resumed hhead (.inr hend)
      rw [if_neg (by simp [hlast])] at hquery
      obtain ⟨fuel', more, hnext⟩ := queryAll_of_token hquery hall
      exact ih hrest more hnext
    · rw [not_or] at hend
      have hquery := query_resumed_raises hhead hlast hend.1 hend.2
      cases fuel <;> simp [queryAll, hquery, bind, Except.bind] at hall

/-- Repeated queries read everything once exactly when no resumed query gets a first page that is
neither empty, nor full, nor the last one. -/
theorem resumed_queries_read_once (rows : List ρ) (cuts : List Cut) (hlimit : 1 ≤ limit) :
    ReadsOnce rows limit cuts ↔ resumesWhole limit limit rows.length cuts = true := by
  obtain ⟨left, rfl⟩ := Nat.exists_eq_add_of_le' hlimit
  obtain ⟨n, token, rest, hquery, hn, hle, hcase⟩ :=
    query_first rows (left + 1) left cuts
  rcases hcase with ⟨rfl, rfl, hwhole⟩ | ⟨rfl, hwhole⟩
  · rw [List.take_length] at hquery
    have hread : ReadsRest rows (left + 1) none 0 cuts := readsRest_done hquery hn
    exact iff_of_true hread hwhole
  · rw [hwhole]
    constructor
    · rintro ⟨fuel, results, hresults, _⟩
      by_contra hnot
      obtain ⟨fuel', more, hnext⟩ := queryAll_of_token hquery hresults
      exact queryAll_raises (by simpa using hnot) more hnext
    · intro hrest
      rw [← Nat.zero_add n] at hquery hle hrest
      exact readsRest_token (by simpa using hquery) hn (queryAll_resumed hle hrest)

/-- Short pages in the first query, an empty page and a full one in the resumed ones. -/
theorem resumed_queries_read_once_short_first : ReadsOnce [10, 20, 30, 40, 50, 60] 2
    [⟨1, false⟩, ⟨1, false⟩, ⟨0, false⟩, ⟨2, false⟩] :=
  (resumed_queries_read_once _ _ (by decide)).mpr (by decide)

/-- The first page of the second query has one row of the two it may have. -/
theorem short_resumed_page_raises : ¬ ∀ (rows : List ℕ) (limit : ℕ) (cuts : List Cut), 1 ≤ limit →
    ReadsOnce rows limit cuts := by
  intro hall
  obtain ⟨fuel, results, hresults, _⟩ :=
    hall [10, 20, 30, 40] 2 [⟨2, false⟩, ⟨1, false⟩] (by decide)
  have hquery : query [10, 20, 30, 40] (some 2) none [⟨2, false⟩, ⟨1, false⟩] =
      .ok (⟨[10, 20], some 2⟩, [⟨1, false⟩]) := rfl
  obtain ⟨fuel', more, hnext⟩ := queryAll_of_token hquery hresults
  exact queryAll_raises (by rfl) more hnext

end ShimService.Paging
