import ShimService.Dynamo.BatchRounds
import ShimService.Keys.Repositories

/-! A batch returns each request's row at the place of the request. -/
namespace ShimService.BatchGet

open Keys

variable {reserved : List String} {β ρ : Type}

/-- The rows of all tables, each with the name of its own. -/
def pairs (results : Results β) : List (String × Item β) :=
  results.flatMap fun (name, rows) => rows.map (name, ·)

theorem pairs_perm {results : Results β} (hnodup : (results.map Prod.fst).Nodup)
    {rows : List (String × Item β)} (h : ∀ name, ((results.lookup name).getD []).Perm
      ((rows.filter fun row => row.1 = name).map Prod.snd)) : (pairs results).Perm rows := by
  induction results generalizing rows with
  | nil =>
    cases rows with
    | nil => exact List.Perm.nil
    | cons row rows =>
      have hempty := h row.1
      simp at hempty
  | cons table results ih =>
    obtain ⟨name, found⟩ := table
    rw [List.map_cons, List.nodup_cons] at hnodup
    have hhead : (found.map (name, ·)).Perm (rows.filter fun row => row.1 = name) := by
      have hfound : found.Perm ((rows.filter fun row => row.1 = name).map Prod.snd) := by
        simpa using h name
      refine (hfound.map (name, ·)).trans ?_
      rw [List.map_map]
      refine List.Perm.of_eq ((List.map_congr_left fun row hrow => ?_).trans (List.map_id _))
      have hname : row.1 = name := by simpa using (List.mem_filter.mp hrow).2
      subst hname
      rfl
    have htail : (pairs results).Perm (rows.filter fun row => !decide (row.1 = name)) := by
      refine ih hnodup.2 fun other => ?_
      rw [List.filter_filter]
      by_cases hother : other = name
      · subst hother
        rw [lookup_eq_none hnodup.1]
        simp
      · have hrows := h other
        rw [List.lookup_cons, beq_false_of_ne hother] at hrows
        refine hrows.trans (List.Perm.of_eq ?_)
        congr 1
        refine List.filter_congr fun row _ => ?_
        by_cases hrow : row.1 = other <;> simp [hrow, hother]
    exact (hhead.append htail).trans (List.filter_append_perm _ rows)

section Matching

variable [DecidableEq β] {store : String → Table β} {name : String} {row : Item β}
  {pending pre post : List (GetItemRequest reserved β ρ × ℕ)}
  {m m' : Matching reserved β ρ} {rows : List (String × Item β)}

/-- The loop over all rows, without its grouping by tables. -/
def matchAll (m : Matching reserved β ρ) (rows : List (String × Item β)) :
    Option (Matching reserved β ρ) := rows.foldlM (fun m row => matchRow row.1 m row.2) m

theorem foldlM_pairs (results : Results β) (m : Matching reserved β ρ) :
    results.foldlM (fun m (tableName, rows) =>
      if rows.length < 1 then some m else rows.foldlM (matchRow tableName) m) m =
      matchAll m (pairs results) := by
  unfold matchAll
  induction results generalizing m with
  | nil => rfl
  | cons table results ih =>
    obtain ⟨name, rows⟩ := table
    have hhead : (if rows.length < 1 then some m else rows.foldlM (matchRow name) m) =
        (rows.map (name, ·)).foldlM (fun m row => matchRow row.1 m row.2) m := by
      rw [List.foldlM_map]
      cases rows with
      | nil => rfl
      | cons row rows => simp
    simp only [List.foldlM_cons, hhead, pairs, List.flatMap_cons, List.foldlM_append]
    congr 1
    funext m
    exact ih m

def Matches (name : String) (row : Item β) (e : GetItemRequest reserved β ρ × ℕ) : Prop :=
  e.1.tableName = name ∧ keyMatches row e.1.keys = true

theorem findMatch_eq {e : GetItemRequest reserved β ρ × ℕ} (hpre : ∀ e ∈ pre, ¬ Matches name row e)
    (he : Matches name row e) :
    findMatch name row (pre ++ e :: post) = some (e, pre ++ post) := by
  induction pre with
  | nil => exact if_pos he
  | cons first pre ih =>
    have hfirst : ¬ (first.1.tableName = name ∧ keyMatches row first.1.keys = true) :=
      hpre first (by simp)
    rw [List.cons_append, findMatch, if_neg hfirst, ih fun e he => hpre e (by simp [he])]
    rfl

/-- A request's row matches it, and no row matches two requests. -/
structure Trackable (store : String → Table β)
    (pending : List (GetItemRequest reserved β ρ × ℕ)) : Prop where
  own : ∀ e ∈ pending, ∀ row, e.1.found store = some row → Matches e.1.tableName row e
  apart : pending.Pairwise fun e e' => ∀ name row, Matches name row e → ¬ Matches name row e'
  indexes : (pending.map Prod.snd).Nodup

theorem Trackable.sublist {pending' : List (GetItemRequest reserved β ρ × ℕ)}
    (h : Trackable store pending) (hsub : pending'.Sublist pending) : Trackable store pending' where
  own e he := h.own e (hsub.subset he)
  apart := h.apart.sublist hsub
  indexes := h.indexes.sublist (hsub.map Prod.snd)

/-- The rows that are still to come for the requests in the list. -/
def expected (store : String → Table β) (pending : List (GetItemRequest reserved β ρ × ℕ)) :
    List (String × Item β) :=
  pending.filterMap fun e => (e.1.found store).map (e.1.tableName, ·)

/-- What matching all the rows does to the locals. -/
structure Matched (store : String → Table β) (m m' : Matching reserved β ρ) (n : ℕ) : Prop where
  count : m'.matchCount = m.matchCount + n
  length : m'.resultList.length = m.resultList.length
  entry : ∀ e ∈ m.requestsToMatch, ∀ row, e.1.found store = some row →
    ∃ entry, e.1.decode row = some entry ∧ m'.resultList[e.2]? = some (some entry)
  frame : ∀ i, (∀ e ∈ m.requestsToMatch, e.2 = i → e.1.found store = none) →
    m'.resultList[i]? = m.resultList[i]?

theorem expected_eq_nil (h : expected store pending = []) :
    ∀ e ∈ pending, e.1.found store = none := by
  intro e he
  have hnone := List.filterMap_eq_nil_iff.mp h e he
  simpa using hnone

/-- The first row matched and the others: its request is found where it stands, and it is taken
out of the list. -/
theorem matchAll_cons (h : Trackable store m.requestsToMatch)
    (hrows : ((name, row) :: rows).Perm (expected store m.requestsToMatch)) :
    ∃ pre e post, m.requestsToMatch = pre ++ e :: post ∧ e.1.found store = some row ∧
      rows.Perm (expected store (pre ++ post)) ∧
      matchAll m ((name, row) :: rows) = (e.1.decode row).bind fun entry =>
        matchAll ⟨pre ++ post, m.resultList.set e.2 (some entry), m.matchCount + 1⟩ rows := by
  have hmem : (name, row) ∈ expected store m.requestsToMatch := hrows.subset (by simp)
  obtain ⟨e, he, hfound⟩ := List.mem_filterMap.mp hmem
  obtain ⟨row', hrow, heq⟩ := Option.map_eq_some_iff.mp hfound
  obtain ⟨rfl, rfl⟩ := Prod.mk.inj heq
  obtain ⟨pre, post, hsplit⟩ := List.append_of_mem he
  have hapart := h.apart
  rw [hsplit, List.pairwise_append] at hapart
  have hpre : ∀ e' ∈ pre, ¬ Matches e.1.tableName row' e' := fun e' he' hmatch =>
    hapart.2.2 e' he' e (by simp) _ _ hmatch (h.own e he row' hrow)
  refine ⟨pre, e, post, hsplit, hrow, ?_, ?_⟩
  · have hexpected : (expected store (pre ++ e :: post)).Perm
        ((e.1.tableName, row') :: expected store (pre ++ post)) := by
      simp only [expected, List.filterMap_append, List.filterMap_cons, hrow, Option.map_some]
      exact List.perm_middle
    rw [hsplit] at hrows
    exact (hrows.trans hexpected).cons_inv
  · have hmatch : matchRow e.1.tableName m row' = (e.1.decode row').map fun entry =>
        ⟨pre ++ post, m.resultList.set e.2 (some entry), m.matchCount + 1⟩ := by
      rw [matchRow, hsplit, findMatch_eq hpre (h.own e he row' hrow)]
    rw [matchAll, List.foldlM_cons, hmatch]
    cases e.1.decode row' <;> rfl

/-- By induction on the rows, whichever order they come in: each finds its own request among those
that are left, and the places of the others stay as they are. -/
theorem matchAll_spec (h : Trackable store m.requestsToMatch)
    (hbound : ∀ e ∈ m.requestsToMatch, e.2 < m.resultList.length)
    (hrows : rows.Perm (expected store m.requestsToMatch)) :
    (matchAll m rows = none ∧ ∃ e ∈ m.requestsToMatch, ∃ row, e.1.found store = some row ∧
      e.1.decode row = none) ∨
    ∃ m', matchAll m rows = some m' ∧ Matched store m m' rows.length := by
  induction rows generalizing m with
  | nil =>
    have hnone := expected_eq_nil (List.nil_perm.mp hrows)
    refine Or.inr ⟨m, rfl, rfl, rfl, ?_, fun _ _ => rfl⟩
    intro e he row hrow
    rw [hnone e he] at hrow
    cases hrow
  | cons row rows ih =>
    obtain ⟨pre, e, post, hsplit, hrow, hrest, hstep⟩ := matchAll_cons h hrows
    have hsub : (pre ++ post).Sublist m.requestsToMatch := by
      rw [hsplit]
      exact (List.sublist_cons_self e post).append_left pre
    have he : e ∈ m.requestsToMatch := by simp [hsplit]
    rw [hstep]
    cases hdecode : e.1.decode row.2 with
    | none => exact Or.inl ⟨rfl, e, he, row.2, hrow, hdecode⟩
    | some entry =>
      have hlength : (m.resultList.set e.2 (some entry)).length = m.resultList.length :=
        List.length_set
      obtain ⟨hnone, e', he', row', hrow', hdecode'⟩ | ⟨m', hm', hmatched⟩ :=
        ih (m := ⟨pre ++ post, m.resultList.set e.2 (some entry), m.matchCount + 1⟩)
          (h.sublist hsub) (fun e' he' => hlength ▸ hbound e' (hsub.subset he')) hrest
      · exact Or.inl ⟨hnone, e', hsub.subset he', row', hrow', hdecode'⟩
      · have hother : ∀ e' ∈ pre ++ post, e'.2 ≠ e.2 := by
          have hindexes := h.indexes
          rw [hsplit, List.map_append, List.map_cons, List.nodup_middle,
            ← List.map_append, List.nodup_cons] at hindexes
          intro e' he' heq
          exact hindexes.1 (heq ▸ List.mem_map_of_mem he')
        refine Or.inr ⟨m', hm', ?_, hmatched.length.trans hlength, ?_, ?_⟩
        · have hcount : m'.matchCount = m.matchCount + 1 + rows.length := hmatched.count
          rw [List.length_cons]
          omega
        · intro e' he' row' hrow'
          by_cases hsame : e' ∈ pre ++ post
          · exact hmatched.entry e' hsame row' hrow'
          · obtain rfl : e' = e := by
              rw [hsplit] at he'
              simp_all
            rw [hrow] at hrow'
            cases hrow'
            refine ⟨entry, hdecode, ?_⟩
            rw [hmatched.frame _ fun e' he' heq => absurd heq (hother e' he')]
            exact List.getElem?_set_self (hbound e' he)
        · intro i hi
          have hne : e.2 ≠ i := by
            intro heq
            rw [hi e he heq] at hrow
            cases hrow
          rw [hmatched.frame i fun e' he' => hi e' (hsub.subset he')]
          exact List.getElem?_set_ne hne

end Matching

section Results

variable [DecidableEq β] {store : String → Table β}
  {requests : List (GetItemRequest reserved β ρ)} {rounds : List (Response β)}

theorem mapM_eq_none {γ δ : Type} {f : γ → Option δ} {xs : List γ} {x : γ} (hx : x ∈ xs)
    (hf : f x = none) : xs.mapM f = none := by
  induction xs with
  | nil => exact absurd hx List.not_mem_nil
  | cons y xs ih =>
    rw [List.mapM_cons]
    obtain rfl | hx := List.mem_cons.mp hx
    · rw [hf]
      rfl
    · rw [ih hx]
      cases f y <;> rfl

theorem mapM_eq_some {γ δ : Type} {f : γ → Option δ} {xs : List γ} {ys : List δ}
    (hlength : ys.length = xs.length)
    (h : ∀ (i : ℕ) x, xs[i]? = some x → ∃ y, ys[i]? = some y ∧ f x = some y) :
    xs.mapM f = some ys := by
  induction xs generalizing ys with
  | nil =>
    obtain rfl := List.length_eq_zero_iff.mp hlength
    rfl
  | cons x xs ih =>
    obtain ⟨y, ys, rfl⟩ := List.exists_cons_of_length_eq_add_one hlength
    obtain ⟨y', hy, hx⟩ := h 0 x rfl
    cases hy
    have hrest : xs.mapM f = some ys :=
      ih (by simpa using hlength) fun i x' hi => h (i + 1) x' hi
    rw [List.mapM_cons, hx, hrest]
    rfl

theorem entry_eq (request : GetItemRequest reserved β ρ) :
    request.entry store = match request.found store with
      | none => some none
      | some row => (request.decode row).map some := by
  unfold GetItemRequest.entry GetItemRequest.found
  cases (store request.tableName).find request.keys with
  | none => rfl
  | some row =>
    unfold GetItemRequest.decode GetItemRequest.project
    cases request.attributesToGet with
    | none => simp [Function.comp_def]
    | some names => rfl

/-- A dictionary that a row matches can be read off the row, up to its order. -/
theorem eq_filterMap {row : Item β} {keys : List (String × Value β)}
    (h : keyMatches row keys = true) :
    keys = (keys.map Prod.fst).filterMap fun name => (row name).map (name, ·) := by
  induction keys with
  | nil => rfl
  | cons entry keys ih =>
    simp only [keyMatches, List.all_cons, Bool.and_eq_true, decide_eq_true_eq] at h
    rw [List.map_cons, List.filterMap_cons, h.1, Option.map_some, ← ih h.2]

theorem keys_perm {row : Item β} {keys keys' : List (String × Value β)}
    (hnames : (keys.map Prod.fst).Perm (keys'.map Prod.fst)) (h : keyMatches row keys = true)
    (h' : keyMatches row keys' = true) : keys.Perm keys' := by
  rw [eq_filterMap h, eq_filterMap h']
  exact hnames.filterMap _

theorem matches_of_found {request : GetItemRequest reserved β ρ} {row : Item β}
    (hkeys : ∀ names, request.attributesToGet = some names →
      ∀ key ∈ request.keys, key.1 ∈ names.map Subtype.val)
    (h : request.found store = some row) : keyMatches row request.keys = true := by
  obtain ⟨item, hfind, rfl⟩ := Option.map_eq_some_iff.mp h
  have hitem : keyMatches item request.keys = true :=
    List.find?_some (p := fun item => keyMatches item request.keys) hfind
  unfold GetItemRequest.project
  cases hnames : request.attributesToGet with
  | none => exact hitem
  | some names =>
    simp only [keyMatches, List.all_eq_true] at hitem ⊢
    intro key hkey
    simp only [Option.elim_some, restrict, hkeys names hnames key hkey, if_true]
    exact hitem key hkey

/-- What a batch is made of. Keys are pairwise different within a physical table, and the requests
to one of them have one projection, which names the key attributes. -/
structure Batch (requests : List (GetItemRequest reserved β ρ)) : Prop where
  distinct : requests.Pairwise fun r r' => r.tableName = r'.tableName → ¬ r.keys.Perm r'.keys
  projection : ∀ r ∈ requests, ∀ r' ∈ requests, r.tableName = r'.tableName → SameProjection r r'
  includesKeys : ∀ r ∈ requests, ∀ names, r.attributesToGet = some names →
    ∀ key ∈ r.keys, key.1 ∈ names.map Subtype.val

/-- The service has answered only keys that fit their tables. -/
theorem answered_fits (hanswered : Answered reserved store (tableRequests requests) rounds)
    (hsame : ∀ r ∈ requests, ∀ r' ∈ requests, r.tableName = r'.tableName → SameProjection r r')
    {r : GetItemRequest reserved β ρ} (hr : r ∈ requests) :
    (r.keys.map Prod.fst).Perm (store r.tableName).keyNames := by
  have hmem : r ∈ requests.filter fun request => request.tableName = r.tableName := by
    simpa using hr
  obtain ⟨table, htable, hkeys, -⟩ := foldl_joinTable (List.ne_nil_of_mem hmem)
    fun r' hr' r'' hr'' => hsame r' (List.mem_filter.mp hr').1 r'' (List.mem_filter.mp hr'').1 (by
      simp only [List.mem_filter, decide_eq_true_eq] at hr' hr''
      exact hr'.2.trans hr''.2.symm)
  rw [← lookup_tableRequests] at htable
  have hitem := mem_of_lookup htable
  generalize tableRequests requests = items at hanswered hitem
  cases hanswered with
  | done => cases hitem
  | round hne hanswers hrest =>
    refine (hanswers.fits _ hitem).2 r.keys ?_
    rw [hkeys]
    exact List.mem_map_of_mem hmem

theorem batch_trackable (h : Batch requests)
    (hanswered : Answered reserved store (tableRequests requests) rounds) :
    Trackable store requests.zipIdx where
  own := by
    intro e he row hrow
    have hmem := List.fst_mem_of_mem_zipIdx he
    exact ⟨rfl, matches_of_found (h.includesKeys e.1 hmem) hrow⟩
  apart := by
    have hfits := fun r (hr : r ∈ requests) => answered_fits hanswered h.projection hr
    have hpairs : (requests.zipIdx.map Prod.fst).Pairwise fun r r' =>
        r.tableName = r'.tableName → ¬ r.keys.Perm r'.keys := by
      rw [List.zipIdx_map_fst]
      exact h.distinct
    refine (List.pairwise_map.mp hpairs).imp_of_mem ?_
    intro e e' he he' hapart name row hmatch hmatch'
    have hname : e.1.tableName = e'.1.tableName := hmatch.1.trans hmatch'.1.symm
    refine hapart hname (keys_perm ?_ hmatch.2 hmatch'.2)
    have hfit := hfits e.1 (List.fst_mem_of_mem_zipIdx he)
    have hfit' := hfits e'.1 (List.fst_mem_of_mem_zipIdx he')
    rw [hname] at hfit
    exact hfit.trans hfit'.symm
  indexes := by
    rw [List.zipIdx_map_snd]
    exact List.nodup_range'

theorem expected_zipIdx (requests : List (GetItemRequest reserved β ρ)) :
    expected store requests.zipIdx =
      requests.filterMap fun r => (r.found store).map (r.tableName, ·) := by
  nth_rewrite 2 [← List.zipIdx_map_fst 0 requests]
  rw [List.filterMap_map]
  rfl

theorem expected_filter (requests : List (GetItemRequest reserved β ρ)) (name : String) :
    ((expected store requests.zipIdx).filter fun row => row.1 = name).map Prod.snd =
      (requests.filter fun request => request.tableName = name).filterMap
        (GetItemRequest.found store) := by
  rw [expected_zipIdx]
  induction requests with
  | nil => rfl
  | cons request requests ih =>
    rw [List.filterMap_cons, List.filter_cons]
    cases hfound : request.found store with
    | none => by_cases hname : request.tableName = name <;> simp [hname, hfound, ih]
    | some row => by_cases hname : request.tableName = name <;> simp [hname, hfound, ih]

theorem expected_perm (h : Batch requests)
    (hanswered : Answered reserved store (tableRequests requests) rounds) :
    ∃ results, ddbBatchGet requests rounds = some results ∧
      (pairs results).Perm (expected store requests.zipIdx) := by
  obtain ⟨results, hresults, hnodup, hrows⟩ :=
    getRounds_spec hanswered (tableRequests_nodup requests) [] List.nodup_nil
  refine ⟨results, hresults, pairs_perm hnodup fun name => (hrows name).trans ?_⟩
  rw [rows_tableRequests h.projection, expected_filter]
  exact List.Perm.refl _

/-- The batch returns one entry for each request, in the order of the requests: its row, as the
repository or the projection makes it, or nothing. The count is that of the rows there are. -/
theorem batch_get_in_request_order (h : Batch requests)
    (hanswered : Answered reserved store (tableRequests requests) rounds) :
    batchGet requests rounds = (requests.mapM (GetItemRequest.entry store)).map fun entries =>
      ⟨entries, requests.countP fun r => ((store r.tableName).find r.keys).isSome⟩ := by
  obtain ⟨results, hresults, hperm⟩ := expected_perm h hanswered
  have hfold := foldlM_pairs results
    (⟨requests.zipIdx, List.replicate requests.length none, 0⟩ : Matching reserved β ρ)
  have hcount : (pairs results).length =
      requests.countP fun r => ((store r.tableName).find r.keys).isSome := by
    rw [hperm.length_eq, expected_zipIdx, List.length_filterMap_eq_countP]
    simp [GetItemRequest.found]
  have hindex : ∀ e ∈ requests.zipIdx, requests[e.2]? = some e.1 := fun e he =>
    List.mem_zipIdx_iff_getElem?.mp he
  rw [batchGet, hresults, Option.bind_eq_bind, Option.bind_some, hfold]
  obtain ⟨hnone, e, he, row, hrow, hdecode⟩ | ⟨m, hm, hmatched⟩ := matchAll_spec
    (m := ⟨requests.zipIdx, List.replicate requests.length none, 0⟩)
    (batch_trackable h hanswered) (fun e he => by
      rw [List.length_replicate]
      exact (List.getElem?_eq_some_iff.mp (hindex e he)).1) hperm
  · have hentry : e.1.entry store = none := by
      rw [entry_eq, hrow]
      exact congrArg (Option.map some) hdecode
    rw [hnone, mapM_eq_none (List.fst_mem_of_mem_zipIdx he) hentry]
    rfl
  · have hentries : requests.mapM (GetItemRequest.entry store) = some m.resultList := by
      refine mapM_eq_some (hmatched.length.trans List.length_replicate) fun i r hr => ?_
      have hmem : (r, i) ∈ requests.zipIdx := List.mem_zipIdx_iff_getElem?.mpr hr
      rw [entry_eq]
      cases hfound : r.found store with
      | none =>
        refine ⟨none, ?_, rfl⟩
        rw [hmatched.frame i fun e he hi => ?_]
        · exact List.getElem?_replicate_of_lt (List.getElem?_eq_some_iff.mp hr).1
        · have he' := hindex e he
          rw [hi, hr] at he'
          exact Option.some.inj he' ▸ hfound
      | some row =>
        obtain ⟨entry, hentry, hplace⟩ := hmatched.entry (r, i) hmem row hfound
        exact ⟨some entry, hplace, congrArg (Option.map some) hentry⟩
    have hrows : m.matchCount = (pairs results).length := by simpa using hmatched.count
    rw [hm, hentries, ← hcount, ← hrows]
    rfl

end Results

section Sample

def sampleRepo (key : CompoundKey) (table : Option VirtualTable) (tableName : String)
    (named : ∀ k ∈ key.keys, Expression.IsName [] k.attributeName) :
    Repo [] Empty (Option (Value Empty)) where
  tableName := tableName
  primaryKey := key
  named := named
  virtualTable := table
  initializer item := some (item "sessionId")

def sessionRequest : GetItemRequest [] Empty (Option (Value Empty)) where
  tableName := "sessions"
  keys := [("tenantId", .int 1), ("sessionId", .str "s")]
  nodup := by decide
  consistent := true
  attributesToGet := some [⟨"sessionStatus", by decide⟩, ⟨"tenantId", by decide⟩,
    ⟨"sessionId", by decide⟩]
  nonempty := by decide
  repo := sampleRepo awsSessionsRepo none "sessions" (by decide)

def dataRequest : GetItemRequest [] Empty (Option (Value Empty)) where
  tableName := "virtual"
  keys := [("hashKey", .str "b\t1"), ("rangeKey", .str "s")]
  nodup := by decide
  consistent := true
  attributesToGet := none
  nonempty := by decide
  repo := sampleRepo awsSfdcSessionsRepo (some sfdcSessionTable) "virtual" (by decide)

def contextRequest : GetItemRequest [] Empty (Option (Value Empty)) where
  tableName := "virtual"
  keys := [("hashKey", .str "d\t1"), ("rangeKey", .str "s\tw")]
  nodup := by decide
  consistent := true
  attributesToGet := none
  nonempty := by decide
  repo := sampleRepo awsSessionContextsRepo (some sessionContextTable) "virtual" (by decide)

def sessionRow : Item Empty := fun name => List.lookup name
  [("tenantId", .int 1), ("sessionId", .str "s"), ("sessionStatus", .str "A"),
    ("expSeconds", .int 30)]

def contextRow : Item Empty := fun name => List.lookup name
  [("hashKey", .str "d\t1"), ("rangeKey", .str "s\tw"), ("expireTime", .int 90)]

def sampleStore : String → Table Empty
  | "sessions" => ⟨["tenantId", "sessionId"], [sessionRow]⟩
  | "virtual" => ⟨["hashKey", "rangeKey"], [contextRow]⟩
  | _ => ⟨[], []⟩

def sampleRequests : List (GetItemRequest [] Empty (Option (Value Empty))) :=
  [sessionRequest, dataRequest, contextRequest]

/-- The context's key is handed back once. -/
def sampleRounds : List (Response Empty) :=
  [⟨[("sessions", [restrict ["sessionStatus", "tenantId", "sessionId"] sessionRow])],
      [("virtual", ⟨[contextRequest.keys], true, none⟩)]⟩,
    ⟨[("virtual", [contextRow])], []⟩]

theorem sampleRequests_batch : Batch sampleRequests where
  distinct := by decide
  projection := by
    simp [sampleRequests, SameProjection, sessionRequest, dataRequest, contextRequest]
  includesKeys := by
    intro r hr names hnames
    simp only [sampleRequests, List.mem_cons, List.not_mem_nil, or_false] at hr
    obtain rfl | rfl | rfl := hr
    · cases hnames
      decide
    · cases hnames
    · cases hnames

theorem tableRequests_sample : tableRequests sampleRequests =
    [("sessions", ⟨[sessionRequest.keys], true, some "sessionStatus,tenantId,sessionId"⟩),
      ("virtual", ⟨[dataRequest.keys, contextRequest.keys], true, none⟩)] := by rfl

theorem sampleRequests_answered :
    Answered [] sampleStore (tableRequests sampleRequests) sampleRounds := by
  rw [tableRequests_sample]
  refine .round (by simp) ⟨?_, ?_, ?_, by decide, by decide, by decide⟩
    (.round (by simp) ⟨?_, ?_, by simp, by decide, by decide, by decide⟩ .done)
  · decide +kernel
  · intro table htable
    simp only [List.mem_cons, List.not_mem_nil, or_false] at htable
    obtain rfl | rfl := htable
    · have hprojection : (projection [] (some "sessionStatus,tenantId,sessionId")).getD id =
          sessionRequest.project := projection_expression sessionRequest
      refine ⟨[sessionRequest.keys], List.Perm.refl _, ?_⟩
      rw [TableRequest.rows, hprojection]
      exact List.Perm.of_eq rfl
    · exact ⟨[dataRequest.keys], List.Perm.refl _, List.Perm.of_eq rfl⟩
  · simp
  · decide +kernel
  · intro table htable
    obtain rfl := List.mem_singleton.mp htable
    exact ⟨[contextRequest.keys], List.Perm.refl _, List.Perm.of_eq rfl⟩

theorem batch_get_in_request_order_sample :
    batchGet sampleRequests sampleRounds =
      (sampleRequests.mapM (GetItemRequest.entry sampleStore)).map fun entries =>
        ⟨entries, sampleRequests.countP fun r =>
          ((sampleStore r.tableName).find r.keys).isSome⟩ :=
  batch_get_in_request_order sampleRequests_batch sampleRequests_answered

end Sample

end ShimService.BatchGet
