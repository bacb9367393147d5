import Mathlib.Data.List.Flatten
import ShimService.Paging.ResultSet

/-!
Reading a `ResultSet` without a limit to its end. Filters apply after the service has cut its
pages, so any of them may come empty.
-/
namespace ShimService.Paging

variable {ρ : Type*}

/-- The answer from these pages, with a key to the next one on all but the last. -/
def answer (pages : List (List ρ)) (props : Props) : Response ρ :=
  let page := props.exclusiveStartKey.getD 0
  let items := pages.getD page []
  { items := items
    lastEvaluatedKey := if page + 1 < pages.length then some (page + 1) else none
    count := items.length }

def pageClient (pages : List (List ρ)) (props : Props) (cuts : List Cut) :
    Response ρ × List Cut :=
  (answer pages props, cuts)

/-- `query_function` of `scan`. -/
def scanFunction (client : Props → List Cut → Response ρ × List Cut) (nextKey : Option ℕ)
    (c : Closure) : Except Exc (Option (Response ρ × Closure)) :=
  let (response, cuts) := client { c.props with exclusiveStartKey := nextKey } c.cuts
  .ok (some (response, { c with cuts := cuts }))

/-- `DynamoDb.scan`. -/
def ddbScan : ResultSet ρ where
  closure := ⟨none, ⟨none, none⟩, []⟩

/-- What is read without a limit. -/
inductive Source where
  | scan
  | query (lastEvaluatedKey : Option ℕ)
  deriving DecidableEq, Repr

namespace Source

def queryFunction (pages : List (List ρ)) :
    Source → Option ℕ → Closure → Except Exc (Option (Response ρ × Closure))
  | scan => scanFunction (pageClient pages)
  | query _ => queryFunctionWith (pageClient pages)

def resultSet : Source → ResultSet ρ
  | scan => ddbScan
  | query lastEvaluatedKey => ddbQuery none lastEvaluatedKey []

/-- The pages from the one that the first request asks for. -/
def pages (pages : List (List ρ)) : Source → List (List ρ)
  | scan => pages
  | query lastEvaluatedKey => pages.drop (lastEvaluatedKey.getD 0)

/-- `list` of the result set; it ends within the fuel given here. -/
def readAll (source : Source) (pages : List (List ρ)) : Except Exc (List ρ) :=
  (source.resultSet.toList (source.queryFunction pages) (pages.flatten.length + 1)).map
    Prod.fst

end Source

variable {pages rest : List (List ρ)} {page : List ρ} {fuel : ℕ} {r : ResultSet ρ}
  {query : Option ℕ → Closure → Except Exc (Option (Response ρ × Closure))}

/-- The items before the first empty page. -/
def beforeEmpty (pages : List (List ρ)) : List ρ :=
  (pages.takeWhile fun page => !page.isEmpty).flatten

/-- No page with items comes after one without. -/
def EmptyOnlyAtEnd (pages : List (List ρ)) : Prop :=
  pages.Pairwise fun page page' => page = [] → page' = []

theorem beforeEmpty_cons_nil : beforeEmpty ([] :: rest) = [] := rfl

theorem beforeEmpty_cons (h : page ≠ []) :
    beforeEmpty (page :: rest) = page ++ beforeEmpty rest := by
  simp [beforeEmpty, h]

theorem beforeEmpty_length (pages : List (List ρ)) :
    (beforeEmpty pages).length ≤ pages.flatten.length :=
  ((List.takeWhile_sublist _).flatten).length_le

theorem beforeEmpty_eq_flatten_iff : beforeEmpty pages = pages.flatten ↔ EmptyOnlyAtEnd pages := by
  induction pages with
  | nil => simp [beforeEmpty, EmptyOnlyAtEnd]
  | cons page rest ih =>
    rw [EmptyOnlyAtEnd, List.pairwise_cons, ← EmptyOnlyAtEnd, ← ih]
    by_cases hpage : page = []
    · subst hpage
      rw [beforeEmpty_cons_nil, List.flatten_cons, List.nil_append]
      constructor
      · intro h
        have hempty : ∀ page ∈ rest, page = [] := List.flatten_eq_nil_iff.mp h.symm
        refine ⟨fun page hp _ => hempty page hp, ?_⟩
        have hle := beforeEmpty_length rest
        rw [← h] at hle ⊢
        exact List.eq_nil_of_length_eq_zero (Nat.le_zero.mp hle)
      · intro h
        exact (List.flatten_eq_nil_iff.mpr fun page hp => h.1 page hp rfl).symm
    · rw [beforeEmpty_cons hpage, List.flatten_cons, List.append_cancel_left_eq]
      simp [hpage]

/-- Every request is answered from the pages. -/
def Follows (pages : List (List ρ))
    (query : Option ℕ → Closure → Except Exc (Option (Response ρ × Closure)))
    (c : Closure) : Prop :=
  ∀ key, query key c = .ok (some (answer pages ⟨key, none⟩, c))

open ResultSet

theorem answer_of_drop (key : Option ℕ) (h : pages.drop (key.getD 0) = rest) :
    (answer pages ⟨key, none⟩).items = rest.headD [] ∧
      (answer pages ⟨key, none⟩).lastEvaluatedKey =
        if rest.tail = [] then none else some (key.getD 0 + 1) := by
  subst h
  constructor
  · simp [answer, List.headD_eq_head?_getD, List.head?_drop, List.getD_eq_getElem?_getD]
  · have htail : (pages.drop (key.getD 0)).tail = [] ↔ ¬ key.getD 0 + 1 < pages.length := by
      rw [List.tail_drop, List.drop_eq_nil_iff]
      omega
    simp only [answer, htail, ite_not]

theorem map_fst_append {items : List ρ} {result : Except Exc (List ρ × ResultSet ρ)}
    {tail : List ρ} (h : result.map Prod.fst = .ok tail) :
    (result.map fun (rest, r') => (items ++ rest, r')).map Prod.fst = .ok (items ++ tail) := by
  cases result with
  | error e => cases h
  | ok result =>
    simp only [Except.map, Except.ok.injEq] at h ⊢
    rw [h]

/-- Only the pages before the first empty one are read. -/
theorem toList_pages (h : Follows pages query r.closure) (hr : r.Spent)
    (hpages : pages.drop (r.nextKey.getD 0) = rest) (hfuel : (beforeEmpty rest).length < fuel) :
    (r.toList query fuel).map Prod.fst = .ok (beforeEmpty rest) := by
  induction rest generalizing r fuel with
  | nil =>
    obtain ⟨fuel, rfl⟩ := Nat.exists_eq_add_one_of_ne_zero (Nat.ne_zero_of_lt hfuel)
    rw [toList_empty hr (h _) rfl (answer_of_drop _ hpages).1]
    rfl
  | cons page rest ih =>
    obtain ⟨hitems, hkey⟩ := answer_of_drop _ hpages
    by_cases hpage : page = []
    · obtain ⟨fuel, rfl⟩ := Nat.exists_eq_add_one_of_ne_zero (Nat.ne_zero_of_lt hfuel)
      rw [toList_empty hr (h _) rfl (hitems.trans hpage), hpage, beforeEmpty_cons_nil]
      rfl
    · rw [beforeEmpty_cons hpage, List.length_append] at hfuel
      obtain ⟨left, rfl⟩ := Nat.exists_eq_add_of_le (Nat.le_of_lt (by omega : page.length < fuel))
      have hused : ((r.used (answer pages ⟨r.nextKey, none⟩) r.closure).toList query left).map
          Prod.fst = .ok (beforeEmpty rest) := by
        cases rest with
        | nil =>
          obtain ⟨left, rfl⟩ := Nat.exists_eq_add_one_of_ne_zero (by omega : left ≠ 0)
          exact congrArg (Except.map Prod.fst) (toList_last
            (r := r.used (answer pages ⟨r.nextKey, none⟩) r.closure) hr.1 rfl rfl hkey)
        | cons page' rest =>
          refine ih h ⟨hr.1, .inr ⟨_, rfl, rfl, ?_⟩⟩ ?_ (by omega)
          · exact (congrArg Option.isSome hkey).trans rfl
          · have hnext : (r.used (answer pages ⟨r.nextKey, none⟩) r.closure).nextKey =
                some (r.nextKey.getD 0 + 1) := hkey
            rw [hnext, Option.getD_some, ← List.drop_drop, hpages]
            rfl
      have hlist : r.toList query ((answer pages ⟨r.nextKey, none⟩).items.length + left) = _ :=
        toList_page hr (h _) (hitems ▸ hpage)
      rw [hitems, List.headD_cons] at hlist
      rw [hlist, beforeEmpty_cons hpage]
      exact map_fst_append hused

theorem follows_scan : Follows pages (Source.scan.queryFunction pages) ⟨none, ⟨none, none⟩, []⟩ :=
  fun _ => rfl

theorem follows_query : Follows pages ((Source.query none).queryFunction pages)
    ⟨none, ⟨none, none⟩, []⟩ := by
  intro key
  cases key <;> rfl

theorem readAll_scan (pages : List (List ρ)) :
    Source.scan.readAll pages = .ok (beforeEmpty pages) :=
  toList_pages follows_scan ⟨rfl, .inl rfl⟩ rfl (Nat.lt_succ_of_le (beforeEmpty_length pages))

theorem readAll_query (pages : List (List ρ)) :
    (Source.query none).readAll pages = .ok (beforeEmpty pages) :=
  toList_pages follows_query ⟨rfl, .inl rfl⟩ rfl (Nat.lt_succ_of_le (beforeEmpty_length pages))

section

variable {start : ℕ}

/-- The set of a query with a start key, before its first request. -/
def resumed (start : ℕ) : ResultSet ρ := ddbQuery none (some start) []

/-- And once the items of the first page are used up. -/
def resumedOnce (pages : List (List ρ)) (start : ℕ) : ResultSet ρ :=
  (resumed start).used (answer pages ⟨some start, none⟩) (resumed start : ResultSet ρ).closure

theorem resumed_request (pages : List (List ρ)) (start : ℕ) :
    queryFunctionWith (pageClient pages) (resumed start : ResultSet ρ).nextKey
      (resumed start : ResultSet ρ).closure =
        .ok (some (answer pages ⟨some start, none⟩, (resumed start : ResultSet ρ).closure)) := rfl

theorem readAll_resumed_empty (h : (pages.drop start).headD [] = []) :
    (Source.query (some start)).readAll pages = .ok [] := by
  have hitems := (answer_of_drop (some start) (show pages.drop start = _ from rfl)).1
  exact congrArg (Except.map Prod.fst)
    (toList_empty ⟨rfl, .inl rfl⟩ (resumed_request pages start) rfl (hitems.trans h))

/-- There is no second request. -/
theorem toList_resumedOnce (hkey : (resumedOnce pages start).nextKey.isSome) :
    (resumedOnce pages start).toList (queryFunctionWith (pageClient pages)) (fuel + 1) =
      .error .typeError := by
  apply toList_error
  rw [hasNext_spent ⟨rfl, .inr ⟨_, rfl, rfl, hkey⟩⟩, fetch]
  obtain ⟨key, hkey⟩ := Option.isSome_iff_exists.mp hkey
  rw [hkey]
  rfl

theorem readAll_resumed (hpages : pages.drop start = page :: rest) (hpage : page ≠ []) :
    (Source.query (some start)).readAll pages =
      if rest = [] then .ok page else .error .typeError := by
  obtain ⟨hitems, hkey⟩ := answer_of_drop (some start) hpages
  have hmem : page ∈ pages := List.mem_of_mem_drop (hpages ▸ List.mem_cons_self)
  obtain ⟨left, hleft⟩ := Nat.exists_eq_add_of_le (List.sublist_flatten_of_mem hmem).length_le
  have hlist : ∀ fuel, (resumed start).toList (queryFunctionWith (pageClient pages))
      ((answer pages ⟨some start, none⟩).items.length + fuel) =
        ((resumedOnce pages start).toList (queryFunctionWith (pageClient pages)) fuel).map
          fun (rest, r') => ((answer pages ⟨some start, none⟩).items ++ rest, r') :=
    fun fuel => toList_page ⟨rfl, .inl rfl⟩ (resumed_request pages start) (hitems ▸ hpage)
  rw [hitems, List.headD_cons] at hlist
  rw [Source.readAll, hleft, Nat.add_assoc]
  refine (congrArg (Except.map Prod.fst) (hlist _)).trans ?_
  by_cases hrest : rest = []
  · rw [if_pos hrest, toList_last (r := resumedOnce pages start) rfl rfl rfl
      (hkey.trans (if_pos hrest))]
    simp [Except.map]
  · rw [if_neg hrest, toList_resumedOnce ((congrArg _ (hkey.trans (if_neg hrest))).trans rfl)]
    rfl

end

/-- When every page is read: no page with items comes after an empty one, and a query that was
given a start key makes one request only. -/
def Source.ReadsAll (source : Source) (pages : List (List ρ)) : Prop :=
  match source with
  | .query (some _) =>
    (source.pages pages).length ≤ 1 ∨ (source.pages pages).flatten = []
  | _ => EmptyOnlyAtEnd (source.pages pages)

/-- A set without a limit reads all its pages exactly where no page with items comes after an
empty one, and a query with a start key besides only where its first request is the last. -/
theorem reads_all_pages_iff (source : Source) (pages : List (List ρ)) :
    source.readAll pages = .ok (source.pages pages).flatten ↔ source.ReadsAll pages := by
  match source with
  | .scan =>
    rw [readAll_scan, Except.ok.injEq]
    exact beforeEmpty_eq_flatten_iff
  | .query none =>
    rw [readAll_query, Except.ok.injEq]
    exact beforeEmpty_eq_flatten_iff
  | .query (some start) =>
    simp only [Source.ReadsAll, Source.pages, Option.getD_some]
    generalize hpages : pages.drop start = left
    match left with
    | [] =>
      rw [readAll_resumed_empty (by rw [hpages]; rfl)]
      simp
    | [] :: rest =>
      rw [readAll_resumed_empty (by rw [hpages]; rfl), Except.ok.injEq, eq_comm]
      refine ⟨.inr, fun h => h.elim (fun hlen => ?_) id⟩
      have hrest : rest = [] :=
        List.eq_nil_of_length_eq_zero (Nat.le_zero.mp (Nat.le_of_succ_le_succ hlen))
      rw [hrest]
      rfl
    | (item :: items) :: rest =>
      rw [readAll_resumed hpages (List.cons_ne_nil _ _)]
      cases rest <;> simp

/-- The filter empties the first of two pages, and the item on the second is not read. -/
theorem item_after_empty_page_missed : ¬ ∀ (source : Source) (pages : List (List ℕ)),
    source.readAll pages = .ok (source.pages pages).flatten := by
  intro h
  have hread : Except.ok (beforeEmpty [[], [1]]) = Except.ok [1] :=
    (readAll_scan _).symm.trans (h .scan [[], [1]])
  cases hread

end ShimService.Paging
