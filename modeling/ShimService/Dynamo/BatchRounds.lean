import Mathlib.Data.List.Induction
import ShimService.Dynamo.BatchGet
import ShimService.Library.ItemUpdate

/-! What the rounds of a batch return, all together. -/
namespace ShimService.BatchGet

open Keys
open Expression (lookup_of_mem parseProjection_join)

variable {reserved : List String} {β ρ γ : Type} {name key : String}

section Dictionaries

variable {dictionary : List (String × γ)} {init : γ} {f : γ → γ}

theorem lookup_map_entry (dictionary : List (String × γ)) (key name : String) (f : γ → γ) :
    (dictionary.map fun entry => if entry.1 = key then (key, f entry.2) else entry).lookup name =
      if name = key then (dictionary.lookup key).map f else dictionary.lookup name := by
  induction dictionary with
  | nil => split <;> rfl
  | cons entry dictionary ih =>
    obtain ⟨first, value⟩ := entry
    rw [List.map_cons]
    by_cases hfirst : first = key
    · subst hfirst
      by_cases hname : name = first
      · simp [hname]
      · simp [List.lookup_cons, hname, ih, beq_false_of_ne hname]
    · by_cases hname : name = key
      · subst hname
        simp [List.lookup_cons, hfirst, Ne.symm hfirst, ih, beq_false_of_ne]
      · simp [List.lookup_cons, hfirst, hname, ih]

theorem lookup_eq_none (h : key ∉ dictionary.map Prod.fst) : dictionary.lookup key = none := by
  rw [List.lookup_eq_none_iff]
  intro entry hentry
  rw [bne_iff_ne]
  rintro rfl
  exact h (List.mem_map_of_mem hentry)

theorem mem_of_lookup {value : γ} (h : dictionary.lookup key = some value) :
    (key, value) ∈ dictionary := by
  obtain ⟨pre, post, rfl, -⟩ := List.lookup_eq_some_iff.mp h
  simp

theorem lookup_modifyAt (dictionary : List (String × γ)) (key name : String) (init : γ)
    (f : γ → γ) :
    (modifyAt dictionary key init f).lookup name =
      if name = key then some (f ((dictionary.lookup key).getD init))
      else dictionary.lookup name := by
  unfold modifyAt
  by_cases hmem : key ∈ dictionary.map Prod.fst
  · obtain ⟨entry, hentry, rfl⟩ := List.mem_map.mp hmem
    have hsome : (dictionary.lookup entry.1).isSome := by
      rw [List.lookup_isSome_iff]
      exact ⟨entry, hentry, by simp⟩
    obtain ⟨value, hvalue⟩ := Option.isSome_iff_exists.mp hsome
    rw [if_pos hmem, lookup_map_entry, hvalue]
    rfl
  · rw [if_neg hmem, List.lookup_append, lookup_eq_none hmem]
    by_cases hname : name = key
    · simp [hname, lookup_eq_none hmem]
    · simp [hname, List.lookup_cons, beq_false_of_ne hname]

theorem modifyAt_nodup (h : (dictionary.map Prod.fst).Nodup) (key : String) (init : γ)
    (f : γ → γ) : ((modifyAt dictionary key init f).map Prod.fst).Nodup := by
  unfold modifyAt
  split
  · have hsame : Prod.fst ∘ (fun entry : String × γ =>
        if entry.1 = key then (key, f entry.2) else entry) = Prod.fst := by
      funext entry
      by_cases hentry : entry.1 = key <;> simp [hentry]
    rw [List.map_map, hsame]
    exact h
  · rw [List.map_append, List.nodup_append]
    refine ⟨h, by simp, ?_⟩
    intro a ha b hb heq
    simp_all

end Dictionaries

theorem lookup_extend {results responses : Results β} (h : (responses.map Prod.fst).Nodup)
    (name : String) :
    ((extend results responses).lookup name).getD [] =
      (results.lookup name).getD [] ++ (responses.lookup name).getD [] := by
  unfold extend
  induction responses generalizing results with
  | nil => simp
  | cons response responses ih =>
    obtain ⟨table, rows⟩ := response
    rw [List.map_cons, List.nodup_cons] at h
    rw [List.foldl_cons, ih h.2, lookup_modifyAt, List.lookup_cons]
    by_cases hname : name = table
    · subst hname
      simp [lookup_eq_none h.1]
    · simp [hname, beq_false_of_ne hname]

theorem extend_nodup {results : Results β} (h : (results.map Prod.fst).Nodup)
    (responses : Results β) : ((extend results responses).map Prod.fst).Nodup := by
  unfold extend
  induction responses generalizing results with
  | nil => exact h
  | cons response responses ih => exact ih (modifyAt_nodup h _ _ _)

section Rounds

variable [DecidableEq β] {store : String → Table β} {items : RequestItems β}
  {response : Response β} {rounds : List (Response β)}

theorem rows_append (table : Table β) (request : TableRequest β)
    (keys keys' : List (List (String × Value β))) :
    TableRequest.rows reserved table { request with keys := keys ++ keys' } =
      TableRequest.rows reserved table { request with keys := keys } ++
        TableRequest.rows reserved table { request with keys := keys' } :=
  List.filterMap_append

theorem rows_perm (table : Table β) (request : TableRequest β)
    {keys : List (List (String × Value β))} (hkeys : keys.Perm request.keys) :
    (TableRequest.rows reserved table { request with keys := keys }).Perm
      (request.rows reserved table) :=
  hkeys.filterMap _

/-- One round returns the rows of the keys that it does not hand back. -/
theorem answers_rows (h : Answers reserved store items response)
    (hnodup : (items.map Prod.fst).Nodup) (name : String) :
    ((response.responses.lookup name).getD [] ++ (response.unprocessedKeys.lookup name).elim []
      (TableRequest.rows reserved (store name))).Perm
      ((items.lookup name).elim [] (TableRequest.rows reserved (store name))) := by
  cases hitems : items.lookup name with
  | none =>
    have hnot : name ∉ items.map Prod.fst := by
      intro hmem
      obtain ⟨table, htable, rfl⟩ := List.mem_map.mp hmem
      rw [lookup_of_mem hnodup htable] at hitems
      cases hitems
    have hresponse := lookup_eq_none fun hmem => hnot (h.asked name hmem)
    have hunprocessed : response.unprocessedKeys.lookup name = none := by
      refine lookup_eq_none fun hmem => hnot ?_
      obtain ⟨table, htable, rfl⟩ := List.mem_map.mp hmem
      obtain ⟨request, hrequest, -⟩ := h.kept table htable
      exact List.mem_map.mpr ⟨_, hrequest, rfl⟩
    simp [hresponse, hunprocessed]
  | some request =>
    obtain ⟨processed, hkeys, hrows⟩ := h.read _ (mem_of_lookup hitems)
    refine (hrows.append_right _).trans ?_
    cases hunprocessed : response.unprocessedKeys.lookup name with
    | none =>
      rw [hunprocessed, Option.elim_none, List.append_nil] at hkeys
      simpa using rows_perm (store name) request hkeys
    | some left =>
      obtain ⟨request', hrequest', hprojection⟩ := h.kept _ (mem_of_lookup hunprocessed)
      obtain rfl : request' = request := by
        have hlookup := lookup_of_mem hnodup hrequest'
        rw [hitems] at hlookup
        exact (Option.some.inj hlookup).symm
      rw [hunprocessed, Option.elim_some] at hkeys
      have hleft : left.rows reserved (store name) =
          TableRequest.rows reserved (store name) { request' with keys := left.keys } := by
        rw [TableRequest.rows, TableRequest.rows, hprojection]
      rw [Option.elim_some, Option.elim_some, hleft, ← rows_append]
      exact rows_perm (store name) request' hkeys

/-- By induction on the rounds: the rows collected so far and those still to come are always the
rows of all the keys. -/
theorem getRounds_spec (h : Answered reserved store items rounds)
    (hnodup : (items.map Prod.fst).Nodup) (results : Results β)
    (hresults : (results.map Prod.fst).Nodup) :
    ∃ final, getRounds items rounds results = some final ∧ (final.map Prod.fst).Nodup ∧
      ∀ name, ((final.lookup name).getD []).Perm ((results.lookup name).getD [] ++
        (items.lookup name).elim [] (TableRequest.rows reserved (store name))) := by
  induction h generalizing results with
  | done => exact ⟨results, rfl, hresults, fun name => by simp⟩
  | @round items response rounds hne hanswers _ ih =>
    obtain ⟨final, hfinal, hfinalNodup, hrows⟩ :=
      ih hanswers.unprocessedNodup _ (extend_nodup hresults response.responses)
    obtain ⟨table, items, rfl⟩ := List.exists_cons_of_ne_nil hne
    refine ⟨final, hfinal, hfinalNodup, fun name => ?_⟩
    refine (hrows name).trans ?_
    rw [lookup_extend hanswers.responsesNodup, List.append_assoc]
    exact (answers_rows hanswers hnodup name).append_left _

end Rounds

section Grouping

variable {requests : List (GetItemRequest reserved β ρ)}
  {request request' : GetItemRequest reserved β ρ}

/-- The requests read the same attributes, in whichever order they name them. -/
def SameProjection (request request' : GetItemRequest reserved β ρ) : Prop :=
  match request.attributesToGet, request'.attributesToGet with
  | none, none => True
  | some names, some names' => ∀ name, name ∈ names ↔ name ∈ names'
  | _, _ => False

def GetItemRequest.project (request : GetItemRequest reserved β ρ) (item : Item β) : Item β :=
  request.attributesToGet.elim item fun names => restrict (names.map Subtype.val) item

def GetItemRequest.expression (request : GetItemRequest reserved β ρ) : Option String :=
  request.attributesToGet.map fun names => Text.join ',' (names.map Subtype.val)

theorem SameProjection.project_eq (h : SameProjection request request') :
    request.project = request'.project := by
  funext item
  unfold SameProjection at h
  unfold GetItemRequest.project
  split at h
  · rename_i hnone hnone'
    rw [hnone, hnone']
  · rename_i names names' hnames hnames'
    rw [hnames, hnames']
    funext name
    have hsame : name ∈ names.map Subtype.val ↔ name ∈ names'.map Subtype.val := by
      simp only [List.mem_map, h]
    simp only [Option.elim_some, restrict, hsame]
  · exact absurd h id

theorem SameProjection.expression_none (h : SameProjection request request')
    (hnone : request.expression = none) : request'.expression = none := by
  unfold GetItemRequest.expression at hnone ⊢
  rw [Option.map_eq_none_iff] at hnone ⊢
  unfold SameProjection at h
  split at h
  · assumption
  · simp_all
  · exact absurd h id

/-- The service reads a request's projection as it was meant. -/
theorem projection_expression (request : GetItemRequest reserved β ρ) :
    (projection reserved request.expression).getD id = request.project := by
  unfold GetItemRequest.expression GetItemRequest.project
  cases hnames : request.attributesToGet with
  | none => rfl
  | some names =>
    have hne : names.map Subtype.val ≠ [] := by
      have hnonempty := request.nonempty
      rw [hnames] at hnonempty
      rw [Ne, List.map_eq_nil_iff]
      simpa using hnonempty
    have hparse := parseProjection_join hne fun name hname => by
      obtain ⟨name, -, rfl⟩ := List.mem_map.mp hname
      exact name.2
    rw [Option.map_some, projection, hparse]
    rfl

def joinTable (table : Option (TableRequest β)) (request : GetItemRequest reserved β ρ) :
    Option (TableRequest β) := some ((table.getD ⟨[], false, none⟩).add request)

theorem lookup_tableRequests (requests : List (GetItemRequest reserved β ρ)) (name : String) :
    (tableRequests requests).lookup name =
      (requests.filter fun request => request.tableName = name).foldl joinTable none := by
  have hfold : ∀ tables : RequestItems β, (requests.foldl (fun tables request =>
      modifyAt tables request.tableName ⟨[], false, none⟩ (·.add request)) tables).lookup name =
      (requests.filter fun request => request.tableName = name).foldl joinTable
        (tables.lookup name) := by
    induction requests with
    | nil => exact fun _ => rfl
    | cons request requests ih =>
      intro tables
      rw [List.foldl_cons, ih, lookup_modifyAt, List.filter_cons]
      by_cases hname : request.tableName = name
      · simp [hname, joinTable]
      · simp [hname, Ne.symm hname]
  exact hfold []

theorem tableRequests_nodup (requests : List (GetItemRequest reserved β ρ)) :
    ((tableRequests requests).map Prod.fst).Nodup := by
  have hfold : ∀ tables : RequestItems β, (tables.map Prod.fst).Nodup →
      ((requests.foldl (fun tables request => modifyAt tables request.tableName
        ⟨[], false, none⟩ (·.add request)) tables).map Prod.fst).Nodup := by
    induction requests with
    | nil => exact fun _ h => h
    | cons request requests ih => exact fun tables h => ih _ (modifyAt_nodup h _ _ _)
  exact hfold [] List.nodup_nil

/-- One table's requests become one request for all their keys; of the projections, which agree,
the last one stays. -/
theorem foldl_joinTable (hne : requests ≠ [])
    (hsame : ∀ r ∈ requests, ∀ r' ∈ requests, SameProjection r r') :
    ∃ table, requests.foldl joinTable none = some table ∧
      table.keys = requests.map GetItemRequest.keys ∧
      ∃ r ∈ requests, table.projectionExpression = r.expression := by
  induction requests using List.reverseRecOn with
  | nil => exact absurd rfl hne
  | append_singleton requests last ih =>
    rw [List.foldl_append, List.foldl_cons, List.foldl_nil]
    by_cases hrest : requests = []
    · subst hrest
      refine ⟨_, rfl, rfl, last, by simp, ?_⟩
      exact Option.or_none
    · obtain ⟨table, htable, hkeys, r, hr, hexpression⟩ := ih hrest fun r hr r' hr' =>
        hsame r (List.mem_append_left _ hr) r' (List.mem_append_left _ hr')
      refine ⟨_, rfl, ?_, last, by simp, ?_⟩
      · simp [htable, TableRequest.add, hkeys]
      · rw [htable, Option.getD_some]
        change last.expression.or table.projectionExpression = last.expression
        cases hlast : last.expression with
        | some expression => rfl
        | none =>
          have hr' := (hsame last (by simp) r
            (List.mem_append_left _ hr)).expression_none hlast
          rw [hexpression, hr', Option.none_or]

variable [DecidableEq β] {store : String → Table β}

/-- What the service has to return for a request. -/
def GetItemRequest.found (store : String → Table β) (request : GetItemRequest reserved β ρ) :
    Option (Item β) := ((store request.tableName).find request.keys).map request.project

theorem rows_tableRequests
    (hsame : ∀ r ∈ requests, ∀ r' ∈ requests, r.tableName = r'.tableName → SameProjection r r')
    (name : String) :
    ((tableRequests requests).lookup name).elim [] (TableRequest.rows reserved (store name)) =
      (requests.filter fun request => request.tableName = name).filterMap
        (GetItemRequest.found store) := by
  rw [lookup_tableRequests]
  have hmem : ∀ r ∈ requests.filter fun request => request.tableName = name,
      r ∈ requests ∧ r.tableName = name := fun r hr => by simpa using hr
  by_cases hne : (requests.filter fun request => request.tableName = name) = []
  · rw [hne]
    rfl
  · obtain ⟨table, htable, hkeys, r, hr, hexpression⟩ := foldl_joinTable hne
      fun r hr r' hr' => hsame r (hmem r hr).1 r' (hmem r' hr').1
        ((hmem r hr).2.trans (hmem r' hr').2.symm)
    rw [htable, Option.elim_some, TableRequest.rows, hkeys, hexpression, projection_expression,
      List.filterMap_map]
    refine List.filterMap_congr fun r' hr' => ?_
    have hproject := (hsame r (hmem r hr).1 r' (hmem r' hr').1
      ((hmem r hr).2.trans (hmem r' hr').2.symm)).project_eq
    simp only [Function.comp_apply, GetItemRequest.found, hproject, (hmem r' hr').2]

end Grouping

end ShimService.BatchGet
