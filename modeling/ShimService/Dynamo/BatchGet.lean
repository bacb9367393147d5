import Mathlib.Data.List.Dedup
import ShimService.Keys.CompoundKey
import ShimService.Library.Expression

/-!
Reading rows by their keys in one batch. The requests are grouped by physical table, the service
answers in rounds and in no order, and each row is matched back to its request by its key.
-/
namespace ShimService.BatchGet

open Keys
open Expression (IsName parseProjection)

variable {reserved : List String} {β ρ γ : Type}

/-- What a batch needs of a repository; `virtualTable` is set where it shares a physical table. -/
structure Repo (reserved : List String) (β ρ : Type) where
  tableName : String
  primaryKey : CompoundKey
  named : ∀ key ∈ primaryKey.keys, IsName reserved key.attributeName
  virtualTable : Option VirtualTable
  initializer : Item β → Option ρ

def Repo.deserializeRecord (repo : Repo reserved β ρ) (item : Item β) : Option ρ :=
  (repo.primaryKey.prepForDeserialization item).bind repo.initializer

/-- An attribute of a projection. -/
abbrev AttributeName (reserved : List String) := { name : String // IsName reserved name }

/-- `keys` is the key as a dictionary. A projection names an attribute at least; without one the
whole row is read. -/
structure GetItemRequest (reserved : List String) (β ρ : Type) where
  tableName : String
  keys : List (String × Value β)
  nodup : (keys.map Prod.fst).Nodup
  consistent : Bool
  attributesToGet : Option (List (AttributeName reserved))
  nonempty : attributesToGet ≠ some []
  repo : Repo reserved β ρ

/-- `GetItemRequest.__init__`. An empty projection is none. -/
def GetItemRequest.init (tableName : String) (keys : List (String × Value β))
    (nodup : (keys.map Prod.fst).Nodup) (consistent : Bool)
    (attributesToGet : Option (List (AttributeName reserved))) (repo : Repo reserved β ρ) :
    GetItemRequest reserved β ρ where
  tableName := tableName
  keys := keys
  nodup := nodup
  consistent := consistent
  attributesToGet := attributesToGet.filter (· ≠ [])
  nonempty := by
    intro h
    simpa using (Option.filter_eq_some_iff.mp h).2
  repo := repo

namespace Repo

/-- The attributes of a built key, as a dictionary. -/
def keyDict (repo : Repo reserved β ρ) (key : Item β) : List (String × Value β) :=
  repo.primaryKey.keys.filterMap fun k => (key k.attributeName).map (k.attributeName, ·)

def keyNames (repo : Repo reserved β ρ) : List (AttributeName reserved) :=
  repo.primaryKey.keys.attach.map fun key => ⟨key.1.attributeName, repo.named key.1 key.2⟩

theorem keyDict_sublist (repo : Repo reserved β ρ) (key : Item β) :
    ((repo.keyDict key).map Prod.fst).Sublist (repo.primaryKey.keys.map Key.attributeName) := by
  rw [keyDict]
  induction repo.primaryKey.keys with
  | nil => exact List.Sublist.refl _
  | cons k keys ih =>
    cases hk : key k.attributeName with
    | none => simpa [hk] using ih.cons k.attributeName
    | some value => simpa [hk] using ih

theorem keyDict_nodup (repo : Repo reserved β ρ) (key : Item β) :
    ((repo.keyDict key).map Prod.fst).Nodup := by
  have hname : ∀ k : Key, k.attributeName ∈ k.attributes := by
    intro k
    cases k <;> simp [Key.attributeName, Key.attributes]
  refine (repo.keyDict_sublist key).nodup ?_
  have hdistinct := repo.primaryKey.distinct
  rw [CompoundKey.keys]
  cases hrange : repo.primaryKey.rangeKey with
  | none => simp
  | some range =>
    rw [hrange] at hdistinct
    have hne := List.disjoint_of_nodup_append hdistinct (hname repo.primaryKey.hashKey)
    simp only [Option.toList_some, List.map_cons, List.map_nil, List.nodup_cons,
      List.mem_singleton, List.not_mem_nil, not_false_eq_true, List.nodup_nil, and_true]
    intro heq
    exact hne (heq ▸ hname range)

/-- `create_get_item_request_from_args`; it refuses a projection in a virtual table. The key
attributes join a projection, so that the rows can be matched up later. -/
def createGetItemRequestFromArgs [ToString β] (repo : Repo reserved β ρ) (args : List (Value β))
    (consistent : Bool) (attributesToGet : Option (List (AttributeName reserved))) :
    Option (GetItemRequest reserved β ρ) :=
  match repo.primaryKey.buildKeyFromArgs args with
  | none => none
  | some (key, _) =>
    if repo.virtualTable.isSome ∧ attributesToGet.any (· ≠ []) then none
    else some <| GetItemRequest.init repo.tableName (repo.keyDict key) (repo.keyDict_nodup key)
      consistent (attributesToGet.map fun names => (names ++ repo.keyNames).dedup) repo

/-- What the requests that a repository makes promise of their projections. -/
theorem createGetItemRequestFromArgs_includesKeys [ToString β] {repo : Repo reserved β ρ}
    {args : List (Value β)} {consistent : Bool}
    {attributesToGet : Option (List (AttributeName reserved))}
    {request : GetItemRequest reserved β ρ} {names : List (AttributeName reserved)}
    (h : repo.createGetItemRequestFromArgs args consistent attributesToGet = some request)
    (hnames : request.attributesToGet = some names) :
    ∀ key ∈ request.keys, key.1 ∈ names.map Subtype.val := by
  unfold createGetItemRequestFromArgs at h
  split at h
  · cases h
  · split at h
    · cases h
    · cases h
      obtain ⟨hmap, -⟩ := Option.filter_eq_some_iff.mp hnames
      obtain ⟨asked, -, rfl⟩ := Option.map_eq_some_iff.mp hmap
      intro entry hentry
      obtain ⟨key, hkey, hvalue⟩ := List.mem_filterMap.mp hentry
      obtain ⟨value, -, rfl⟩ := Option.map_eq_some_iff.mp hvalue
      refine List.mem_map.mpr ⟨⟨key.attributeName, repo.named key hkey⟩, ?_, rfl⟩
      rw [List.mem_dedup, List.mem_append]
      exact Or.inr (List.mem_map.mpr ⟨⟨key, hkey⟩, List.mem_attach _ _, rfl⟩)

end Repo

/-- Changes a dictionary's entry, which is `init` where it has none yet. -/
def modifyAt (dictionary : List (String × γ)) (key : String) (init : γ) (f : γ → γ) :
    List (String × γ) :=
  if key ∈ dictionary.map Prod.fst then
    dictionary.map fun entry => if entry.1 = key then (key, f entry.2) else entry
  else dictionary ++ [(key, f init)]

structure TableRequest (β : Type) where
  keys : List (List (String × Value β))
  consistentRead : Bool
  projectionExpression : Option String

def TableRequest.add (table : TableRequest β) (request : GetItemRequest reserved β ρ) :
    TableRequest β where
  keys := table.keys ++ [request.keys]
  consistentRead := table.consistentRead || request.consistent
  projectionExpression :=
    (request.attributesToGet.map fun names => Text.join ',' (names.map Subtype.val)).or
      table.projectionExpression

/-- What the service is asked in one round. -/
abbrev RequestItems (β : Type) := List (String × TableRequest β)

abbrev Results (β : Type) := List (String × List (Item β))

def tableRequests (requests : List (GetItemRequest reserved β ρ)) : RequestItems β :=
  requests.foldl
    (fun tables request => modifyAt tables request.tableName ⟨[], false, none⟩ (·.add request)) []

/-- What the service answers in one round. -/
structure Response (β : Type) where
  responses : Results β
  unprocessedKeys : RequestItems β

def extend (results responses : Results β) : Results β :=
  responses.foldl (fun results (tableName, rows) => modifyAt results tableName [] (· ++ rows))
    results

/-- The loop of `DynamoDb.batch_get`; `none` where the rounds end before the keys do. -/
def getRounds : RequestItems β → List (Response β) → Results β → Option (Results β)
  | [], _, results => some results
  | _ :: _, [], _ => none
  | _ :: _, response :: rounds, results =>
    getRounds response.unprocessedKeys rounds (extend results response.responses)

/-- `DynamoDb.batch_get`. -/
def ddbBatchGet (requests : List (GetItemRequest reserved β ρ)) (rounds : List (Response β)) :
    Option (Results β) :=
  getRounds (tableRequests requests) rounds []

inductive BatchGetResultItem (β ρ : Type)
  | record (entry : ρ)
  | row (item : Item β)

structure BatchGetResult (β ρ : Type) where
  entries : List (Option (BatchGetResultItem β ρ))
  rowCount : ℕ

/-- The locals of `AbstractAwsRepo.batch_get`. -/
structure Matching (reserved : List String) (β ρ : Type) where
  requestsToMatch : List (GetItemRequest reserved β ρ × ℕ)
  resultList : List (Option (BatchGetResultItem β ρ))
  matchCount : ℕ

/-- What a request makes of its row. -/
def GetItemRequest.decode (request : GetItemRequest reserved β ρ) (row : Item β) :
    Option (BatchGetResultItem β ρ) :=
  match request.attributesToGet with
  | none => (request.repo.deserializeRecord row).map .record
  | some _ => some (.row row)

variable [DecidableEq β]

def keyMatches (rowKey : Item β) (trackerKey : List (String × Value β)) : Bool :=
  trackerKey.all fun (name, value) => rowKey name = some value

/-- The first request that the row matches, and the others. -/
def findMatch (tableName : String) (rowKey : Item β) :
    List (GetItemRequest reserved β ρ × ℕ) →
      Option ((GetItemRequest reserved β ρ × ℕ) × List (GetItemRequest reserved β ρ × ℕ))
  | [] => none
  | entry :: rest =>
    if entry.1.tableName = tableName ∧ keyMatches rowKey entry.1.keys then some (entry, rest)
    else (findMatch tableName rowKey rest).map fun (found, rest) => (found, entry :: rest)

def matchRow (tableName : String) (m : Matching reserved β ρ) (row : Item β) :
    Option (Matching reserved β ρ) :=
  match findMatch tableName row m.requestsToMatch with
  | none => some m
  | some ((request, index), rest) =>
    (request.decode row).map fun entry =>
      ⟨rest, m.resultList.set index (some entry), m.matchCount + 1⟩

/-- `AbstractAwsRepo.batch_get`; `none` where a row cannot be deserialized. -/
def batchGet (requests : List (GetItemRequest reserved β ρ)) (rounds : List (Response β)) :
    Option (BatchGetResult β ρ) := do
  let results ← ddbBatchGet requests rounds
  let m ← results.foldlM
    (fun m (tableName, rows) =>
      if rows.length < 1 then some m else rows.foldlM (matchRow tableName) m)
    ⟨requests.zipIdx, List.replicate requests.length none, 0⟩
  return ⟨m.resultList, m.matchCount⟩

/-- A physical table of the service, with the names of its key attributes. -/
structure Table (β : Type) where
  keyNames : List String
  items : List (Item β)

def Table.find (table : Table β) (key : List (String × Value β)) : Option (Item β) :=
  table.items.find? (keyMatches · key)

def restrict (names : List String) (item : Item β) : Item β := fun name =>
  if name ∈ names then item name else none

/-- What a projection leaves of an item; `none` where the service cannot read it. -/
def projection (reserved : List String) : Option String → Option (Item β → Item β)
  | none => some id
  | some expression => (parseProjection reserved expression).map restrict

def TableRequest.rows (reserved : List String) (table : Table β) (request : TableRequest β) :
    List (Item β) :=
  request.keys.filterMap fun key =>
    (table.find key).map ((projection reserved request.projectionExpression).getD id)

/-- One round of the service as it is documented. Of each table it reads some of the keys and
hands the others back, to be asked for in the same way; it returns the rows it has read in any
order, and it refuses keys that do not fit the table. -/
structure Answers (reserved : List String) (store : String → Table β) (items : RequestItems β)
    (response : Response β) : Prop where
  fits : ∀ table ∈ items,
    (projection reserved table.2.projectionExpression : Option (Item β → Item β)).isSome ∧
    ∀ key ∈ table.2.keys, (key.map Prod.fst).Perm (store table.1).keyNames
  read : ∀ table ∈ items, ∃ processed,
    (processed ++ ((response.unprocessedKeys.lookup table.1).elim [] TableRequest.keys)).Perm
      table.2.keys ∧
    ((response.responses.lookup table.1).getD []).Perm
      (TableRequest.rows reserved (store table.1) { table.2 with keys := processed })
  kept : ∀ table ∈ response.unprocessedKeys, ∃ request, (table.1, request) ∈ items ∧
    table.2.projectionExpression = request.projectionExpression
  asked : ∀ name ∈ response.responses.map Prod.fst, name ∈ items.map Prod.fst
  responsesNodup : (response.responses.map Prod.fst).Nodup
  unprocessedNodup : (response.unprocessedKeys.map Prod.fst).Nodup

/-- Rounds after which no key is left. -/
inductive Answered (reserved : List String) (store : String → Table β) :
    RequestItems β → List (Response β) → Prop
  | done : Answered reserved store [] []
  | round {items : RequestItems β} {response : Response β} {rounds : List (Response β)}
      (hne : items ≠ []) (h : Answers reserved store items response)
      (rest : Answered reserved store response.unprocessedKeys rounds) :
      Answered reserved store items (response :: rounds)

/-- The entry of a request, by the row that the table has for it. -/
def GetItemRequest.entry (store : String → Table β) (request : GetItemRequest reserved β ρ) :
    Option (Option (BatchGetResultItem β ρ)) :=
  match (store request.tableName).find request.keys with
  | none => some none
  | some row =>
    match request.attributesToGet with
    | none => (request.repo.deserializeRecord row).map fun entry => some (.record entry)
    | some names => some (some (.row (restrict (names.map Subtype.val) row)))

end ShimService.BatchGet
