import Mathlib.Logic.Function.Basic
import ShimService.Library.ItemUpdate

/-!
How an update is written, by `update_item` as one call and by `UpdateItemRequest` as a part of a
transaction. Both join the condition of the caller with one of their own on the key.
-/
namespace ShimService.DynamoDb

open Expression

variable {reserved : List String} {ν α : Type}

/-- A dictionary of attributes, in the order of its insertions. Its names are ones that an
expression can spell. -/
structure Attributes (reserved : List String) (ν : Type) where
  items : List (String × ν)
  named : ∀ item ∈ items, IsName reserved item.1
  nodup : (items.map Prod.fst).Nodup

/-- A primary key; it has a hash attribute at least. -/
structure KeyAttributes (reserved : List String) (ν : Type) extends Attributes reserved ν where
  nonempty : items ≠ []

inductive Condition (reserved : List String) (ν : Type)
  | dict (attributes : Attributes reserved ν)
  | statement (statement : String) (bindVars : List (String × ν))

/-- What the client is called with. -/
structure Params (α : Type) where
  tableName : String
  key : List (String × α)
  updateExpression : Option String
  returnConsumedCapacity : Option String
  returnItemCollectionMetrics : Option String
  conditionExpression : Option String
  expressionAttributeValues : Option (List (String × α))

/-- `dictionary[key] = value`. -/
def setItem (dictionary : List (String × α)) (key : String) (value : α) : List (String × α) :=
  if key ∈ dictionary.map Prod.fst then
    dictionary.map fun entry => if entry.1 = key then (key, value) else entry
  else dictionary ++ [(key, value)]

/-- `_to_ddb_item`. A value's type picks its conversion, and the names stay. -/
def toDdbItem (toAttributeValue : ν → α) (entry : List (String × ν)) : List (String × α) :=
  entry.map fun (key, value) => (key, toAttributeValue value)

/-- The loop of `_process_condition`. -/
def conditionLoop : List (String × α) → ℕ → String → List (String × α) →
    String × List (String × α)
  | [], _, expr, bindVars => (expr, bindVars)
  | (key, value) :: items, counter, expr, bindVars =>
    let expr := if counter > 1 then expr ++ " AND " else expr
    let bindName := ":c" ++ toString counter
    conditionLoop items (counter + 1) (expr ++ (key ++ " = " ++ bindName))
      (setItem bindVars bindName value)

def processCondition (toAttributeValue : ν → α) (condition : Condition reserved ν)
    (params : Params α) : Params α :=
  let (statement, bindVars) :=
    match condition with
    | .statement statement bindVars => (statement, toDdbItem toAttributeValue bindVars)
    | .dict attributes => conditionLoop (toDdbItem toAttributeValue attributes.items) 1 "" []
  { params with conditionExpression := some statement, expressionAttributeValues := some bindVars }

/-- The statement that one more test is appended to. -/
def andThen (statement : String) : String :=
  if statement.length > 0 then statement ++ " AND " else statement

def mergeKeyCondition (keys : List String) (params : Params α) : Params α :=
  let statement := keys.foldl
    (fun statement key => andThen statement ++ ("attribute_exists(" ++ key ++ ")"))
    (params.conditionExpression.getD "")
  { params with conditionExpression := some statement }

/-- A key's placeholders are numbered on from the number of variables bound so far. -/
def keyLoop (keys : List (String × α)) (statement : String) (bindVars : List (String × α)) :
    String × List (String × α) :=
  keys.foldl
    (fun (statement, bindVars) (key, value) =>
      let bindName := ":k" ++ toString bindVars.length
      (andThen statement ++ (key ++ " = " ++ bindName), setItem bindVars bindName value))
    (statement, bindVars)

def mergeKeyAttributes (keys : List (String × α)) (params : Params α) : Params α :=
  let (statement, bindVars) := keyLoop keys (params.conditionExpression.getD "")
    (params.expressionAttributeValues.getD [])
  { params with conditionExpression := some statement, expressionAttributeValues := some bindVars }

def mergeAttributes (params : Params α) (attributes : List (String × α)) : Params α :=
  let existing := params.expressionAttributeValues.getD []
  { params with
    expressionAttributeValues :=
      some (attributes.foldl (fun existing (key, value) => setItem existing key value) existing) }

/-- The loop over the patch, the same in both; attributes of the key are passed over. -/
def updateLoop (keys : List String) : List (String × α) → ℕ → Option String →
    List (String × α) → Option String × List (String × α)
  | [], _, updateExpression, expressionValues => (updateExpression, expressionValues)
  | (key, value) :: items, counter, updateExpression, expressionValues =>
    if key ∈ keys then updateLoop keys items counter updateExpression expressionValues
    else
      let start := updateExpression.elim "SET " fun expression => expression ++ ", "
      let bindName := ":v" ++ toString counter
      updateLoop keys items (counter + 1) (some (start ++ (key ++ " = " ++ bindName)))
        (setItem expressionValues bindName value)

/-- The call that `update_item` makes. -/
def updateItem (toAttributeValue : ν → α) (tableName : String) (keys : KeyAttributes reserved ν)
    (item : Attributes reserved ν) (condition : Option (Condition reserved ν)) : Params α :=
  let keyNames := keys.items.map Prod.fst
  let (updateExpression, expressionValues) :=
    updateLoop keyNames (toDdbItem toAttributeValue item.items) 1 none []
  let params : Params α :=
    { tableName
      key := toDdbItem toAttributeValue keys.items
      updateExpression
      returnConsumedCapacity := some "TOTAL"
      returnItemCollectionMetrics := some "SIZE"
      conditionExpression := none
      expressionAttributeValues := none }
  let params := condition.elim params fun condition =>
    processCondition toAttributeValue condition params
  mergeAttributes (mergeKeyCondition keyNames params) expressionValues

structure UpdateItemRequest (reserved : List String) (ν : Type) where
  tableName : String
  keys : KeyAttributes reserved ν
  item : Attributes reserved ν
  condition : Option (Condition reserved ν)
  mustExist : Bool

def UpdateItemRequest.toDdbRequest (toAttributeValue : ν → α)
    (request : UpdateItemRequest reserved ν) : Params α :=
  let ddbKey := toDdbItem toAttributeValue request.keys.items
  let (updateExpression, expressionValues) :=
    updateLoop (request.keys.items.map Prod.fst)
      (toDdbItem toAttributeValue request.item.items) 1 none []
  let params : Params α :=
    { tableName := request.tableName
      key := ddbKey
      updateExpression
      returnConsumedCapacity := none
      returnItemCollectionMetrics := none
      conditionExpression := none
      expressionAttributeValues := none }
  let params := request.condition.elim params fun condition =>
    processCondition toAttributeValue condition params
  let params := if request.mustExist then mergeKeyAttributes ddbKey params else params
  mergeAttributes params expressionValues

/-- What the service reads of a call. -/
def Params.request (params : Params α) : UpdateRequest α :=
  ⟨params.key, params.updateExpression, params.conditionExpression,
    params.expressionAttributeValues.getD []⟩

/-- The service's tables after the call, or the same update alone in a transaction. -/
def Params.execute [BEq α] (reserved : List String) (params : Params α)
    (tables : String → List (Item α)) : Except Rejection (String → List (Item α)) :=
  (params.request.apply reserved (tables params.tableName)).map
    (Function.update tables params.tableName)

end ShimService.DynamoDb
