import ShimService.Collections.FlatIterator
import ShimService.Dynamo.BatchWrite
import ShimService.Keys.Repositories
import ShimService.Threading.AsyncProcessorGroup

/-!
`TableListenerProcessor`: a batch of stream records comes in, and the contexts of the sessions that
were removed are deleted.
-/
namespace ShimService.TableListener

open PyValue AttributeValue Keys Threading Transition BatchWrite
open Collections (flatIterator Yields)

variable {φ : Type}

/-! ### The listener -/

/-- What `[^d]+d` matches at the front, and what is behind it. -/
def field (d : Char) (cs : List Char) : Option (List Char × List Char) :=
  match cs.span (· ≠ d) with
  | ([], _) => none
  | (_, []) => none
  | (name, _ :: rest) => some (name, rest)

def literal (text : String) (cs : List Char) : Option (List Char) :=
  if text.toList.isPrefixOf cs then some (cs.drop text.length) else none

/-! The literal parts of `_REGEX`. -/

def arnStart : String := "arn:aws:dynamodb:"

def tableSlash : String := "table/"

def streamSlash : String := "stream/"

/-- `_REGEX` at the front; a class without the delimiter ends only where the delimiter stands. -/
def matchArn (cs : List Char) : Option String := do
  let cs ← literal arnStart cs
  let (_, cs) ← field ':' cs
  let (_, cs) ← field ':' cs
  let cs ← literal tableSlash cs
  let (name, cs) ← field '/' cs
  let _ ← literal streamSlash cs
  return String.ofList name

/-- `_REGEX.search` finds the first place that matches. -/
def extractTableName (arn : String) : Option String := arn.toList.tails.findSome? matchArn

/-- The ARN of a table's stream; only the label may hold a delimiter. -/
structure StreamArn where
  region : String
  account : String
  table : String
  label : String
  region_ne : region ≠ ""
  region_free : ':' ∉ region.toList
  account_ne : account ≠ ""
  account_free : ':' ∉ account.toList
  table_ne : table ≠ ""
  table_free : '/' ∉ table.toList

def StreamArn.text (arn : StreamArn) : String :=
  arnStart ++ arn.region ++ ":" ++ arn.account ++ ":" ++ tableSlash ++ arn.table ++ "/" ++
    streamSlash ++ arn.label

structure StreamRecord (φ : Type) where
  eventSourceArn : StreamArn
  eventName : String
  keys : Dict φ

/-- An `INSERT` only adds to the new sessions, which a thread of its own takes on. -/
def localFilter (record : StreamRecord φ) : Bool :=
  extractTableName record.eventSourceArn.text = some "ShimServiceSession" &&
    record.eventName = "REMOVE"

def recordsToDelete (records : List (StreamRecord φ)) : List (Dict φ) :=
  (records.filter localFilter).map StreamRecord.keys

/-! ### `AwsSessionContextsRepo` -/

inductive ContextType
  | web
  | liveAgent
  | pushNotifier
  deriving DecidableEq, Repr

def ContextType.value : ContextType → String
  | .web => "W"
  | .liveAgent => "L"
  | .pushNotifier => "P"

/-- The members in the order of their definition. -/
def contextTypes : List ContextType := [.web, .liveAgent, .pushNotifier]

def tableName : String := "ShimServiceVirtualRangeTable"

/-- A value as the keys read it. -/
def keyValue : PyValue.Value φ → Keys.Value (PyValue.Value φ)
  | .int n => .int n
  | .str s => .str s
  | value => .other value

def ofKeyValue : Keys.Value (PyValue.Value φ) → PyValue.Value φ
  | .int n => .int n
  | .str s => .str s
  | .other value => value

/-- A dictionary as the keys read it. -/
def itemOf (record : Dict φ) : Item (PyValue.Value φ) := fun name =>
  (record.lookup name).map keyValue

/-- The attributes of a built key, or of a stored row's key, as a dictionary. -/
def keyAsDict (key : Item (PyValue.Value φ)) : Dict φ :=
  awsSessionContextsRepo.keys.filterMap fun k =>
    (key k.attributeName).map fun value => (k.attributeName, ofKeyValue value)

section Repository

variable [PyFloat φ] [ToString (PyValue.Value φ)]

/-- One entry of `transform`. -/
def contextEntry (key : Dict φ) (ct : ContextType) : Option (TableAndKey φ) :=
  (awsSessionContextsRepo.buildKeyAsDict (itemOf (setItem key "contextType" (.str ct.value)))
    false).map fun built => (tableName, keyAsDict built)

def transform (row : Dict φ) : Option (List (TableAndKey φ)) := do
  let key ← fromDdbItem row
  contextTypes.mapM (contextEntry key)

/-- The group of `submit_blocks_in_parallel`, whose processor is `submit`. -/
def deleteGroup : Group where
  maxThreads := 25
  partitionSize := 25
  maxQueueSize := 512
  maxThreads_pos := by decide
  partitionSize_pos := by decide
  maxQueueSize_pos := by decide

/-- The batches that a call of `invoke` has passed to `submit` when it returns. An iterator is not
a list, so that its objects are added one by one. -/
inductive Invoked (records : List (StreamRecord φ)) : List (List (TableAndKey φ)) → Prop
  | nothing (hnone : recordsToDelete records = []) : Invoked records []
  | deleted {tableAndKeys : List (TableAndKey φ)} {xs : List Act} {s : State (TableAndKey φ)}
      (hsome : recordsToDelete records ≠ [])
      (hyields : Yields transform (flatIterator (recordsToDelete records)) tableAndKeys)
      (hrun : Run deleteGroup.step Free (initial (tableAndKeys.map .add)) xs s)
      (hreturned : s.producer = .returned) : Invoked records s.processed

end Repository

end ShimService.TableListener
