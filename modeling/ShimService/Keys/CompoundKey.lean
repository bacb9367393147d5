import Mathlib.Data.PNat.Defs
import Mathlib.Logic.Function.Basic
import ShimService.Library.Text

/-!
The keys of the repositories' rows. A key attribute either is an attribute of the row or is built
from several of them, formatted and joined by a delimiter; in the tables that several
repositories share the table type stands first in the hash key.
-/
namespace ShimService.Keys

variable {β : Type}

/-- An attribute's value; `other` is one that is neither an int nor a str. -/
inductive Value (β : Type)
  | int (n : ℤ)
  | str (s : String)
  | other (b : β)
  deriving DecidableEq

/-- A row, or part of one, as a dictionary. -/
abbrev Item (β : Type) := String → Option (Value β)

/-- Python's `str`. -/
def Value.toStr [ToString β] : Value β → String
  | .int n => toString n
  | .str s => s
  | .other b => toString b

def defaultDelimiter : Char := '\t'

inductive Formatter
  | string (size : Option ℕ+)
  | int (size : Option ℕ+)

/-- A string formatter without a size returns what it is given; one with a size fails on anything
but a string. -/
def Formatter.format [ToString β] : Formatter → Value β → Option (Value β)
  | .string (some size), .str s => some (.str (Text.ljust s size '~'))
  | .string (some _), _ => none
  | .string none, value => some value
  | .int (some size), value => some (.str (Text.rjust value.toStr size '0'))
  | .int none, value => some (.str value.toStr)

def Formatter.extract : Formatter → String → Option (Value β)
  | .string (some _), s => some (.str (Text.upTo '~' s))
  | .string none, s => some (.str s)
  | .int _, s => (Text.parseInt s).map .int

structure CompositeKeyPart where
  attributeName : String
  formatter : Formatter

def CompositeKeyPart.build [ToString β] (part : CompositeKeyPart) (value : Value β) :
    Option (Value β) :=
  part.formatter.format value

def CompositeKeyPart.extract (part : CompositeKeyPart) (s : String) : Option (Value β) :=
  part.formatter.extract s

/-- A table type is one field of a key, so it is free of the delimiter. -/
structure VirtualTable where
  tableType : String
  free : defaultDelimiter ∉ tableType.toList

/-- `parts` are the ones the repository declares, without the injected one. -/
structure CompositeKey where
  attributeName : String
  parts : List CompositeKeyPart
  injected : Option VirtualTable

namespace CompositeKey

/-- The loop of `build_key` that leaves the item as it is. -/
def readParts [ToString β] (item : Item β) : List CompositeKeyPart → Option (List (Value β))
  | [] => some []
  | part :: parts => do
    let value ← item part.attributeName
    let formatted ← part.build value
    let values ← readParts item parts
    return formatted :: values

/-- The loop that removes each component it reads. -/
def popParts [ToString β] : List CompositeKeyPart → Item β → Option (List (Value β) × Item β)
  | [], item => some ([], item)
  | part :: parts, item => do
    let value ← item part.attributeName
    let formatted ← part.build value
    let (values, item) ← popParts parts (Function.update item part.attributeName none)
    return (formatted :: values, item)

/-- `delimiter.join` refuses what is not a string. -/
def joinValues : List (Value β) → Option (List String)
  | [] => some []
  | .str s :: values => (joinValues values).map (s :: ·)
  | _ :: _ => none

def keyString (key : CompositeKey) (values : List (Value β)) : Option String :=
  (joinValues values).map fun fields =>
    Text.join defaultDelimiter ((key.injected.map VirtualTable.tableType).toList ++ fields)

def buildKey [ToString β] (key : CompositeKey) (item target : Item β) : Option (Item β) := do
  let values ← readParts item key.parts
  let s ← key.keyString values
  return Function.update target key.attributeName (some (.str s))

/-- `build_key` with the item as its own target. -/
def prepForSerialization [ToString β] (key : CompositeKey) (item : Item β) :
    Option (Item β) := do
  let (values, item) ← popParts key.parts item
  let s ← key.keyString values
  return Function.update item key.attributeName (some (.str s))

/-- Formats one argument for each part; the rest of the arguments stay. -/
def buildKeyFromArgs [ToString β] :
    List CompositeKeyPart → List (Value β) → Item β → Option (Item β × List (Value β))
  | [], args, target => some (target, args)
  | _ :: _, [], _ => none
  | part :: parts, value :: args, target => do
    let formatted ← part.build value
    buildKeyFromArgs parts args (Function.update target part.attributeName (some formatted))

def extractParts : List CompositeKeyPart → List String → Item β → Option (Item β)
  | [], _, item => some item
  | _ :: _, [], _ => none
  | part :: parts, s :: fields, item => do
    let value ← part.extract s
    extractParts parts fields (Function.update item part.attributeName (some value))

def prepForDeserialization (key : CompositeKey) (item : Item β) : Option (Item β) :=
  match item key.attributeName with
  | some (.str s) =>
    let values := Text.split defaultDelimiter s
    extractParts key.parts (if key.injected.isSome then values.tail else values)
      (Function.update item key.attributeName none)
  | _ => none

end CompositeKey

inductive Key
  | simple (attributeName : String)
  | composite (key : CompositeKey)

namespace Key

def attributeName : Key → String
  | .simple name => name
  | .composite key => key.attributeName

/-- Every attribute the key reads or writes. -/
def attributes : Key → List String
  | .simple name => [name]
  | .composite key => key.attributeName :: key.parts.map CompositeKeyPart.attributeName

def populateKey [ToString β] (key : Key) (item target : Item β) (preSerialized : Bool) :
    Option (Item β) :=
  match key, preSerialized with
  | .composite c, false => c.buildKey item target
  | key, _ => (item key.attributeName).map fun value =>
      Function.update target key.attributeName (some value)

def populateKeyFromArgs [ToString β] :
    Key → List (Value β) → Item β → Option (Item β × List (Value β))
  | .composite c, args, target => CompositeKey.buildKeyFromArgs c.parts args target
  | .simple _, [], _ => none
  | .simple name, value :: args, target =>
      some (Function.update target name (some value), args)

def prepForSerialization [ToString β] : Key → Item β → Option (Item β)
  | .simple _, item => some item
  | .composite c, item => c.prepForSerialization item

def prepForDeserialization : Key → Item β → Option (Item β)
  | .simple _, item => some item
  | .composite c, item => c.prepForDeserialization item

end Key

/-- A repository's primary key. No attribute has two roles in it: it is the hash key, the range
key, or one component of one of them. -/
structure CompoundKey where
  hashKey : Key
  rangeKey : Option Key
  distinct : (hashKey.attributes ++ rangeKey.elim [] Key.attributes).Nodup

namespace CompoundKey

def keys (key : CompoundKey) : List Key := key.hashKey :: key.rangeKey.toList

def buildKeyAsDict [ToString β] (key : CompoundKey) (item : Item β) (preSerialized : Bool) :
    Option (Item β) :=
  key.keys.foldlM (fun target k => k.populateKey item target preSerialized) fun _ => none

def prepForSerialization [ToString β] (key : CompoundKey) (item : Item β) : Option (Item β) :=
  key.keys.foldlM (fun item k => k.prepForSerialization item) item

def prepForDeserialization (key : CompoundKey) (item : Item β) : Option (Item β) :=
  key.keys.foldlM (fun item k => k.prepForDeserialization item) item

def populateKeysFromArgs [ToString β] :
    List Key → List (Value β) → Item β → Option (Item β × List (Value β))
  | [], args, target => some (target, args)
  | key :: keys, args, target => do
    let (target, args) ← key.populateKeyFromArgs args target
    populateKeysFromArgs keys args target

/-- The components are formatted when they are read from the arguments and again when they are
folded into the key. -/
def buildKeyFromArgs [ToString β] (key : CompoundKey) (args : List (Value β)) :
    Option (Item β × List (Value β)) := do
  let (resultKey, rest) ← populateKeysFromArgs key.keys args fun _ => none
  let resultKey ← key.prepForSerialization resultKey
  return (resultKey, rest)

end CompoundKey

/-- What `create_primary_key` reads of a repository's class. -/
structure RepoClass where
  hashKey : String
  hashKeyAttributes : Option (List CompositeKeyPart)
  rangeKey : Option String
  rangeKeyAttributes : Option (List CompositeKeyPart)
  virtualTable : Option VirtualTable

/-- The table type goes into a composite hash key only. -/
def extractKey (name : String) (keyAttributes : Option (List CompositeKeyPart))
    (inject : Option VirtualTable) : Key :=
  match keyAttributes with
  | some parts => .composite ⟨name, parts, inject⟩
  | none => .simple name

namespace RepoClass

def extractHashKey (obj : RepoClass) : Key :=
  extractKey obj.hashKey obj.hashKeyAttributes obj.virtualTable

def extractRangeKey (obj : RepoClass) : Option Key :=
  obj.rangeKey.map fun name => extractKey name obj.rangeKeyAttributes none

def createPrimaryKey (obj : RepoClass)
    (distinct : (obj.extractHashKey.attributes ++
      obj.extractRangeKey.elim [] Key.attributes).Nodup) : CompoundKey :=
  ⟨obj.extractHashKey, obj.extractRangeKey, distinct⟩

end RepoClass

end ShimService.Keys
