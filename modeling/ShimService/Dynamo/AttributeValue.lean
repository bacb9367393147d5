import ShimService.Library.PyValue
import ShimService.Library.Text

/-!
The translation between rows and the service's items. A row's value becomes a dictionary of one
entry, whose key names the value's type; numbers travel as text.
-/
namespace ShimService.AttributeValue

open PyValue

variable {φ : Type}

section Codec

variable [PyFloat φ]

mutual

def toAttributeValue : Value φ → String × Value φ
  | .none => ("NULL", .bool true)
  | .bool b => ("BOOL", .bool b)
  | .int n => ("N", .str (toString n))
  | .float x => ("N", .str (PyFloat.toStr x))
  | .str s => ("S", .str s)
  | .bytes b => ("B", .bytes b)
  | .list values => ("L", .list (toList values))
  | .dict entries => ("M", .dict (toAttributeValueMap entries []))

def toList : List (Value φ) → List (Value φ)
  | [] => []
  | value :: values =>
    let (type, value) := toAttributeValue value
    .dict [(type, value)] :: toList values

def toAttributeValueMap : Dict φ → Dict φ → Dict φ
  | [], newRecord => newRecord
  | (key, value) :: entries, newRecord =>
    let (type, value) := toAttributeValue value
    toAttributeValueMap entries (setItem newRecord key (.dict [(type, value)]))

end

def toAttributeValueDict (value : Value φ) : Value φ :=
  let (name, value) := toAttributeValue value
  .dict [(name, value)]

def toDdbItem (entry : Dict φ) : Dict φ := toAttributeValueMap entry []

/-- A text with a point is a float. -/
def convertNumber (text : String) : Option (Value φ) :=
  if '.' ∈ text.toList then (PyFloat.ofStr text).map .float else (Text.parseInt text).map .int

mutual

/-- `none` where the dictionary has not exactly one key, or its key is not the type of its value. -/
def convertValue : Value φ → Option (Value φ)
  | .dict [("S", value)] => some value
  | .dict [("BOOL", value)] => some value
  | .dict [("B", value)] => some value
  | .dict [("N", .str text)] => convertNumber text
  | .dict [("M", .dict entries)] => (buildMap entries []).map .dict
  | .dict [("L", .list values)] => (buildList values).map .list
  | .dict [("NULL", _)] => some .none
  | _ => Option.none

def buildList : List (Value φ) → Option (List (Value φ))
  | [] => some []
  | value :: values => do
    let value ← convertValue value
    let values ← buildList values
    return value :: values

def buildMap : Dict φ → Dict φ → Option (Dict φ)
  | [], newRecord => some newRecord
  | (key, value) :: entries, newRecord => do
    let value ← convertValue value
    buildMap entries (setItem newRecord key value)

end

def fromDdbItem (item : Dict φ) : Option (Dict φ) := buildMap item []

end Codec

/-! ### The round trip -/

mutual

/-- There is no float in the value, and no dictionary in it has a key twice. -/
def Plain : Value φ → Prop
  | .float _ => False
  | .list values => PlainList values
  | .dict entries => (entries.map Prod.fst).Nodup ∧ PlainMap entries
  | _ => True

def PlainList : List (Value φ) → Prop
  | [] => True
  | value :: values => Plain value ∧ PlainList values

def PlainMap : Dict φ → Prop
  | [] => True
  | (_, value) :: entries => Plain value ∧ PlainMap entries

end

/-- A row of plain values. -/
structure Row (φ : Type) where
  entries : Dict φ
  nodup : (entries.map Prod.fst).Nodup
  plain : PlainMap entries

variable {record entries : Dict φ} {key : String} {value : Value φ}

/-- A fresh key is added behind the others. -/
theorem fresh_append {rest : Dict φ} (value' : Value φ)
    (hnodup : (((key, value) :: rest).map Prod.fst).Nodup)
    (hfresh : ∀ name ∈ ((key, value) :: rest).map Prod.fst, name ∉ record.map Prod.fst) :
    (rest.map Prod.fst).Nodup ∧
      ∀ name ∈ rest.map Prod.fst, name ∉ (record ++ [(key, value')]).map Prod.fst := by
  obtain ⟨hkey, hnodup⟩ := List.nodup_cons.mp hnodup
  refine ⟨hnodup, fun name hname => ?_⟩
  rw [List.map_append, List.mem_append, not_or]
  refine ⟨hfresh name (List.mem_cons_of_mem _ hname), ?_⟩
  rintro hmem
  obtain rfl : name = key := List.mem_singleton.mp hmem
  exact hkey hname

variable [PyFloat φ]

theorem convertNumber_toString (n : ℤ) : convertNumber (toString n) = some (.int n : Value φ) := by
  have hpoint : '.' ∉ (toString n).toList :=
    Text.not_mem_toString_int n (by decide) (by decide)
  rw [convertNumber, if_neg hpoint, Text.parseInt_toString]
  rfl

theorem toList_eq (values : List (Value φ)) : toList values = values.map toAttributeValueDict := by
  induction values with
  | nil => rfl
  | cons value values ih =>
    rw [toList, ih]
    rfl

theorem toAttributeValueMap_eq (hnodup : (entries.map Prod.fst).Nodup)
    (hfresh : ∀ name ∈ entries.map Prod.fst, name ∉ record.map Prod.fst) :
    toAttributeValueMap entries record =
      record ++ entries.map fun entry => (entry.1, toAttributeValueDict entry.2) := by
  induction entries generalizing record with
  | nil => simp [toAttributeValueMap]
  | cons entry entries ih =>
    obtain ⟨key, value⟩ := entry
    have hkey := hfresh key List.mem_cons_self
    obtain ⟨hnodup, hfresh⟩ := fresh_append (toAttributeValueDict value) hnodup hfresh
    have hset : toAttributeValueMap ((key, value) :: entries) record =
        toAttributeValueMap entries (record ++ [(key, toAttributeValueDict value)]) := by
      rw [toAttributeValueMap, ← setItem_of_not_mem hkey]
      rfl
    rw [hset, ih hnodup hfresh, List.append_assoc]
    rfl

mutual

theorem convertValue_toAttributeValueDict : ∀ value : Value φ, Plain value →
    convertValue (toAttributeValueDict value) = some value
  | .none, _ => rfl
  | .bool _, _ => rfl
  | .int n, _ => convertNumber_toString n
  | .str _, _ => rfl
  | .bytes _, _ => rfl
  | .list values, h => by
    have hvalues := buildList_map values h
    simp only [toAttributeValueDict, toAttributeValue, convertValue, toList_eq, hvalues,
      Option.map_some]
  | .dict entries, ⟨hnodup, hplain⟩ => by
    have hentries := buildMap_map entries [] hnodup (by simp) hplain
    have hmap : toAttributeValueMap entries [] =
        [] ++ entries.map fun entry => (entry.1, toAttributeValueDict entry.2) :=
      toAttributeValueMap_eq hnodup (by simp)
    have hvalue : toAttributeValueDict (.dict entries) =
        .dict [("M", .dict (toAttributeValueMap entries []))] := by
      rw [toAttributeValueDict, toAttributeValue]
    rw [hvalue, hmap, List.nil_append, convertValue, hentries]
    rfl

theorem buildList_map : ∀ values : List (Value φ), PlainList values →
    buildList (values.map toAttributeValueDict) = some values
  | [], _ => rfl
  | value :: values, ⟨hvalue, hvalues⟩ => by
    simp only [List.map_cons, buildList, convertValue_toAttributeValueDict value hvalue,
      buildList_map values hvalues, Option.bind_eq_bind, Option.bind_some, Option.pure_def]

theorem buildMap_map : ∀ entries record : Dict φ,
    (entries.map Prod.fst).Nodup →
    (∀ name ∈ entries.map Prod.fst, name ∉ record.map Prod.fst) → PlainMap entries →
    buildMap (entries.map fun entry => (entry.1, toAttributeValueDict entry.2)) record =
      some (record ++ entries)
  | [], record, _, _, _ => by simp [buildMap]
  | (key, value) :: entries, record, hnodup, hfresh, ⟨hvalue, hentries⟩ => by
    have hkey := hfresh key List.mem_cons_self
    obtain ⟨hnodup, hfresh⟩ := fresh_append value hnodup hfresh
    have hrest := buildMap_map entries _ hnodup hfresh hentries
    simp only [List.map_cons, buildMap, convertValue_toAttributeValueDict value hvalue,
      setItem_of_not_mem hkey, hrest, Option.bind_eq_bind, Option.bind_some,
      List.append_assoc, List.singleton_append]

end

/-- A row that is stored and read back is the same row. -/
theorem fromDdbItem_toDdbItem (row : Row φ) :
    fromDdbItem (toDdbItem row.entries) = some row.entries := by
  rw [toDdbItem, fromDdbItem, toAttributeValueMap_eq row.nodup (by simp), List.nil_append]
  exact buildMap_map row.entries [] row.nodup (by simp) row.plain

/-- A row with a list and a dictionary in it, and with what might be taken for each other. -/
def nestedRow : Row Empty where
  entries := [("tenantId", .int 10001), ("state", .none), ("active", .bool true),
    ("flags", .list [.bool false, .int 0, .none, .str "", .int (-1)]),
    ("data", .dict [("blob", .bytes [1, 255]), ("inner", .dict [("S", .str "1")])])]
  nodup := by decide
  plain := by simp [PlainMap, PlainList, Plain]

theorem fromDdbItem_toDdbItem_nested :
    fromDdbItem (toDdbItem nestedRow.entries) = some nestedRow.entries :=
  fromDdbItem_toDdbItem nestedRow

end ShimService.AttributeValue
