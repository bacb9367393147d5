import Mathlib.Data.Int.Notation

/-! Values whose types are known when the program runs, and dictionaries of them. -/
namespace PyValue

/-- What a program needs of `float`. -/
class PyFloat (φ : Type) where
  toStr : φ → String
  ofStr : String → Option φ

/-- For values without floats. -/
instance : PyFloat Empty := ⟨fun x => x.elim, fun _ => none⟩

/-- A dictionary lists its entries in the order in which they were added. -/
inductive Value (φ : Type)
  | none
  | bool (b : Bool)
  | int (n : ℤ)
  | float (x : φ)
  | str (s : String)
  | bytes (b : List UInt8)
  | list (values : List (Value φ))
  | dict (entries : List (String × Value φ))

abbrev Dict (φ : Type) := List (String × Value φ)

variable {φ : Type}

/-- `record[key] = value`. -/
def setItem (record : Dict φ) (key : String) (value : Value φ) : Dict φ :=
  if key ∈ record.map Prod.fst then
    record.map fun entry => if entry.1 = key then (key, value) else entry
  else record ++ [(key, value)]

/-- `record.pop(key, default)`, with `none` for the default. -/
def pop (record : Dict φ) (key : String) : Option (Value φ) × Dict φ :=
  (record.lookup key, record.filter fun entry => entry.1 ≠ key)

theorem setItem_of_not_mem {record : Dict φ} {key : String} {value : Value φ}
    (h : key ∉ record.map Prod.fst) : setItem record key value = record ++ [(key, value)] :=
  if_neg h

end PyValue
