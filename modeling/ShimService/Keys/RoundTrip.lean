import Mathlib.Data.List.Forall2
import Mathlib.Data.List.Nodup
import ShimService.Keys.Repositories

/-! What serialization makes of a row, and that deserialization undoes it. -/
namespace ShimService.Keys

variable {β : Type} [ToString β] {f : Formatter} {v : Value β} {a : String}
  {item item' target : Item β} {part : CompositeKeyPart} {parts : List CompositeKeyPart}
  {vs rest : List (Value β)} {vss : List (List (Value β))} {fields : List String}
  {c : CompositeKey} {k : Key} {ks : List Key}

/-- The values a component's type declares. -/
def Formatter.Admits : Formatter → Value β → Prop
  | .int _, .int n => 0 ≤ n
  | .string none, .str s => defaultDelimiter ∉ s.toList
  | .string (some _), .str s => defaultDelimiter ∉ s.toList ∧ '~' ∉ s.toList
  | _, _ => False

/-- The field that a value of the declared type has in a key. -/
def Formatter.encode (f : Formatter) (v : Value β) : String :=
  match f.format v with
  | some (.str s) => s
  | _ => ""

namespace Formatter

theorem encode_eq {s : String} (h : f.format v = some (.str s)) : f.encode v = s := by
  rw [encode, h]

theorem format_int (β : Type) [ToString β] (n : ℕ) (size : Option ℕ+) :
    ∃ m, (Formatter.int size).format (.int n : Value β) =
      some (.str (Text.rjust (toString n) m '0')) ∧
      (Formatter.int size).format (.str (Text.rjust (toString n) m '0') : Value β) =
        some (.str (Text.rjust (toString n) m '0')) := by
  cases size with
  | none =>
    refine ⟨0, ?_, ?_⟩
    · rw [Text.rjust_of_le (Nat.zero_le _)]
      rfl
    · rfl
  | some size =>
    refine ⟨size, rfl, ?_⟩
    simp only [format, Value.toStr, Text.rjust_rjust]

/-- All a formatter promises about a value of its type. -/
theorem format_spec (h : f.Admits v) :
    ∃ s, f.format v = some (.str s) ∧ defaultDelimiter ∉ s.toList ∧
      f.format (.str s : Value β) = some (.str s) ∧ f.extract s = some v := by
  match f, v, h with
  | .int size, .int n, h =>
    obtain ⟨n, rfl⟩ := Int.eq_ofNat_of_zero_le h
    obtain ⟨m, hformat, hagain⟩ := format_int β n size
    refine ⟨_, hformat, ?_, hagain, ?_⟩
    · refine Text.not_mem_rjust (fun hmem => ?_) (by decide)
      exact absurd (Text.isDigit_toString hmem) (by decide)
    · rw [extract, Text.parseInt_rjust, Option.map_some]
  | .string none, .str s, h => exact ⟨s, rfl, h, rfl, rfl⟩
  | .string (some size), .str s, h =>
    obtain ⟨hdelimiter, hpad⟩ := h
    refine ⟨_, rfl, Text.not_mem_ljust hdelimiter (by decide), ?_, ?_⟩
    · rw [format, Text.ljust_ljust]
    · rw [extract, Text.upTo_ljust hpad]

variable (h : f.Admits v)
include h

theorem format_admitted : f.format v = some (.str (f.encode v)) := by
  obtain ⟨s, hs, -⟩ := format_spec h
  rw [encode_eq hs, hs]

theorem free_encode : defaultDelimiter ∉ (f.encode v).toList := by
  obtain ⟨s, hs, hfree, -⟩ := format_spec h
  rwa [encode_eq hs]

/-- What `build_key_from_args` relies on: a formatted component is formatted once more. -/
theorem format_encode : f.format (.str (f.encode v) : Value β) = some (.str (f.encode v)) := by
  obtain ⟨s, hs, -, hagain, -⟩ := format_spec h
  rwa [encode_eq hs]

theorem extract_encode : f.extract (f.encode v) = some v := by
  obtain ⟨s, hs, -, -, hextract⟩ := format_spec h
  rwa [encode_eq hs]

end Formatter

/-! ### The components of one composite key -/
namespace CompositeKey

def Admits (parts : List CompositeKeyPart) (vs : List (Value β)) : Prop :=
  List.Forall₂ (fun part v => part.formatter.Admits v) parts vs

def encodeParts (parts : List CompositeKeyPart) (vs : List (Value β)) : List String :=
  List.zipWith (fun part v => part.formatter.encode v) parts vs

/-- The string under which a composite key stores the values. -/
def encode (c : CompositeKey) (vs : List (Value β)) : String :=
  Text.join defaultDelimiter
    ((c.injected.map VirtualTable.tableType).toList ++ encodeParts c.parts vs)

/-- Reading a part from the item gives this field. -/
def Reads (item : Item β) (part : CompositeKeyPart) (s : String) : Prop :=
  ∃ v, item part.attributeName = some v ∧ part.build v = some (.str s)

omit [ToString β] in
theorem joinValues_str (fields : List String) :
    joinValues (fields.map Value.str : List (Value β)) = some fields := by
  induction fields with
  | nil => rfl
  | cons s fields ih => rw [List.map_cons, joinValues, ih, Option.map_some]

theorem keyString_str : c.keyString ((encodeParts c.parts vs).map Value.str : List (Value β)) =
    some (c.encode vs) := by
  rw [keyString, joinValues_str, Option.map_some, encode]

theorem readParts_eq (h : List.Forall₂ (Reads item) parts fields) :
    readParts item parts = some (fields.map Value.str) := by
  induction h with
  | nil => rfl
  | cons hread _ ih =>
    obtain ⟨v, hv, hbuild⟩ := hread
    simp [readParts, hv, hbuild, ih]

theorem reads_update (hne : part.attributeName ≠ a) {s : String} {o : Option (Value β)}
    (h : Reads item part s) : Reads (Function.update item a o) part s := by
  obtain ⟨v, hv, hbuild⟩ := h
  exact ⟨v, by rw [Function.update_of_ne hne, hv], hbuild⟩

/-- As the names are distinct, the attributes already removed are not read again. -/
theorem popParts_eq (h : List.Forall₂ (Reads item) parts fields)
    (hnodup : (parts.map CompositeKeyPart.attributeName).Nodup) :
    popParts parts item = some (fields.map Value.str,
      fun a => if a ∈ parts.map CompositeKeyPart.attributeName then none else item a) := by
  induction parts generalizing item fields with
  | nil =>
    cases h
    simp [popParts]
  | cons part parts ih =>
    obtain ⟨hnot, hnodup⟩ := List.nodup_cons.mp hnodup
    cases h with
    | cons hread hreads =>
    obtain ⟨v, hv, hbuild⟩ := hread
    rename_i s fields
    have hrest : List.Forall₂ (Reads (Function.update item part.attributeName none))
        parts fields := by
      refine List.Forall₂.imp ?_ ((List.forall₂_and_left _ _).mpr ⟨fun p hp => hp, hreads⟩)
      rintro p s ⟨hp, hread⟩
      refine reads_update (fun heq => hnot ?_) hread
      rw [← heq]
      exact List.mem_map_of_mem hp
    simp only [popParts, hv, hbuild, ih hrest hnodup, Option.bind_eq_bind, Option.bind_some,
      Option.pure_def, List.map_cons, Option.some.injEq, Prod.mk.injEq, true_and]
    funext a
    by_cases ha : a = part.attributeName
    · subst ha
      simp
    · simp [ha]

theorem extractParts_eq (hadm : Admits parts vs)
    (hitem : (parts.map fun part => item part.attributeName) = vs.map some)
    (hnodup : (parts.map CompositeKeyPart.attributeName).Nodup) :
    extractParts parts (encodeParts parts vs) item' = some (fun a =>
      if a ∈ parts.map CompositeKeyPart.attributeName then item a else item' a) := by
  induction hadm generalizing item' with
  | nil => simp [extractParts]
  | @cons part v parts vs hadm _ ih =>
    obtain ⟨hnot, hnodup⟩ := List.nodup_cons.mp hnodup
    obtain ⟨hv, hitem⟩ := List.cons.inj hitem
    have hextract : part.extract (part.formatter.encode v) = some v :=
      Formatter.extract_encode hadm
    rw [encodeParts, List.zipWith_cons_cons, extractParts, hextract]
    simp only [Option.bind_eq_bind, Option.bind_some]
    rw [← encodeParts, ih hitem hnodup]
    congr 1
    funext a
    by_cases ha : a = part.attributeName
    · subst ha
      simp only [List.map_cons, List.mem_cons, true_or, if_true, if_neg hnot,
        Function.update_self, hv]
    · simp [ha]

theorem free_encodeParts (hadm : Admits parts vs) {field : String}
    (hfield : field ∈ encodeParts parts vs) : defaultDelimiter ∉ field.toList := by
  induction hadm with
  | nil => simp [encodeParts] at hfield
  | cons hadm _ ih =>
    rcases List.mem_cons.mp hfield with rfl | hfield
    · exact Formatter.free_encode hadm
    · exact ih hfield

/-- Neither the table type nor a component holds the delimiter. -/
theorem free_fields (hadm : Admits c.parts vs) {field : String}
    (hfield : field ∈ (c.injected.map VirtualTable.tableType).toList ++ encodeParts c.parts vs) :
    defaultDelimiter ∉ field.toList := by
  rcases List.mem_append.mp hfield with hinjected | hpart
  · cases hc : c.injected with
    | none => simp [hc] at hinjected
    | some table =>
      obtain rfl : field = table.tableType := by simpa [hc] using hinjected
      exact table.free
  · exact free_encodeParts hadm hpart

/-- What `build_key_from_args` and `build_key` find in an item with the values. -/
theorem reads_of_admits (hadm : Admits parts vs)
    (hitem : (parts.map fun part => item part.attributeName) = vs.map some) :
    List.Forall₂ (Reads item) parts (encodeParts parts vs) := by
  induction hadm with
  | nil => exact .nil
  | @cons part v parts vs hadm _ ih =>
    obtain ⟨hv, hitem⟩ := List.cons.inj hitem
    exact .cons ⟨v, hv, Formatter.format_admitted hadm⟩ (ih hitem)

/-- The components read from the arguments are formatted already, and are formatted again. -/
theorem buildKeyFromArgs_eq (target : Item β) (rest : List (Value β)) (hadm : Admits parts vs)
    (hnodup : (parts.map CompositeKeyPart.attributeName).Nodup) :
    ∃ target', buildKeyFromArgs parts (vs ++ rest) target = some (target', rest) ∧
      List.Forall₂ (Reads target') parts (encodeParts parts vs) ∧
      ∀ a ∉ parts.map CompositeKeyPart.attributeName, target' a = target a := by
  induction hadm generalizing target with
  | nil => exact ⟨target, rfl, .nil, fun _ _ => rfl⟩
  | @cons part v parts vs hadm _ ih =>
    obtain ⟨hnot, hnodup⟩ := List.nodup_cons.mp hnodup
    have hbuild : part.build v = some (.str (part.formatter.encode v)) :=
      Formatter.format_admitted hadm
    obtain ⟨target', hargs, hreads, hframe⟩ := ih (Function.update target
      part.attributeName (some (.str (part.formatter.encode v)))) hnodup
    refine ⟨target', ?_, .cons ⟨_, ?_, Formatter.format_encode hadm⟩ hreads, ?_⟩
    · simp only [List.cons_append, buildKeyFromArgs, hbuild, Option.bind_eq_bind,
        Option.bind_some, hargs]
    · rw [hframe _ hnot, Function.update_self]
    · intro a ha
      rw [List.map_cons, List.mem_cons, not_or] at ha
      rw [hframe a ha.2, Function.update_of_ne ha.1]

/-- A key without components reads nothing back, whatever its string is. -/
theorem prepForDeserialization_eq (hadm : Admits c.parts vs)
    (hitem : (c.parts.map fun part => item part.attributeName) = vs.map some)
    (hnodup : (c.parts.map CompositeKeyPart.attributeName).Nodup)
    (hkey : item' c.attributeName = some (.str (c.encode vs))) :
    c.prepForDeserialization item' = some (fun a =>
      if a ∈ c.parts.map CompositeKeyPart.attributeName then item a
      else if a = c.attributeName then none else item' a) := by
  have hfields : extractParts c.parts (if c.injected.isSome
      then (Text.split defaultDelimiter (c.encode vs)).tail
      else Text.split defaultDelimiter (c.encode vs))
      (Function.update item' c.attributeName none) =
      extractParts c.parts (encodeParts c.parts vs)
        (Function.update item' c.attributeName none) := by
    cases hinjected : c.injected with
    | some table =>
      rw [encode, Text.split_join (fun field => free_fields hadm) (by simp [hinjected])]
      simp [hinjected]
    | none =>
      cases hparts : c.parts with
      | nil => simp [extractParts]
      | cons part parts =>
        have hne : encodeParts c.parts vs ≠ [] := by
          rw [hparts] at hadm ⊢
          cases hadm
          simp [encodeParts]
        rw [encode, Text.split_join (fun field => free_fields hadm) (by simp [hne])]
        simp [hinjected, hparts]
  simp only [prepForDeserialization, hkey, hfields, extractParts_eq hadm hitem hnodup,
    Function.update_apply]

end CompositeKey

/-! ### One key attribute -/
namespace Key

/-- The attributes of the row that make up the key. -/
def components : Key → List String
  | .simple name => [name]
  | .composite c => c.parts.map CompositeKeyPart.attributeName

def compositeName : Key → Option String
  | .simple _ => none
  | .composite c => some c.attributeName

/-- A simple key holds any one value. -/
def Admits : Key → List (Value β) → Prop
  | .simple _, vs => vs.length = 1
  | .composite c, vs => CompositeKey.Admits c.parts vs

/-- The value of the key attribute in the table. -/
def encode : Key → List (Value β) → Option (Value β)
  | .simple _, vs => vs.head?
  | .composite c, vs => some (.str (c.encode vs))

/-- Whatever builds the key from this item gets the key of the values. -/
def Ready (item : Item β) : Key → List (Value β) → Prop
  | .simple name, vs => item name = vs.head? ∧ vs ≠ []
  | .composite c, vs =>
      List.Forall₂ (CompositeKey.Reads item) c.parts (CompositeKey.encodeParts c.parts vs)

/-- The item has these values, of the declared types, for the key's components. -/
def Holds (item : Item β) (k : Key) (vs : List (Value β)) : Prop :=
  k.Admits vs ∧ k.components.map item = vs.map some

/-- What the table holds of an attribute of the row. -/
def stored (k : Key) (vs : List (Value β)) (item : Item β) : Item β := fun a =>
  if a = k.attributeName then k.encode vs else if a ∈ k.components then none else item a

omit [ToString β] in
theorem attributeName_mem : k.attributeName ∈ k.attributes := by
  cases k <;> simp [attributeName, attributes]

omit [ToString β] in
theorem components_subset (h : a ∈ k.components) : a ∈ k.attributes := by
  cases k with
  | simple name => exact h
  | composite c => exact List.mem_cons_of_mem _ h

omit [ToString β] in
theorem mem_components (h : a ∈ k.attributes) (hne : a ≠ k.attributeName) :
    a ∈ k.components := by
  cases k with
  | simple name => exact h
  | composite c => exact (List.mem_cons.mp h).resolve_left hne

theorem stored_of_not_mem (h : a ∉ k.attributes) : k.stored vs item a = item a := by
  have hname : a ≠ k.attributeName := fun heq => h (heq ▸ attributeName_mem)
  have hcomponent : a ∉ k.components := fun hmem => h (components_subset hmem)
  rw [stored, if_neg hname, if_neg hcomponent]

omit [ToString β] in
theorem length_of_admits (h : k.Admits vs) : vs.length = k.components.length := by
  cases k with
  | simple name => exact h
  | composite c => rw [components, List.length_map]; exact (List.Forall₂.length_eq h).symm

theorem ready_of_holds (h : k.Holds item vs) : k.Ready item vs := by
  obtain ⟨hadm, hitem⟩ := h
  cases k with
  | simple name =>
    obtain ⟨v, rfl⟩ := List.length_eq_one_iff.mp hadm
    exact ⟨(List.cons.inj hitem).1, by simp⟩
  | composite c =>
    rw [components, List.map_map] at hitem
    exact CompositeKey.reads_of_admits hadm hitem

theorem ready_congr (h : k.Ready item vs) (heq : ∀ a ∈ k.components, item' a = item a) :
    k.Ready item' vs := by
  cases k with
  | simple name => exact ⟨(heq name (by simp [components])).trans h.1, h.2⟩
  | composite c =>
    refine List.Forall₂.imp ?_ ((List.forall₂_and_left _ _).mpr ⟨fun p hp => hp, h⟩)
    rintro part s ⟨hpart, v, hv, hbuild⟩
    exact ⟨v, (heq _ (List.mem_map_of_mem hpart)).trans hv, hbuild⟩

/-- The key of an item that is not serialized yet. -/
theorem populateKey_eq (h : k.Ready item vs) : k.populateKey item target false =
    some (Function.update target k.attributeName (k.encode vs)) := by
  cases k with
  | simple name =>
    obtain ⟨hname, hne⟩ := h
    obtain ⟨v, vs, rfl⟩ := List.exists_cons_of_ne_nil hne
    simp [populateKey, attributeName, hname, encode]
  | composite c =>
    simp only [populateKey, CompositeKey.buildKey, CompositeKey.readParts_eq h,
      CompositeKey.keyString_str, Option.bind_eq_bind, Option.bind_some]
    rfl

/-- The key of a serialized item. -/
theorem populateKey_stored (hadm : k.Admits vs)
    (hitem : item k.attributeName = k.encode vs) : k.populateKey item target true =
      some (Function.update target k.attributeName (k.encode vs)) := by
  cases k with
  | simple name =>
    obtain ⟨v, rfl⟩ := List.length_eq_one_iff.mp hadm
    simp [populateKey, hitem, encode]
  | composite c => simp [populateKey, hitem, encode]

theorem prepForSerialization_eq (h : k.Ready item vs) (hnodup : k.attributes.Nodup) :
    k.prepForSerialization item = some (k.stored vs item) := by
  cases k with
  | simple name =>
    obtain ⟨hname, -⟩ := h
    rw [prepForSerialization, Option.some.injEq]
    funext a
    by_cases ha : a = name
    · subst ha
      simp [stored, attributeName, encode, hname]
    · simp [stored, attributeName, components, ha]
  | composite c =>
    simp only [prepForSerialization, CompositeKey.prepForSerialization,
      CompositeKey.popParts_eq h hnodup.of_cons, CompositeKey.keyString_str,
      Option.bind_eq_bind, Option.bind_some]
    congr 1
    funext a
    simp only [Function.update_apply]
    rfl

theorem populateKeyFromArgs_eq (target : Item β) (rest : List (Value β)) (hadm : k.Admits vs)
    (hnodup : k.attributes.Nodup) :
    ∃ target', k.populateKeyFromArgs (vs ++ rest) target = some (target', rest) ∧
      k.Ready target' vs ∧ ∀ a ∉ k.components, target' a = target a := by
  cases k with
  | simple name =>
    obtain ⟨v, rfl⟩ := List.length_eq_one_iff.mp hadm
    refine ⟨_, rfl, ⟨Function.update_self .., by simp⟩, ?_⟩
    intro a ha
    exact Function.update_of_ne (by simpa [components] using ha) ..
  | composite c => exact CompositeKey.buildKeyFromArgs_eq target rest hadm hnodup.of_cons

/-- An attribute that was in the row under the name of a composite key would be lost. -/
theorem prepForDeserialization_eq (hadm : k.Admits vs)
    (hitem : k.components.map item = vs.map some) (hnodup : k.attributes.Nodup)
    (hfree : ∀ c, k = .composite c → item c.attributeName = none)
    (hstored : ∀ a ∈ k.attributes, item' a = k.stored vs item a) :
    k.prepForDeserialization item' =
      some (fun a => if a ∈ k.attributes then item a else item' a) := by
  cases k with
  | simple name =>
    obtain ⟨v, rfl⟩ := List.length_eq_one_iff.mp hadm
    have hname : item name = some v := (List.cons.inj hitem).1
    rw [prepForDeserialization, Option.some.injEq]
    funext a
    by_cases ha : a = name
    · subst ha
      rw [hstored a (by simp [attributes])]
      simp [stored, attributes, attributeName, encode, hname]
    · simp [attributes, ha]
  | composite c =>
    rw [components, List.map_map] at hitem
    have hkey : item' c.attributeName = some (.str (c.encode vs)) := by
      rw [hstored c.attributeName attributeName_mem]
      simp [stored, attributeName, encode]
    rw [prepForDeserialization,
      CompositeKey.prepForDeserialization_eq hadm hitem hnodup.of_cons hkey]
    congr 1
    funext a
    by_cases ha : a = c.attributeName
    · subst ha
      simp [attributes, hfree c rfl]
    · simp [attributes, ha]

end Key

/-! ### All key attributes of a table -/
namespace CompoundKey

def allAttributes (ks : List Key) : List String := ks.flatMap Key.attributes

/-- What the table holds of an attribute of the row, the values given key by key. -/
def stored : List Key → List (List (Value β)) → Item β → Item β
  | k :: ks, vs :: vss, item => fun a =>
      if a ∈ k.attributes then k.stored vs item a else stored ks vss item a
  | _, _, item => item

/-- The key under which it holds them. -/
def keyDict : List Key → List (List (Value β)) → Item β → Item β
  | k :: ks, vs :: vss, target => fun a =>
      if a = k.attributeName then k.encode vs else keyDict ks vss target a
  | _, _, target => target

theorem stored_congr (h : item a = item' a) : stored ks vss item a = stored ks vss item' a := by
  induction ks generalizing vss with
  | nil => exact h
  | cons k ks ih =>
    cases vss with
    | nil => exact h
    | cons vs vss => simp only [stored, Key.stored, h, ih]

theorem stored_of_not_mem (h : a ∉ allAttributes ks) : stored ks vss item a = item a := by
  induction ks generalizing vss with
  | nil => rfl
  | cons k ks ih =>
    cases vss with
    | nil => rfl
    | cons vs vss =>
      simp only [allAttributes, List.flatMap_cons, List.mem_append, not_or] at h
      simp only [stored, if_neg h.1, ih h.2]

theorem keyDict_of_not_mem (h : a ∉ allAttributes ks) : keyDict ks vss target a = target a := by
  induction ks generalizing vss with
  | nil => rfl
  | cons k ks ih =>
    cases vss with
    | nil => rfl
    | cons vs vss =>
      simp only [allAttributes, List.flatMap_cons, List.mem_append, not_or] at h
      have hne : a ≠ k.attributeName := fun heq => h.1 (heq ▸ Key.attributeName_mem)
      simp only [keyDict, if_neg hne, ih h.2]

theorem keyDict_congr (h : target a = item a) :
    keyDict ks vss target a = keyDict ks vss item a := by
  induction ks generalizing vss with
  | nil => exact h
  | cons k ks ih =>
    cases vss with
    | nil => exact h
    | cons vs vss => simp only [keyDict, ih]

/-- A key built from an item of its own components only is all that is stored of the item. -/
theorem stored_eq_keyDict (h : a ∉ allAttributes ks → item a = none) (hnodup :
    (allAttributes ks).Nodup) (hlength : ks.length = vss.length) :
    stored ks vss item a = keyDict ks vss (fun _ => none) a := by
  induction ks generalizing vss with
  | nil => exact h (by simp [allAttributes])
  | cons k ks ih =>
    obtain ⟨vs, vss, rfl⟩ := List.exists_cons_of_length_eq_add_one hlength.symm
    obtain ⟨-, hnodup, hdisjoint⟩ := List.nodup_append'.mp hnodup
    by_cases ha : a ∈ k.attributes
    · simp only [stored, if_pos ha, keyDict, Key.stored]
      by_cases hname : a = k.attributeName
      · simp only [if_pos hname]
      · have hcomponent : a ∈ k.components := Key.mem_components ha hname
        rw [if_neg hname, if_pos hcomponent, if_neg hname, keyDict_of_not_mem (hdisjoint ha)]
    · have hname : a ≠ k.attributeName := fun heq => ha (heq ▸ Key.attributeName_mem)
      have hnone : a ∉ allAttributes ks → item a = none := by
        intro hks
        refine h fun hmem => ?_
        exact (List.mem_append.mp hmem).elim ha hks
      simp only [stored, if_neg ha, keyDict, if_neg hname]
      exact ih hnone hnodup (by simpa using hlength)

theorem prepForSerialization_keys (h : List.Forall₂ (Key.Ready item) ks vss)
    (hnodup : (allAttributes ks).Nodup) :
    ks.foldlM (fun item k => k.prepForSerialization item) item = some (stored ks vss item) := by
  induction ks generalizing item vss with
  | nil => cases h; rfl
  | cons k ks ih =>
    obtain ⟨hk, hnodup, hdisjoint⟩ := List.nodup_append'.mp hnodup
    cases h with
    | @cons _ vs _ vss hready hreadys =>
    have hrest : List.Forall₂ (Key.Ready (k.stored vs item)) ks vss := by
      refine List.Forall₂.imp ?_ ((List.forall₂_and_left _ _).mpr ⟨fun k' hk' => hk', hreadys⟩)
      rintro k' vs' ⟨hk', hready'⟩
      refine Key.ready_congr hready' fun a ha => Key.stored_of_not_mem fun hmem => ?_
      exact hdisjoint hmem (List.mem_flatMap.mpr ⟨k', hk', Key.components_subset ha⟩)
    rw [List.foldlM_cons, Key.prepForSerialization_eq hready hk]
    simp only [Option.bind_eq_bind, Option.bind_some]
    rw [ih hrest hnodup]
    congr 1
    funext a
    by_cases ha : a ∈ k.attributes
    · rw [stored_of_not_mem (hdisjoint ha)]
      simp only [stored, if_pos ha]
    · simp only [stored, if_neg ha]
      exact stored_congr (Key.stored_of_not_mem ha)

theorem prepForDeserialization_keys (h : List.Forall₂ (Key.Holds item) ks vss)
    (hnodup : (allAttributes ks).Nodup)
    (hfree : ∀ c, Key.composite c ∈ ks → item c.attributeName = none) :
    ks.foldlM (fun item k => k.prepForDeserialization item) (stored ks vss item) =
      some item := by
  induction h with
  | nil => rfl
  | @cons k vs ks vss hholds _ ih =>
    obtain ⟨hk, hnodup, hdisjoint⟩ := List.nodup_append'.mp hnodup
    have hstored : ∀ a ∈ k.attributes, stored (k :: ks) (vs :: vss) item a =
        k.stored vs item a := by
      intro a ha
      simp only [stored, if_pos ha]
    have hhead := Key.prepForDeserialization_eq hholds.1 hholds.2 hk
      (fun c hc => hfree c (hc ▸ List.mem_cons_self)) hstored
    rw [List.foldlM_cons, hhead]
    simp only [Option.bind_eq_bind, Option.bind_some]
    rw [← ih hnodup fun c hc => hfree c (List.mem_cons_of_mem _ hc)]
    congr 1
    funext a
    by_cases ha : a ∈ k.attributes
    · rw [if_pos ha, stored_of_not_mem (hdisjoint ha)]
    · simp only [if_neg ha, stored]

omit [ToString β] in
theorem holds_keys (hadm : List.Forall₂ Key.Admits ks vss)
    (hitem : (ks.flatMap Key.components).map item = vss.flatten.map some) :
    List.Forall₂ (Key.Holds item) ks vss := by
  induction hadm with
  | nil => exact .nil
  | @cons k vs ks vss hadm _ ih =>
    rw [List.flatMap_cons, List.map_append, List.flatten_cons, List.map_append] at hitem
    have hlength : (k.components.map item).length = (vs.map some).length := by
      rw [List.length_map, List.length_map, Key.length_of_admits hadm]
    obtain ⟨hhead, htail⟩ := List.append_inj hitem hlength
    exact .cons ⟨hadm, hhead⟩ (ih htail)

omit [ToString β] in
theorem allAttributes_nodup (schema : CompoundKey) : (allAttributes schema.keys).Nodup := by
  have h := schema.distinct
  cases hrange : schema.rangeKey <;> simpa [allAttributes, keys, hrange] using h

/-- The attributes of the row that make up the table's key. -/
def components (schema : CompoundKey) : List String := schema.keys.flatMap Key.components

/-- The attributes that only the table's rows have. -/
def compositeNames (schema : CompoundKey) : List String :=
  schema.keys.filterMap Key.compositeName

/-- One value of the declared type for each component. -/
def Admits (schema : CompoundKey) (vs : List (Value β)) : Prop :=
  ∃ vss, List.Forall₂ Key.Admits schema.keys vss ∧ vs = vss.flatten

theorem prepForSerialization_eq {schema : CompoundKey}
    (h : List.Forall₂ (Key.Holds item) schema.keys vss) :
    schema.prepForSerialization item = some (stored schema.keys vss item) :=
  prepForSerialization_keys (h.imp fun _ _ => Key.ready_of_holds) schema.allAttributes_nodup

/-- A row that has all components, and no attribute under the name of a composite key, is read
back as it was written. -/
theorem deserialize_serialize (schema : CompoundKey) (item : Item β) (vs : List (Value β))
    (hadm : schema.Admits vs) (hitem : schema.components.map item = vs.map some)
    (hfree : ∀ name ∈ schema.compositeNames, item name = none) :
    (schema.prepForSerialization item).bind schema.prepForDeserialization = some item := by
  obtain ⟨vss, hadm, rfl⟩ := hadm
  have hholds := holds_keys hadm hitem
  rw [prepForSerialization_eq hholds, Option.bind_some]
  refine prepForDeserialization_keys hholds schema.allAttributes_nodup fun c hc => ?_
  exact hfree _ (List.mem_filterMap.mpr ⟨_, hc, rfl⟩)

/-- A pending event of a session, due at a time, with one more attribute. -/
def pendingEventRow : Item Unit := fun a =>
  if a = "eventType" then some (.str "P")
  else if a = "activeAt" then some (.int 1700)
  else if a = "tenantId" then some (.int 7)
  else if a = "sessionId" then some (.str "s~1")
  else if a = "updateTime" then some (.int (-3))
  else none

theorem pendingEventRow_round_trip :
    (awsPendingEventsRepo.prepForSerialization pendingEventRow).bind
      awsPendingEventsRepo.prepForDeserialization = some pendingEventRow := by
  refine deserialize_serialize awsPendingEventsRepo pendingEventRow
    [.str "P", .int 1700, .int 7, .str "s~1"]
    ⟨[[.str "P"], [.int 1700, .int 7, .str "s~1"]], ?_, rfl⟩ (by decide) (by decide)
  refine .cons (.cons ?_ .nil) (.cons (.cons ?_ (.cons ?_ (.cons ?_ .nil))) .nil) <;>
    simp only [Formatter.Admits] <;> decide

end CompoundKey

end ShimService.Keys
