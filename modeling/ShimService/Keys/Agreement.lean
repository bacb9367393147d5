import ShimService.Keys.RoundTrip

/-! Every way of building a key gives the same key, and different values different ones. -/
namespace ShimService.Keys

variable {β : Type} [ToString β] {a : String} {item item' target : Item β}
  {parts : List CompositeKeyPart} {vs ws rest : List (Value β)}
  {vss wss : List (List (Value β))} {c : CompositeKey} {k : Key} {ks : List Key}
  {schema : CompoundKey} {table table' : VirtualTable} {o : Option (Value β)}

namespace CompositeKey

theorem encodeParts_injective (hvs : Admits parts vs) (hws : Admits parts ws)
    (h : encodeParts parts vs = encodeParts parts ws) : vs = ws := by
  induction hvs generalizing ws with
  | nil =>
    cases hws
    rfl
  | @cons part v parts vs hv _ ih =>
    cases hws with
    | @cons _ w _ ws hw hws =>
    have hhead : part.formatter.encode v = part.formatter.encode w := (List.cons.inj h).1
    have htail : encodeParts parts vs = encodeParts parts ws := (List.cons.inj h).2
    have hvalue := Formatter.extract_encode hv
    rw [hhead, Formatter.extract_encode hw, Option.some.injEq] at hvalue
    rw [hvalue, ih hws htail]

theorem encode_injective (hvs : Admits c.parts vs) (hws : Admits c.parts ws)
    (h : c.encode vs = c.encode ws) : vs = ws := by
  cases hparts : c.parts with
  | nil =>
    rw [hparts] at hvs hws
    cases hvs
    cases hws
    rfl
  | cons part parts =>
    have hne : ∀ {us : List (Value β)}, Admits c.parts us →
        (c.injected.map VirtualTable.tableType).toList ++ encodeParts c.parts us ≠ [] := by
      intro us hus
      rw [hparts] at hus ⊢
      cases hus
      simp [encodeParts]
    have hfields := Text.join_injective (fun field => free_fields hvs)
      (fun field => free_fields hws) (hne hvs) (hne hws) h
    exact encodeParts_injective hvs hws (List.append_cancel_left hfields)

end CompositeKey

theorem Key.encode_injective (hvs : k.Admits vs) (hws : k.Admits ws)
    (h : k.encode vs = k.encode ws) : vs = ws := by
  cases k with
  | simple name =>
    obtain ⟨v, rfl⟩ := List.length_eq_one_iff.mp hvs
    obtain ⟨w, rfl⟩ := List.length_eq_one_iff.mp hws
    simpa [encode] using h
  | composite c =>
    simp only [encode, Option.some.injEq, Value.str.injEq] at h
    exact CompositeKey.encode_injective hvs hws h

namespace CompoundKey

theorem keyDict_update (hk : k.attributeName ∉ allAttributes ks) :
    keyDict ks vss (Function.update target k.attributeName (k.encode vs)) =
      keyDict (k :: ks) (vs :: vss) target := by
  funext a
  by_cases ha : a = k.attributeName
  · subst ha
    rw [keyDict_of_not_mem hk, Function.update_self]
    simp only [keyDict, if_true]
  · simp only [keyDict, if_neg ha]
    exact keyDict_congr (Function.update_of_ne ha ..)

theorem populateKey_keys (h : List.Forall₂ (Key.Ready item) ks vss)
    (hnodup : (allAttributes ks).Nodup) :
    ks.foldlM (fun target k => k.populateKey item target false) target =
      some (keyDict ks vss target) := by
  induction h generalizing target with
  | nil => rfl
  | cons hready _ ih =>
    obtain ⟨-, hnodup, hdisjoint⟩ := List.nodup_append'.mp hnodup
    rw [List.foldlM_cons, Key.populateKey_eq hready]
    simp only [Option.bind_eq_bind, Option.bind_some]
    rw [ih hnodup, keyDict_update (hdisjoint Key.attributeName_mem)]

theorem populateKey_stored_keys (h : List.Forall₂ Key.Admits ks vss)
    (hnodup : (allAttributes ks).Nodup)
    (hitem : ∀ a ∈ allAttributes ks, item' a = stored ks vss item a) :
    ks.foldlM (fun target k => k.populateKey item' target true) target =
      some (keyDict ks vss target) := by
  induction h generalizing target with
  | nil => rfl
  | @cons k vs ks vss hadm _ ih =>
    obtain ⟨-, hnodup, hdisjoint⟩ := List.nodup_append'.mp hnodup
    have hname : item' k.attributeName = k.encode vs := by
      rw [hitem _ (List.mem_append_left _ Key.attributeName_mem)]
      simp only [stored, if_pos Key.attributeName_mem, Key.stored, if_true]
    have hrest : ∀ a ∈ allAttributes ks, item' a = stored ks vss item a := by
      intro a ha
      have hnot : a ∉ k.attributes := fun hmem => hdisjoint hmem ha
      rw [hitem a (List.mem_append_right _ ha)]
      simp only [stored, if_neg hnot]
    rw [List.foldlM_cons, Key.populateKey_stored hadm hname]
    simp only [Option.bind_eq_bind, Option.bind_some]
    rw [ih hnodup hrest, keyDict_update (hdisjoint Key.attributeName_mem)]

theorem populateKeysFromArgs_eq (target : Item β) (rest : List (Value β))
    (h : List.Forall₂ Key.Admits ks vss) (hnodup : (allAttributes ks).Nodup) :
    ∃ target', populateKeysFromArgs ks (vss.flatten ++ rest) target = some (target', rest) ∧
      List.Forall₂ (Key.Ready target') ks vss ∧
      ∀ a ∉ allAttributes ks, target' a = target a := by
  induction h generalizing target with
  | nil => exact ⟨target, rfl, .nil, fun _ _ => rfl⟩
  | @cons k vs ks vss hadm _ ih =>
    obtain ⟨hk, hnodup, hdisjoint⟩ := List.nodup_append'.mp hnodup
    obtain ⟨target₁, hargs, hready, hframe⟩ :=
      Key.populateKeyFromArgs_eq target (vss.flatten ++ rest) hadm hk
    obtain ⟨target₂, hargs', hreadys, hframe'⟩ := ih target₁ hnodup
    refine ⟨target₂, ?_, .cons (Key.ready_congr hready fun a ha => ?_) hreadys, ?_⟩
    · simp only [List.flatten_cons, List.append_assoc, populateKeysFromArgs, hargs,
        Option.bind_eq_bind, Option.bind_some, hargs']
    · exact hframe' a (hdisjoint (Key.components_subset ha))
    · intro a ha
      have hnot : a ∉ k.attributes ∧ a ∉ allAttributes ks := by
        simpa only [allAttributes, List.flatMap_cons, List.mem_append, not_or] using ha
      rw [hframe' a hnot.2, hframe a fun hmem => hnot.1 (Key.components_subset hmem)]

theorem buildKeyFromArgs_eq (h : List.Forall₂ Key.Admits schema.keys vss) :
    schema.buildKeyFromArgs (vss.flatten ++ rest) =
      some (keyDict schema.keys vss fun _ => none, rest) := by
  have hnodup := schema.allAttributes_nodup
  obtain ⟨target, hargs, hready, hframe⟩ :=
    populateKeysFromArgs_eq (fun _ => none) rest h hnodup
  have hstored : stored schema.keys vss target = keyDict schema.keys vss fun _ => none :=
    funext fun a => stored_eq_keyDict (hframe a) hnodup (List.Forall₂.length_eq h)
  simp only [buildKeyFromArgs, hargs, prepForSerialization,
    prepForSerialization_keys hready hnodup, hstored, Option.bind_eq_bind, Option.bind_some]
  rfl

theorem keyDict_injective (hvs : List.Forall₂ Key.Admits ks vss)
    (hws : List.Forall₂ Key.Admits ks wss) (hnodup : (allAttributes ks).Nodup)
    (h : keyDict ks vss (fun _ => none) = keyDict ks wss fun _ => none) : vss = wss := by
  induction hvs generalizing wss with
  | nil =>
    cases hws
    rfl
  | @cons k vs ks vss hv hvs ih =>
    cases hws with
    | @cons _ ws _ wss hw hws =>
    obtain ⟨-, hnodup, hdisjoint⟩ := List.nodup_append'.mp hnodup
    have hhead : k.encode vs = k.encode ws := by
      simpa only [keyDict, if_true] using congrFun h k.attributeName
    have htail : keyDict ks vss (fun _ => none) = keyDict ks wss fun _ => none := by
      funext a
      by_cases ha : a = k.attributeName
      · have hnot : a ∉ allAttributes ks := ha ▸ hdisjoint Key.attributeName_mem
        rw [keyDict_of_not_mem hnot, keyDict_of_not_mem hnot]
      · simpa only [keyDict, if_neg ha] using congrFun h a
    rw [Key.encode_injective hv hw hhead, ih hws hnodup htail]

end CompoundKey

/-! ### Tables that share rows -/

/-- The attribute is a string whose first field is the table's type. -/
def Tagged (table : VirtualTable) (o : Option (Value β)) : Prop :=
  ∃ s, o = some (.str s) ∧ Text.upTo defaultDelimiter s = table.tableType

omit [ToString β] in
theorem tagged_unique (h : Tagged table o) (h' : Tagged table' o) :
    table.tableType = table'.tableType := by
  obtain ⟨s, rfl, hs⟩ := h
  obtain ⟨s', heq, hs'⟩ := h'
  obtain rfl : s = s' := by simpa using heq
  rw [← hs, hs']

namespace CompositeKey

omit [ToString β] in
theorem tagged_keyString {s : String} {values : List (Value β)}
    (hinjected : c.injected = some table) (h : c.keyString values = some s) :
    Tagged table (some (.str s : Value β)) := by
  obtain ⟨fields, -, rfl⟩ := Option.map_eq_some_iff.mp h
  refine ⟨_, rfl, ?_⟩
  simp only [hinjected, Option.map_some, Option.toList_some, List.singleton_append]
  exact Text.upTo_join table.free

theorem popParts_frame {values : List (Value β)} (h : popParts parts item = some (values, item'))
    (ha : a ∉ parts.map CompositeKeyPart.attributeName) : item' a = item a := by
  induction parts generalizing item values with
  | nil =>
    simp only [popParts, Option.some.injEq, Prod.mk.injEq] at h
    rw [h.2]
  | cons part parts ih =>
    rw [List.map_cons, List.mem_cons, not_or] at ha
    simp only [popParts, Option.bind_eq_bind, Option.bind_eq_some_iff, Option.pure_def,
      Option.some.injEq, Prod.mk.injEq, Prod.exists] at h
    obtain ⟨-, -, -, -, values', item₁, hpop, -, rfl⟩ := h
    rw [ih hpop ha.2, Function.update_of_ne ha.1]

end CompositeKey

namespace Key

theorem populateKey_frame {b : Bool} (h : k.populateKey item target b = some item')
    (ha : a ≠ k.attributeName) : item' a = target a := by
  have hupdate : ∃ v, item' = Function.update target k.attributeName v := by
    match k, b with
    | .simple name, _ =>
      obtain ⟨v, -, rfl⟩ := Option.map_eq_some_iff.mp h
      exact ⟨_, rfl⟩
    | .composite c, true =>
      obtain ⟨v, -, rfl⟩ := Option.map_eq_some_iff.mp h
      exact ⟨_, rfl⟩
    | .composite c, false =>
      simp only [populateKey, CompositeKey.buildKey, Option.bind_eq_bind,
        Option.bind_eq_some_iff, Option.pure_def, Option.some.injEq] at h
      obtain ⟨-, -, s, -, rfl⟩ := h
      exact ⟨_, rfl⟩
  obtain ⟨v, rfl⟩ := hupdate
  exact Function.update_of_ne ha ..

theorem prepForSerialization_frame (h : k.prepForSerialization item = some item')
    (ha : a ∉ k.attributes) : item' a = item a := by
  cases k with
  | simple name =>
    simp only [prepForSerialization, Option.some.injEq] at h
    rw [h]
  | composite c =>
    rw [attributes, List.mem_cons, not_or] at ha
    simp only [prepForSerialization, CompositeKey.prepForSerialization, Option.bind_eq_bind,
      Option.bind_eq_some_iff, Option.pure_def, Option.some.injEq, Prod.exists] at h
    obtain ⟨values, item₁, hpop, s, -, rfl⟩ := h
    rw [Function.update_of_ne ha.1, CompositeKey.popParts_frame hpop ha.2]

end Key

namespace CompoundKey

/-- The table type that stands first in the hash keys of a schema. -/
def virtualTable (schema : CompoundKey) : Option VirtualTable :=
  match schema.hashKey with
  | .simple _ => none
  | .composite c => c.injected

/-- A hash key that the code can make: from arguments, from a row, or on storing a row. -/
inductive HashKey (schema : CompoundKey) : Option (Value β) → Prop
  | args {args rest : List (Value β)} {key : Item β}
      (h : schema.buildKeyFromArgs args = some (key, rest)) :
      HashKey schema (key schema.hashKey.attributeName)
  | item {item key : Item β} (h : schema.buildKeyAsDict item false = some key) :
      HashKey schema (key schema.hashKey.attributeName)
  | stored {item stored : Item β} (h : schema.prepForSerialization item = some stored) :
      HashKey schema (stored schema.hashKey.attributeName)

omit [ToString β] in
/-- The range key is built after the hash key and leaves it alone. -/
theorem tagged_of_keys {build : Item β → Key → Option (Item β)}
    (hhash : ∀ item', build item schema.hashKey = some item' →
      Tagged table (item' schema.hashKey.attributeName))
    (hframe : ∀ k item item', build item k = some item' → ∀ a ∉ k.attributes, item' a = item a)
    (h : schema.keys.foldlM build item = some item') :
    Tagged table (item' schema.hashKey.attributeName) := by
  obtain ⟨-, -, hdisjoint⟩ := List.nodup_append'.mp schema.distinct
  simp only [keys, List.foldlM_cons, Option.bind_eq_bind, Option.bind_eq_some_iff] at h
  obtain ⟨item₁, hbuild, hrange⟩ := h
  cases hkey : schema.rangeKey with
  | none =>
    obtain rfl : item₁ = item' := by simpa [hkey] using hrange
    exact hhash item₁ hbuild
  | some k =>
    have hrange : build item₁ k = some item' := by simpa [hkey] using hrange
    rw [hkey] at hdisjoint
    rw [hframe k item₁ item' hrange _ (hdisjoint Key.attributeName_mem)]
    exact hhash item₁ hbuild

theorem tagged_of_prep (htable : schema.virtualTable = some table)
    (h : schema.prepForSerialization item = some item') :
    Tagged table (item' schema.hashKey.attributeName) := by
  refine tagged_of_keys ?_ (fun k _ _ hk a ha => Key.prepForSerialization_frame hk ha) h
  intro item₁ hhash
  cases hkey : schema.hashKey with
  | simple name => simp [virtualTable, hkey] at htable
  | composite c =>
    simp only [virtualTable, hkey] at htable
    simp only [hkey, Key.prepForSerialization, CompositeKey.prepForSerialization,
      Option.bind_eq_bind, Option.bind_eq_some_iff, Option.pure_def, Option.some.injEq,
      Prod.exists] at hhash
    obtain ⟨values, item₂, -, s, hs, rfl⟩ := hhash
    rw [Key.attributeName, Function.update_self]
    exact CompositeKey.tagged_keyString htable hs

theorem tagged_of_dict (htable : schema.virtualTable = some table)
    (h : schema.buildKeyAsDict item false = some item') :
    Tagged table (item' schema.hashKey.attributeName) := by
  have hframe : ∀ (k : Key) (target target' : Item β),
      k.populateKey item target false = some target' → ∀ a ∉ k.attributes,
      target' a = target a := by
    intro k target target' hk a ha
    exact Key.populateKey_frame hk fun heq => ha (heq ▸ Key.attributeName_mem)
  refine tagged_of_keys ?_ hframe h
  intro target hhash
  cases hkey : schema.hashKey with
  | simple name => simp [virtualTable, hkey] at htable
  | composite c =>
    simp only [virtualTable, hkey] at htable
    simp only [hkey, Key.populateKey, CompositeKey.buildKey, Option.bind_eq_bind,
      Option.bind_eq_some_iff, Option.pure_def, Option.some.injEq] at hhash
    obtain ⟨values, -, s, hs, rfl⟩ := hhash
    rw [Key.attributeName, Function.update_self]
    exact CompositeKey.tagged_keyString htable hs

theorem tagged_hashKey (htable : schema.virtualTable = some table) (h : schema.HashKey o) :
    Tagged table o := by
  cases h with
  | item h => exact tagged_of_dict htable h
  | stored h => exact tagged_of_prep htable h
  | args h =>
    simp only [buildKeyFromArgs, Option.bind_eq_bind, Option.bind_eq_some_iff, Option.pure_def,
      Option.some.injEq, Prod.mk.injEq, Prod.exists] at h
    obtain ⟨target, rest, -, key, hprep, rfl, -⟩ := h
    exact tagged_of_prep htable hprep

/-- A row is stored under the key that the arguments give; the arguments can be told from the
key; and no two tables that share their rows have a hash key in common. -/
theorem keys_agree_and_are_injective (schema : CompoundKey) (vs ws : List (Value β))
    (hvs : schema.Admits vs) (hws : schema.Admits ws) :
    (∀ item rest, schema.components.map item = vs.map some →
      ∃ key stored, schema.buildKeyFromArgs (vs ++ rest) = some (key, rest) ∧
        schema.buildKeyAsDict item false = some key ∧
        schema.prepForSerialization item = some stored ∧
        schema.buildKeyAsDict stored true = some key) ∧
    ((schema.buildKeyFromArgs vs).map Prod.fst = (schema.buildKeyFromArgs ws).map Prod.fst ↔
      vs = ws) ∧
    (∀ (schema' : CompoundKey) (table table' : VirtualTable), schema.virtualTable = some table →
      schema'.virtualTable = some table' → table.tableType ≠ table'.tableType →
      ∀ o : Option (Value β), schema.HashKey o → ¬ schema'.HashKey o) := by
  obtain ⟨vss, hvs, rfl⟩ := hvs
  obtain ⟨wss, hws, rfl⟩ := hws
  have hnodup := schema.allAttributes_nodup
  refine ⟨?_, ⟨?_, ?_⟩, ?_⟩
  · intro item rest hitem
    have hholds := holds_keys hvs hitem
    refine ⟨_, _, buildKeyFromArgs_eq hvs, ?_, prepForSerialization_eq hholds, ?_⟩
    · exact populateKey_keys (hholds.imp fun _ _ => Key.ready_of_holds) hnodup
    · exact populateKey_stored_keys hvs hnodup fun _ _ => rfl
  · intro heq
    have hdict := heq
    rw [← List.append_nil vss.flatten, ← List.append_nil wss.flatten, buildKeyFromArgs_eq hvs,
      buildKeyFromArgs_eq hws] at hdict
    simp only [Option.map_some, Option.some.injEq] at hdict
    rw [keyDict_injective hvs hws hnodup hdict]
  · rintro heq
    rw [heq]
  · intro schema' table table' htable htable' hne o ho ho'
    exact hne (tagged_unique (tagged_hashKey htable ho) (tagged_hashKey htable' ho'))

/-- Two notifications whose numbers would run together without the delimiter. -/
theorem pushNotification_keys_differ :
    (awsPushNotificationsRepo.buildKeyFromArgs
        ([.int 31, .str "4", .int 12] : List (Value Unit))).map Prod.fst ≠
      (awsPushNotificationsRepo.buildKeyFromArgs [.int 3, .str "14", .int 12]).map Prod.fst := by
  intro heq
  have hvalues := (keys_agree_and_are_injective awsPushNotificationsRepo
    ([.int 31, .str "4", .int 12] : List (Value Unit)) [.int 3, .str "14", .int 12]
    ⟨[[.int 31, .str "4"], [.int 12]], ?_, rfl⟩
    ⟨[[.int 3, .str "14"], [.int 12]], ?_, rfl⟩).2.1.mp heq
  · exact absurd hvalues (by decide)
  all_goals
    refine .cons (.cons ?_ (.cons ?_ .nil)) (.cons (.cons ?_ .nil) .nil) <;>
      simp only [Formatter.Admits] <;> decide

end CompoundKey

end ShimService.Keys
