import ShimService.Dynamo.UpdateItem

/-!
The call and the part of a transaction mean the same update. Each loop leaves the text of its
expression and the values of its placeholders in step, and the three kinds of placeholders are
told apart by their letter.
-/
namespace ShimService.DynamoDb

open Expression

variable {reserved : List String} {ν α : Type} {items dictionary : List (String × α)}
  {p q key b s : String} {c d : Char} {m n : ℕ} {value : α} {tests : List (Test String)}
  {assignments : List (String × String)}

/-- The attributes with the placeholders a loop gives them, numbered from `n` on. -/
def numbered (p : String) : ℕ → List (String × α) → List (String × String × α)
  | _, [] => []
  | n, (key, value) :: items => (key, p ++ toString n, value) :: numbered p (n + 1) items

theorem isPlaceholder (hp : p.toList = [':', c]) (hc : isWordChar c = true) (n : ℕ) :
    IsPlaceholder (p ++ toString n) := by
  refine ⟨c :: (toString n).toList, by simp, ?_, ?_⟩
  · intro a ha
    obtain rfl | ha := List.mem_cons.mp ha
    · exact hc
    · have hdigit := Text.isDigit_toString ha
      simp [isWordChar, Char.isAlphanum, hdigit]
  · rw [String.toList_append, hp]
    rfl

/-- The letter and the number can be read off a placeholder. -/
theorem placeholder_inj (hp : p.toList = [':', c]) (hq : q.toList = [':', d])
    (h : p ++ toString m = q ++ toString n) : c = d ∧ m = n := by
  have hlist := congrArg String.toList h
  simp only [String.toList_append, hp, hq, List.cons_append, List.nil_append,
    List.cons.injEq, true_and] at hlist
  obtain ⟨hletter, hdigits⟩ := hlist
  have hparse := congrArg Text.parseInt (String.toList_inj.mp hdigits)
  rw [Text.parseInt_toString_nat, Text.parseInt_toString_nat] at hparse
  exact ⟨hletter, Int.ofNat.inj (Option.some.inj hparse)⟩

theorem mem_numbered {e : String × String × α} (he : e ∈ numbered p n items) :
    (e.1, e.2.2) ∈ items ∧ ∃ m, n ≤ m ∧ e.2.1 = p ++ toString m := by
  induction items generalizing n with
  | nil => simp [numbered] at he
  | cons item items ih =>
    obtain rfl | he := List.mem_cons.mp he
    · exact ⟨by simp, n, le_rfl, rfl⟩
    · obtain ⟨hmem, m, hm, hb⟩ := ih he
      exact ⟨List.mem_cons_of_mem _ hmem, m, by omega, hb⟩

theorem numbered_items (p : String) (n : ℕ) (items : List (String × α)) :
    (numbered p n items).map (fun e => (e.1, e.2.2)) = items := by
  induction items generalizing n with
  | nil => rfl
  | cons item items ih => rw [numbered, List.map_cons, ih]

/-- Placeholders from `n` on are not taken yet. -/
def Free (p : String) (n : ℕ) (dictionary : List (String × α)) : Prop :=
  ∀ m, n ≤ m → p ++ toString m ∉ dictionary.map Prod.fst

theorem setItem_of_not_mem (h : key ∉ dictionary.map Prod.fst) :
    setItem dictionary key value = dictionary ++ [(key, value)] := if_neg h

theorem free_nil (p : String) (n : ℕ) : Free p n ([] : List (String × α)) :=
  fun _ _ => List.not_mem_nil

theorem setItem_free (value : α) (hp : p.toList = [':', c]) (hfree : Free p n dictionary) :
    setItem dictionary (p ++ toString n) value = dictionary ++ [(p ++ toString n, value)] ∧
      Free p (n + 1) (dictionary ++ [(p ++ toString n, value)]) := by
  refine ⟨setItem_of_not_mem (hfree n le_rfl), ?_⟩
  intro m hm hmem
  rw [List.map_append, List.mem_append] at hmem
  obtain hmem | hmem := hmem
  · exact hfree m (by omega) hmem
  · have hsame := (placeholder_inj hp hp (List.mem_singleton.mp hmem)).2
    omega

theorem foldl_setItem {more : List (String × α)}
    (hnodup : ((dictionary ++ more).map Prod.fst).Nodup) :
    more.foldl (fun existing (key, value) => setItem existing key value) dictionary =
      dictionary ++ more := by
  induction more generalizing dictionary with
  | nil => simp
  | cons entry more ih =>
    obtain ⟨key, value⟩ := entry
    have hassoc : dictionary ++ (key, value) :: more =
        dictionary ++ [(key, value)] ++ more := by simp
    rw [hassoc] at hnodup ⊢
    have hnot : key ∉ dictionary.map Prod.fst := by
      rw [List.map_append, List.map_append] at hnodup
      have hapart := (List.nodup_append.mp (List.nodup_append.mp hnodup).1).2.2
      intro hmem
      exact hapart _ hmem _ (by simp) rfl
    simp only [List.foldl_cons, setItem_of_not_mem hnot, ih hnodup]

theorem numbered_nodup (hp : p.toList = [':', c]) :
    ((numbered p n items).map fun e => e.2.1).Nodup := by
  induction items generalizing n with
  | nil => exact List.nodup_nil
  | cons item items ih =>
    rw [numbered, List.map_cons, List.nodup_cons]
    refine ⟨?_, ih⟩
    intro hmem
    obtain ⟨e, he, hb⟩ := List.mem_map.mp hmem
    obtain ⟨-, m, hm, hb'⟩ := mem_numbered he
    have hsame := (placeholder_inj hp hp (hb'.symm.trans hb)).2
    omega

theorem length_append_pos {t : String} (h : t ≠ "") : (s ++ t).length > 0 := by
  rw [gt_iff_lt, Nat.pos_iff_ne_zero, Ne, String.length_eq_zero_iff]
  simp [h]

theorem conditionLoop_spec (hnamed : ∀ item ∈ items, IsName reserved item.1) (hn : 0 < n)
    (hfirst : n > 1 ↔ s.length > 0) (htext : Conjunction s tests)
    (hfree : Free ":c" n dictionary) :
    (conditionLoop items n s dictionary).2 =
        dictionary ++ (numbered ":c" n items).map Prod.snd ∧
      Conjunction (conditionLoop items n s dictionary).1
        (tests ++ (numbered ":c" n items).map fun e => .equals e.1 e.2.1) := by
  induction items generalizing n s dictionary tests with
  | nil => simpa [conditionLoop, numbered] using htext
  | cons item items ih =>
    obtain ⟨key, value⟩ := item
    have hplace : IsPlaceholder (":c" ++ toString n) := isPlaceholder rfl (by decide) n
    have hname : IsName reserved key := hnamed (key, value) (by simp)
    have hclause : key ++ " = " ++ (":c" ++ toString n) ≠ "" := by simp
    obtain ⟨hset, hfree⟩ := setItem_free value rfl hfree
    have htext := htext.concat hclause (lex_equals hname hplace)
    simp only [conditionLoop, hfirst, hset]
    have hrest := ih (fun item hitem => hnamed item (List.mem_cons_of_mem _ hitem))
      (Nat.succ_pos n) ⟨fun _ => length_append_pos hclause, fun _ => by omega⟩ htext hfree
    simpa only [numbered, List.map_cons, List.append_assoc, List.singleton_append] using hrest

theorem existsLoop_spec {keys : List String} (hnamed : ∀ key ∈ keys, IsName reserved key)
    (htext : Conjunction s tests) :
    Conjunction (keys.foldl
        (fun statement key => andThen statement ++ ("attribute_exists(" ++ key ++ ")")) s)
      (tests ++ keys.map Test.attributeExists) := by
  induction keys generalizing s tests with
  | nil => simpa using htext
  | cons key keys ih =>
    have hclause : "attribute_exists(" ++ key ++ ")" ≠ "" := by simp
    have htext := htext.concat hclause (lex_attributeExists (hnamed key (by simp)))
    have hrest := ih (fun key hkey => hnamed key (List.mem_cons_of_mem _ hkey)) htext
    simpa only [List.foldl_cons, andThen, List.map_cons, List.append_assoc,
      List.singleton_append] using hrest

theorem keyLoop_spec (hnamed : ∀ item ∈ items, IsName reserved item.1)
    (htext : Conjunction s tests) (hfree : Free ":k" dictionary.length dictionary) :
    (keyLoop items s dictionary).2 =
        dictionary ++ (numbered ":k" dictionary.length items).map Prod.snd ∧
      Conjunction (keyLoop items s dictionary).1
        (tests ++ (numbered ":k" dictionary.length items).map fun e => .equals e.1 e.2.1) := by
  induction items generalizing s dictionary tests with
  | nil => simpa [keyLoop, numbered] using htext
  | cons item items ih =>
    obtain ⟨key, value⟩ := item
    have hplace : IsPlaceholder (":k" ++ toString dictionary.length) :=
      isPlaceholder rfl (by decide) _
    have hname : IsName reserved key := hnamed (key, value) (by simp)
    have hclause : key ++ " = " ++ (":k" ++ toString dictionary.length) ≠ "" := by simp
    obtain ⟨hset, hfree⟩ := setItem_free value rfl hfree
    have htext := htext.concat hclause (lex_equals hname hplace)
    have hlength : (dictionary ++ [(":k" ++ toString dictionary.length, value)]).length =
        dictionary.length + 1 := by simp
    have hrest := ih (fun item hitem => hnamed item (List.mem_cons_of_mem _ hitem)) htext
      (hlength ▸ hfree)
    rw [hlength] at hrest
    simpa only [keyLoop, List.foldl_cons, andThen, hset, numbered, List.map_cons, List.append_assoc,
      List.singleton_append] using hrest

/-- The text of an update that has been written so far. -/
def Written (expression : Option String) (assignments : List (String × String)) : Prop :=
  expression.elim (assignments = []) fun s => Assignments s assignments

theorem Written.concat {expression : Option String} (h : Written expression assignments)
    (hname : IsName reserved key) (hb : IsPlaceholder b) :
    Written (some ((expression.elim "SET " fun expression => expression ++ ", ") ++
      (key ++ " = " ++ b))) (assignments ++ [(key, b)]) := by
  cases expression with
  | none =>
    obtain rfl : assignments = [] := h
    exact Assignments.first hname hb
  | some s => exact Assignments.concat h hname hb

theorem written_none : Written none [] := rfl

/-- The loop over a patch does what it would do over the rest of it without the key. -/
theorem updateLoop_spec (keys : List String) {expression : Option String}
    (hnamed : ∀ item ∈ items, IsName reserved item.1) (htext : Written expression assignments)
    (hfree : Free ":v" n dictionary) :
    (updateLoop keys items n expression dictionary).2 = dictionary ++
        (numbered ":v" n (items.filter fun item => item.1 ∉ keys)).map Prod.snd ∧
      Written (updateLoop keys items n expression dictionary).1 (assignments ++
        (numbered ":v" n (items.filter fun item => item.1 ∉ keys)).map
          fun e => (e.1, e.2.1)) := by
  induction items generalizing n expression dictionary assignments with
  | nil => simpa [updateLoop, numbered] using htext
  | cons item items ih =>
    obtain ⟨key, value⟩ := item
    have hrest := fun item hitem => hnamed item (List.mem_cons_of_mem (key, value) hitem)
    by_cases hkey : key ∈ keys
    · simp only [updateLoop, hkey, if_true, List.filter_cons, not_true_eq_false, decide_false,
        Bool.false_eq_true, if_false]
      exact ih hrest htext hfree
    · have hplace : IsPlaceholder (":v" ++ toString n) := isPlaceholder rfl (by decide) n
      obtain ⟨hset, hfree⟩ := setItem_free value rfl hfree
      have htext := htext.concat (hnamed (key, value) (by simp)) hplace
      have hloop := ih hrest htext hfree
      simpa only [updateLoop, hkey, if_false, hset, List.filter_cons, not_false_eq_true,
        decide_true, if_true, numbered, List.map_cons, List.append_assoc,
        List.singleton_append] using hloop

theorem numbered_apart {items' : List (String × α)} {e e' : String × String × α}
    (hp : p.toList = [':', c]) (hq : q.toList = [':', d]) (hcd : c ≠ d)
    (he : e ∈ numbered p m items) (he' : e' ∈ numbered q n items') : e.2.1 ≠ e'.2.1 := by
  obtain ⟨-, i, -, hb⟩ := mem_numbered he
  obtain ⟨-, j, -, hb'⟩ := mem_numbered he'
  intro heq
  exact hcd (placeholder_inj hp hq (hb.symm.trans (heq.trans hb'))).1

/-- The placeholders of the condition, of the key and of the patch are all different. -/
theorem kinds_nodup (conditions keys patch : List (String × α)) (n : ℕ) :
    (((numbered ":c" 1 conditions ++ numbered ":k" n keys ++ numbered ":v" 1 patch).map
      Prod.snd).map Prod.fst).Nodup := by
  rw [List.map_map, List.map_append, List.map_append, List.nodup_append, List.nodup_append]
  refine ⟨⟨numbered_nodup rfl, numbered_nodup rfl, ?_⟩, numbered_nodup rfl, ?_⟩
  · intro b hb b' hb'
    obtain ⟨e, he, rfl⟩ := List.mem_map.mp hb
    obtain ⟨e', he', rfl⟩ := List.mem_map.mp hb'
    exact numbered_apart rfl rfl (by decide) he he'
  · intro b hb b' hb'
    obtain ⟨e', he', rfl⟩ := List.mem_map.mp hb'
    obtain hb | hb := List.mem_append.mp hb
    · obtain ⟨e, he, rfl⟩ := List.mem_map.mp hb
      exact numbered_apart rfl rfl (by decide) he he'
    · obtain ⟨e, he, rfl⟩ := List.mem_map.mp hb
      exact numbered_apart rfl rfl (by decide) he he'

theorem free_numbered (hp : p.toList = [':', c]) (hq : q.toList = [':', d]) (hcd : c ≠ d)
    (m n : ℕ) (items : List (String × α)) :
    Free q n ((numbered p m items).map Prod.snd) := by
  intro i _ hmem
  obtain ⟨entry, hentry, hb⟩ := List.mem_map.mp hmem
  obtain ⟨e, he, rfl⟩ := List.mem_map.mp hentry
  obtain ⟨-, j, -, hb'⟩ := mem_numbered he
  exact hcd (placeholder_inj hp hq (hb'.symm.trans hb)).1

theorem toDdbItem_named (toAttributeValue : ν → α) (entry : Attributes reserved ν) :
    ∀ item ∈ toDdbItem toAttributeValue entry.items, IsName reserved item.1 := by
  intro item hitem
  obtain ⟨stored, hstored, rfl⟩ := List.mem_map.mp hitem
  exact entry.named stored hstored

theorem toDdbItem_names (toAttributeValue : ν → α) (entry : List (String × ν)) :
    (toDdbItem toAttributeValue entry).map Prod.fst = entry.map Prod.fst := by
  simp [toDdbItem]

/-- The caller's condition with the placeholders it gets. -/
def placed (toAttributeValue : ν → α) (condition : Option (Attributes reserved ν)) :
    List (String × String × α) :=
  numbered ":c" 1 (toDdbItem toAttributeValue (condition.elim [] Attributes.items))

/-- The non-key attributes of a patch with their placeholders. -/
def assigned (toAttributeValue : ν → α) (keys : KeyAttributes reserved ν)
    (patch : Attributes reserved ν) : List (String × String × α) :=
  numbered ":v" 1 ((toDdbItem toAttributeValue patch.items).filter
    fun item => item.1 ∉ keys.items.map Prod.fst)

def withCondition (toAttributeValue : ν → α) (condition : Option (Attributes reserved ν))
    (params : Params α) : Params α :=
  (condition.map .dict).elim params fun condition =>
    processCondition toAttributeValue condition params

theorem withCondition_spec (toAttributeValue : ν → α)
    (condition : Option (Attributes reserved ν)) (params : Params α)
    (hnone : params.conditionExpression = none)
    (hvalues : params.expressionAttributeValues = none) :
    Conjunction ((withCondition toAttributeValue condition params).conditionExpression.getD "")
        ((placed toAttributeValue condition).map fun e => .equals e.1 e.2.1) ∧
      (withCondition toAttributeValue condition params).expressionAttributeValues.getD [] =
        (placed toAttributeValue condition).map Prod.snd ∧
      (withCondition toAttributeValue condition params).updateExpression =
        params.updateExpression := by
  cases condition with
  | none =>
    refine ⟨?_, ?_, rfl⟩
    · simpa [withCondition, hnone, placed, toDdbItem, numbered] using Conjunction.nil
    · simp [withCondition, hvalues, placed, toDdbItem, numbered]
  | some condition =>
    have hloop := conditionLoop_spec (toDdbItem_named toAttributeValue condition) Nat.one_pos
      (by simp) Conjunction.nil (free_nil ":c" 1)
    refine ⟨?_, ?_, rfl⟩
    · simpa [withCondition, processCondition, placed] using hloop.2
    · simpa [withCondition, processCondition, placed] using hloop.1

theorem placed_mem (toAttributeValue : ν → α) (condition : Option (Attributes reserved ν))
    {e : String × String × α} (he : e ∈ placed toAttributeValue condition) :
    IsName reserved e.1 := by
  have hitem := (mem_numbered he).1
  cases condition with
  | none => simp [toDdbItem] at hitem
  | some condition => exact toDdbItem_named toAttributeValue condition _ hitem

theorem assigned_names (toAttributeValue : ν → α) (keys : KeyAttributes reserved ν)
    (patch : Attributes reserved ν) :
    (assigned toAttributeValue keys patch).map Prod.fst =
      (patch.items.map Prod.fst).filter fun name => name ∉ keys.items.map Prod.fst := by
  have hitems := congrArg (List.map Prod.fst) (numbered_items ":v" 1
    ((toDdbItem toAttributeValue patch.items).filter
      fun item => item.1 ∉ keys.items.map Prod.fst))
  rw [List.map_map] at hitems
  rw [← toDdbItem_names toAttributeValue patch.items, List.filter_map]
  exact hitems

/-- What the two ways of writing have in common. The tests are the caller's and some of the key;
the values are those of the condition, of the key's tests and of the patch. -/
theorem says_of_parts (toAttributeValue : ν → α) {keys : KeyAttributes reserved ν}
    {patch : Attributes reserved ν} {condition : Option (Attributes reserved ν)}
    {request : UpdateRequest α} (tests : List (Test (String × α))) (n : ℕ)
    (keyItems : List (String × α))
    (hpatch : ∃ item ∈ patch.items, item.1 ∉ keys.items.map Prod.fst)
    (hkey : request.key = toDdbItem toAttributeValue keys.items)
    (hupdate : Written request.updateExpression
      ((assigned toAttributeValue keys patch).map fun e => (e.1, e.2.1)))
    (hcondition : ∃ s, request.conditionExpression = some s ∧ Conjunction s
      (((placed toAttributeValue condition).map (fun e => Test.equals e.1 e.2) ++ tests).map
        (Test.map Prod.fst)))
    (htests : tests ≠ []) (hnames : ∀ test ∈ tests, IsName reserved test.name)
    (hoperands : tests.flatMap Test.operands = (numbered ":k" n keyItems).map Prod.snd)
    (hvalues : request.values = (placed toAttributeValue condition ++ numbered ":k" n keyItems ++
      assigned toAttributeValue keys patch).map Prod.snd) :
    request.Says reserved
      ((placed toAttributeValue condition).map (fun e => .equals e.1 e.2) ++ tests)
      (assigned toAttributeValue keys patch) where
  update := by
    obtain ⟨item, hitem, hnot⟩ := hpatch
    have hne : assigned toAttributeValue keys patch ≠ [] := by
      intro hnil
      have hnames := assigned_names toAttributeValue keys patch
      rw [hnil] at hnames
      have hmem : item.1 ∈ (patch.items.map Prod.fst).filter
          fun name => name ∉ keys.items.map Prod.fst :=
        List.mem_filter.mpr ⟨List.mem_map_of_mem hitem, by simpa using hnot⟩
      rw [← hnames] at hmem
      exact List.not_mem_nil hmem
    cases hexpression : request.updateExpression with
    | none =>
      rw [hexpression] at hupdate
      exact absurd (List.map_eq_nil_iff.mp hupdate) hne
    | some s =>
      rw [hexpression] at hupdate
      exact ⟨s, rfl, hupdate⟩
  condition := hcondition
  tests_ne := by simp [htests]
  test_names := by
    intro test htest
    obtain htest | htest := List.mem_append.mp htest
    · obtain ⟨e, he, rfl⟩ := List.mem_map.mp htest
      exact placed_mem toAttributeValue condition he
    · exact hnames test htest
  targets := by
    intro e he
    have hitem := (List.mem_filter.mp (mem_numbered he).1).1
    exact toDdbItem_named toAttributeValue patch _ hitem
  once := by
    rw [assigned_names]
    exact patch.nodup.filter _
  no_key := by
    intro name hname
    rw [assigned_names] at hname
    rw [hkey, toDdbItem_names]
    simpa using (List.mem_filter.mp hname).2
  values := by
    have hplaced : ((placed toAttributeValue condition).map
        (fun e => (Test.equals e.1 e.2 : Test (String × α)))).flatMap Test.operands =
          (placed toAttributeValue condition).map Prod.snd := by
      rw [List.flatMap_map]
      exact List.flatMap_pure_eq_map _ _
    rw [hvalues, List.flatMap_append, hplaced, hoperands, List.map_append, List.map_append]
  distinct := by
    rw [hvalues]
    exact kinds_nodup _ _ _ n

theorem equals_map {β γ : Type} (f : β → γ) (es : List (String × β)) :
    (es.map fun e => Test.equals e.1 e.2).map (Test.map f) =
      es.map fun e => .equals e.1 (f e.2) := by
  rw [List.map_map]
  rfl

/-- The tests of the key in a call: its attributes exist. -/
def existTests (keys : KeyAttributes reserved ν) : List (Test (String × α)) :=
  (keys.items.map Prod.fst).map .attributeExists

/-- The tests of the key in a transaction: its attributes have the values they are looked up by. -/
def keyTests (toAttributeValue : ν → α) (keys : KeyAttributes reserved ν) (n : ℕ) :
    List (Test (String × α)) :=
  (numbered ":k" n (toDdbItem toAttributeValue keys.items)).map fun e => .equals e.1 e.2

/-- What is written before any condition. -/
def started (toAttributeValue : ν → α) (tableName : String) (keys : KeyAttributes reserved ν)
    (patch : Attributes reserved ν) (consumedCapacity collectionMetrics : Option String) :
    Params α where
  tableName := tableName
  key := toDdbItem toAttributeValue keys.items
  updateExpression := (updateLoop (keys.items.map Prod.fst)
    (toDdbItem toAttributeValue patch.items) 1 none []).1
  returnConsumedCapacity := consumedCapacity
  returnItemCollectionMetrics := collectionMetrics
  conditionExpression := none
  expressionAttributeValues := none

theorem started_spec (toAttributeValue : ν → α) (tableName : String)
    (keys : KeyAttributes reserved ν) (patch : Attributes reserved ν)
    (consumedCapacity collectionMetrics : Option String) :
    Written (started toAttributeValue tableName keys patch consumedCapacity
        collectionMetrics).updateExpression
        ((assigned toAttributeValue keys patch).map fun e => (e.1, e.2.1)) ∧
      (updateLoop (keys.items.map Prod.fst) (toDdbItem toAttributeValue patch.items) 1 none
        []).2 = (assigned toAttributeValue keys patch).map Prod.snd := by
  obtain ⟨hvalues, hwritten⟩ := updateLoop_spec (keys.items.map Prod.fst)
    (toDdbItem_named toAttributeValue patch) written_none (free_nil ":v" 1)
  exact ⟨hwritten, hvalues⟩

/-- The values of the patch join those bound before them. -/
theorem mergeAttributes_values (toAttributeValue : ν → α) {keys : KeyAttributes reserved ν}
    {patch : Attributes reserved ν} {condition : Option (Attributes reserved ν)} {n : ℕ}
    {keyItems : List (String × α)} {params : Params α}
    (hvalues : params.expressionAttributeValues.getD [] =
      (placed toAttributeValue condition ++ numbered ":k" n keyItems).map Prod.snd) :
    (mergeAttributes params ((assigned toAttributeValue keys patch).map
      Prod.snd)).request.values = (placed toAttributeValue condition ++
        numbered ":k" n keyItems ++ assigned toAttributeValue keys patch).map Prod.snd := by
  have hnodup := kinds_nodup (toDdbItem toAttributeValue (condition.elim [] Attributes.items))
    keyItems ((toDdbItem toAttributeValue patch.items).filter
      fun item => item.1 ∉ keys.items.map Prod.fst) n
  rw [List.map_append] at hnodup
  simp only [mergeAttributes, Params.request, Option.getD_some, hvalues]
  exact (foldl_setItem hnodup).trans List.map_append.symm

theorem updateItem_target (toAttributeValue : ν → α) (tableName : String)
    (keys : KeyAttributes reserved ν) (patch : Attributes reserved ν)
    (condition : Option (Attributes reserved ν)) :
    (updateItem toAttributeValue tableName keys patch (condition.map .dict)).key =
        toDdbItem toAttributeValue keys.items ∧
      (updateItem toAttributeValue tableName keys patch
        (condition.map .dict)).tableName = tableName := by
  cases condition <;> exact ⟨rfl, rfl⟩

theorem toDdbRequest_target (toAttributeValue : ν → α) (tableName : String)
    (keys : KeyAttributes reserved ν) (patch : Attributes reserved ν)
    (condition : Option (Attributes reserved ν)) :
    (UpdateItemRequest.toDdbRequest toAttributeValue
        ⟨tableName, keys, patch, condition.map .dict, true⟩).key =
        toDdbItem toAttributeValue keys.items ∧
      (UpdateItemRequest.toDdbRequest toAttributeValue
        ⟨tableName, keys, patch, condition.map .dict, true⟩).tableName = tableName := by
  cases condition <;> exact ⟨rfl, rfl⟩

theorem updateItem_spec (toAttributeValue : ν → α) (tableName : String)
    {keys : KeyAttributes reserved ν} {patch : Attributes reserved ν}
    (condition : Option (Attributes reserved ν))
    (hpatch : ∃ item ∈ patch.items, item.1 ∉ keys.items.map Prod.fst) :
    (updateItem toAttributeValue tableName keys patch (condition.map .dict)).request.Says reserved
      ((placed toAttributeValue condition).map (fun e => .equals e.1 e.2) ++ existTests keys)
      (assigned toAttributeValue keys patch) := by
  obtain ⟨hkey, -⟩ := updateItem_target toAttributeValue tableName keys patch condition
  obtain ⟨hwritten, hloop⟩ := started_spec toAttributeValue tableName keys patch
    (some "TOTAL") (some "SIZE")
  obtain ⟨htext, hvalues, hupdate⟩ := withCondition_spec toAttributeValue condition
    (started toAttributeValue tableName keys patch (some "TOTAL") (some "SIZE")) rfl rfl
  have hnamed : ∀ name ∈ keys.items.map Prod.fst, IsName reserved name := by
    intro name hname
    obtain ⟨item, hitem, rfl⟩ := List.mem_map.mp hname
    exact keys.named item hitem
  have hexist := existsLoop_spec hnamed htext
  have hcall : updateItem toAttributeValue tableName keys patch (condition.map .dict) =
      mergeAttributes (mergeKeyCondition (keys.items.map Prod.fst)
        (withCondition toAttributeValue condition
          (started toAttributeValue tableName keys patch (some "TOTAL") (some "SIZE"))))
        ((assigned toAttributeValue keys patch).map Prod.snd) := by
    rw [← hloop]
    rfl
  rw [hcall] at hkey ⊢
  refine says_of_parts toAttributeValue (existTests keys) 0 [] hpatch hkey ?_ ⟨_, rfl, ?_⟩
    ?_ ?_ ?_ ?_
  · change Written (withCondition toAttributeValue condition _).updateExpression _
    rw [hupdate]
    exact hwritten
  · rw [existTests, List.map_append, equals_map]
    simpa [Test.map, Function.comp_def] using hexist
  · simpa [existTests] using keys.nonempty
  · intro test htest
    obtain ⟨name, hname, rfl⟩ := List.mem_map.mp htest
    exact hnamed name hname
  · simp [existTests, numbered, Test.operands, List.flatMap_map]
  · refine mergeAttributes_values toAttributeValue ?_
    simpa [numbered, mergeKeyCondition] using hvalues

theorem toDdbRequest_spec (toAttributeValue : ν → α) (tableName : String)
    {keys : KeyAttributes reserved ν} {patch : Attributes reserved ν}
    (condition : Option (Attributes reserved ν))
    (hpatch : ∃ item ∈ patch.items, item.1 ∉ keys.items.map Prod.fst) :
    (UpdateItemRequest.toDdbRequest toAttributeValue
      ⟨tableName, keys, patch, condition.map .dict, true⟩).request.Says reserved
      ((placed toAttributeValue condition).map (fun e => .equals e.1 e.2) ++
        keyTests toAttributeValue keys (placed toAttributeValue condition).length)
      (assigned toAttributeValue keys patch) := by
  obtain ⟨hkey, -⟩ := toDdbRequest_target toAttributeValue tableName keys patch condition
  obtain ⟨hwritten, hloop⟩ := started_spec toAttributeValue tableName keys patch none none
  obtain ⟨htext, hvalues, hupdate⟩ := withCondition_spec toAttributeValue condition
    (started toAttributeValue tableName keys patch none none) rfl rfl
  have hnamed := toDdbItem_named toAttributeValue keys.toAttributes
  have hlength : ((placed toAttributeValue condition).map Prod.snd).length =
      (placed toAttributeValue condition).length := List.length_map _
  have hfree : Free ":k" ((placed toAttributeValue condition).map Prod.snd).length
      ((placed toAttributeValue condition).map Prod.snd) :=
    free_numbered rfl rfl (by decide) 1 _ _
  obtain ⟨hkeyValues, hkeyText⟩ := keyLoop_spec hnamed htext hfree
  rw [hlength] at hkeyValues hkeyText
  have hcall : UpdateItemRequest.toDdbRequest toAttributeValue
      ⟨tableName, keys, patch, condition.map .dict, true⟩ =
      mergeAttributes (mergeKeyAttributes (toDdbItem toAttributeValue keys.items)
        (withCondition toAttributeValue condition
          (started toAttributeValue tableName keys patch none none)))
        ((assigned toAttributeValue keys patch).map Prod.snd) := by
    rw [← hloop]
    rfl
  rw [hcall] at hkey ⊢
  refine says_of_parts toAttributeValue (keyTests toAttributeValue keys _)
    (placed toAttributeValue condition).length (toDdbItem toAttributeValue keys.items)
    hpatch hkey ?_ ⟨_, rfl, ?_⟩ ?_ ?_ ?_ ?_
  · change Written (withCondition toAttributeValue condition _).updateExpression _
    rw [hupdate]
    exact hwritten
  · rw [hvalues, keyTests, List.map_append, equals_map, equals_map]
    exact hkeyText
  · have hne := congrArg (· = []) (numbered_items ":k" (placed toAttributeValue condition).length
      (toDdbItem toAttributeValue keys.items))
    simpa [keyTests, toDdbItem, keys.nonempty] using hne
  · intro test htest
    obtain ⟨e, he, rfl⟩ := List.mem_map.mp htest
    exact hnamed _ (mem_numbered he).1
  · rw [keyTests, List.flatMap_map]
    exact List.flatMap_pure_eq_map _ _
  · refine mergeAttributes_values toAttributeValue ?_
    rw [List.map_append, ← hkeyValues, ← hvalues]
    rfl

/-- The update both are for: set the non-key attributes of the patch where the item exists and has
the required values. -/
def setWhereMet [BEq α] (toAttributeValue : ν → α) (tableName : String)
    (keys : KeyAttributes reserved ν) (patch : Attributes reserved ν)
    (condition : Option (Attributes reserved ν)) (tables : String → List (Item α)) :
    Except Rejection (String → List (Item α)) :=
  (setIfMet (toDdbItem toAttributeValue keys.items)
    (toDdbItem toAttributeValue (condition.elim [] Attributes.items))
    ((toDdbItem toAttributeValue patch.items).filter
      fun item => item.1 ∉ keys.items.map Prod.fst)
    (tables tableName)).map (Function.update tables tableName)

section
variable [BEq α]

theorem placed_holds (toAttributeValue : ν → α) (condition : Option (Attributes reserved ν))
    (item : Item α) :
    (((placed toAttributeValue condition).map fun e => Test.equals e.1 e.2).map
        (Test.map Prod.snd)).all (Test.holds item) =
      (toDdbItem toAttributeValue (condition.elim [] Attributes.items)).all (has item) := by
  rw [equals_map, ← numbered_items ":c" 1
    (toDdbItem toAttributeValue (condition.elim [] Attributes.items)), List.all_map, List.all_map]
  rfl

theorem existTests_holds {toAttributeValue : ν → α} {keys : KeyAttributes reserved ν}
    {item : Item α} (h : matchesKey (toDdbItem toAttributeValue keys.items) item) :
    ((existTests keys : List (Test (String × α))).map (Test.map Prod.snd)).all
      (Test.holds item) = true := by
  rw [List.all_eq_true]
  intro test htest
  simp only [existTests, List.map_map, List.mem_map, Function.comp_apply] at htest
  obtain ⟨entry, hentry, rfl⟩ := htest
  have hhas := List.all_eq_true.mp h (entry.1, toAttributeValue entry.2)
    (List.mem_map.mpr ⟨entry, hentry, rfl⟩)
  exact isSome_of_has hhas

theorem keyTests_holds {toAttributeValue : ν → α} {keys : KeyAttributes reserved ν}
    {item : Item α} (n : ℕ) :
    ((keyTests toAttributeValue keys n).map (Test.map Prod.snd)).all (Test.holds item) =
      matchesKey (toDdbItem toAttributeValue keys.items) item := by
  rw [keyTests, equals_map, matchesKey]
  nth_rewrite 2 [← numbered_items ":k" n (toDdbItem toAttributeValue keys.items)]
  rw [List.all_map, List.all_map]
  rfl

/-- A request that says the caller's condition and some tests of the key is the update, where
these hold of every item under the key and fail of none at all. -/
theorem execute_eq {toAttributeValue : ν → α} {keys : KeyAttributes reserved ν}
    {patch : Attributes reserved ν} {condition : Option (Attributes reserved ν)}
    {params : Params α} {tests : List (Test (String × α))} (tables : String → List (Item α))
    (hkey : params.key = toDdbItem toAttributeValue keys.items)
    (hmeans : params.request.Says reserved
      ((placed toAttributeValue condition).map (fun e => .equals e.1 e.2) ++ tests)
      (assigned toAttributeValue keys patch))
    (hmet : ∀ item, matchesKey (toDdbItem toAttributeValue keys.items) item →
      (tests.map (Test.map Prod.snd)).all (Test.holds item) = true)
    (habsent : (tests.map (Test.map Prod.snd)).all (Test.holds fun _ => none) = false) :
    params.execute reserved tables =
      setWhereMet toAttributeValue params.tableName keys patch condition tables := by
  have hplan := hmeans.plan_eq
  rw [List.map_append] at hplan
  have happly := apply_eq_setIfMet
    (toDdbItem toAttributeValue (condition.elim [] Attributes.items)) (tables params.tableName)
    hplan
    (fun item hitem => by
      rw [List.all_append, placed_holds, hmet item (hkey ▸ hitem), Bool.and_true])
    (by rw [List.all_append, habsent, Bool.and_false])
  rw [Params.execute, happly, setWhereMet]
  have hassigned := numbered_items ":v" 1 ((toDdbItem toAttributeValue patch.items).filter
    fun item => item.1 ∉ keys.items.map Prod.fst)
  rw [← hkey]
  exact congrArg (fun assignments => (setIfMet params.key _ assignments _).map _) hassigned

theorem updateItem_eq (toAttributeValue : ν → α) (tableName : String)
    {keys : KeyAttributes reserved ν} {patch : Attributes reserved ν}
    (condition : Option (Attributes reserved ν)) (tables : String → List (Item α))
    (hpatch : ∃ item ∈ patch.items, item.1 ∉ keys.items.map Prod.fst) :
    (updateItem toAttributeValue tableName keys patch (condition.map .dict)).execute reserved
        tables = setWhereMet toAttributeValue tableName keys patch condition tables := by
  obtain ⟨hkey, htable⟩ := updateItem_target toAttributeValue tableName keys patch condition
  have hmeans := updateItem_spec toAttributeValue tableName condition hpatch
  have habsent : ((existTests keys : List (Test (String × α))).map (Test.map Prod.snd)).all
      (Test.holds fun _ => none) = false := by
    obtain ⟨entry, hentry⟩ := List.exists_mem_of_ne_nil _ keys.nonempty
    rw [List.all_eq_false]
    refine ⟨.attributeExists entry.1, ?_, by simp [Test.holds]⟩
    exact List.mem_map.mpr ⟨.attributeExists entry.1,
      List.mem_map_of_mem (List.mem_map_of_mem hentry), rfl⟩
  have heq := execute_eq tables hkey hmeans (fun _ => existTests_holds) habsent
  rwa [htable] at heq

theorem toDdbRequest_eq (toAttributeValue : ν → α) (tableName : String)
    {keys : KeyAttributes reserved ν} {patch : Attributes reserved ν}
    (condition : Option (Attributes reserved ν)) (tables : String → List (Item α))
    (hpatch : ∃ item ∈ patch.items, item.1 ∉ keys.items.map Prod.fst) :
    (UpdateItemRequest.toDdbRequest toAttributeValue
        ⟨tableName, keys, patch, condition.map .dict, true⟩).execute reserved tables =
      setWhereMet toAttributeValue tableName keys patch condition tables := by
  obtain ⟨hkey, htable⟩ := toDdbRequest_target toAttributeValue tableName keys patch condition
  have hmeans := toDdbRequest_spec toAttributeValue tableName condition hpatch
  have habsent : ((keyTests toAttributeValue keys
      (placed toAttributeValue condition).length).map (Test.map Prod.snd)).all
      (Test.holds fun _ => none) = false := by
    obtain ⟨entry, hentry⟩ := List.exists_mem_of_ne_nil _ keys.nonempty
    rw [keyTests_holds, matchesKey, List.all_eq_false]
    exact ⟨_, List.mem_map_of_mem hentry, by simp [has]⟩
  have heq := execute_eq tables hkey hmeans
    (fun _ hitem => (keyTests_holds _).trans hitem) habsent
  rwa [htable] at heq

/-- The call and the transaction apply the same update, and every placeholder they use is bound to
one value. -/
theorem direct_and_transactional_agree (toAttributeValue : ν → α) (tableName : String)
    (keys : KeyAttributes reserved ν) (patch : Attributes reserved ν)
    (condition : Option (Attributes reserved ν)) (tables : String → List (Item α))
    (hpatch : ∃ item ∈ patch.items, item.1 ∉ keys.items.map Prod.fst) :
    (updateItem toAttributeValue tableName keys patch (condition.map .dict)).execute reserved
        tables = setWhereMet toAttributeValue tableName keys patch condition tables ∧
      (UpdateItemRequest.toDdbRequest toAttributeValue
        ⟨tableName, keys, patch, condition.map .dict, true⟩).execute reserved tables =
          setWhereMet toAttributeValue tableName keys patch condition tables ∧
      (updateItem toAttributeValue tableName keys patch
        (condition.map .dict)).request.BoundOnce ∧
      (UpdateItemRequest.toDdbRequest toAttributeValue
        ⟨tableName, keys, patch, condition.map .dict, true⟩).request.BoundOnce :=
  ⟨updateItem_eq toAttributeValue tableName condition tables hpatch,
    toDdbRequest_eq toAttributeValue tableName condition tables hpatch,
    (updateItem_spec toAttributeValue tableName condition hpatch).boundOnce,
    (toDdbRequest_spec toAttributeValue tableName condition hpatch).boundOnce⟩

end

def sequenceKeys : KeyAttributes ["status"] ℕ where
  items := [("hashKey", 7)]
  named := by decide
  nodup := by decide
  nonempty := by decide

/-- A patch that names a key attribute as well. -/
def sequencePatch : Attributes ["status"] ℕ where
  items := [("hashKey", 7), ("nextValue", 2), ("nextTimeout", 60)]
  named := by decide
  nodup := by decide

def sequenceCondition : Attributes ["status"] ℕ where
  items := [("nextTimeout", 30)]
  named := by decide
  nodup := by decide

def sequenceTables : String → List (Item ℕ)
  | "sequence" =>
    [fun name => List.lookup name [("hashKey", 7), ("nextValue", 1), ("nextTimeout", 30)]]
  | _ => []

example : (UpdateItemRequest.toDdbRequest id ⟨"sequence", sequenceKeys, sequencePatch,
    some (.dict sequenceCondition), true⟩).conditionExpression =
      some "nextTimeout = :c1 AND hashKey = :k1" := by decide

example : (((updateItem id "sequence" sequenceKeys sequencePatch
    (some (.dict sequenceCondition))).execute ["status"] sequenceTables).toOption.map
      fun tables => (tables "sequence").map fun item => item "nextValue") = some [some 2] := by
  decide +kernel

theorem direct_and_transactional_agree_sequence :
    (updateItem id "sequence" sequenceKeys sequencePatch
        (some (.dict sequenceCondition))).execute ["status"] sequenceTables =
      setWhereMet id "sequence" sequenceKeys sequencePatch (some sequenceCondition) sequenceTables ∧
    (UpdateItemRequest.toDdbRequest id ⟨"sequence", sequenceKeys, sequencePatch,
        some (.dict sequenceCondition), true⟩).execute ["status"] sequenceTables =
      setWhereMet id "sequence" sequenceKeys sequencePatch (some sequenceCondition) sequenceTables ∧
    (updateItem id "sequence" sequenceKeys sequencePatch
      (some (.dict sequenceCondition))).request.BoundOnce ∧
    (UpdateItemRequest.toDdbRequest id ⟨"sequence", sequenceKeys, sequencePatch,
      some (.dict sequenceCondition), true⟩).request.BoundOnce :=
  direct_and_transactional_agree id "sequence" sequenceKeys sequencePatch
    (some sequenceCondition) sequenceTables ⟨("nextValue", 2), by decide, by decide⟩

end ShimService.DynamoDb
