import Mathlib.Data.List.Nodup
import ShimService.Library.Expression

/-!
Updates of one item of a table, as DynamoDB documents them. A request whose expressions cannot be
read, or whose placeholders do not agree with the bound values, is refused before any item is
looked at. A condition is tested on the item under the key, or on an item without attributes
where there is none, and an update that passes creates that item.
-/
namespace Expression

variable {α : Type}

abbrev Item (α : Type) := String → Option α

structure UpdateRequest (α : Type) where
  key : List (String × α)
  updateExpression : Option String
  conditionExpression : Option String
  values : List (String × α)

inductive Rejection
  | validation
  | conditionalCheckFailed
  deriving DecidableEq

structure Plan (α : Type) where
  tests : List (Test α)
  assignments : List (String × α)

def Test.resolve (values : List (String × α)) : Test String → Option (Test α)
  | .attributeExists name => some (.attributeExists name)
  | .equals name b => (values.lookup b).map (.equals name)

def Test.map {β γ : Type*} (f : β → γ) : Test β → Test γ
  | .attributeExists name => .attributeExists name
  | .equals name b => .equals name (f b)

namespace UpdateRequest

def used (request : UpdateRequest α) : List String :=
  request.updateExpression.elim [] placeholders ++
    request.conditionExpression.elim [] placeholders

/-- A request may not assign an attribute twice, assign a part of the key, or bind a value that no
expression uses. -/
def Admissible (request : UpdateRequest α) (targets : List String) : Prop :=
  targets.Nodup ∧ (∀ name ∈ targets, name ∉ request.key.map Prod.fst) ∧
    ∀ b ∈ request.values.map Prod.fst, b ∈ request.used

instance (request : UpdateRequest α) (targets : List String) :
    Decidable (request.Admissible targets) := inferInstanceAs (Decidable (_ ∧ _))

/-- What the service reads in a request that it does not refuse. -/
def plan (reserved : List String) (request : UpdateRequest α) : Option (Plan α) := do
  let assignments ← request.updateExpression.bind (parseUpdate reserved)
  let tests ← request.conditionExpression.elim (some []) (parseCondition reserved)
  if request.Admissible (assignments.map Prod.fst) then
    let tests ← tests.mapM (Test.resolve request.values)
    let assignments ← assignments.mapM fun a => (request.values.lookup a.2).map (a.1, ·)
    return ⟨tests, assignments⟩
  else none

/-- Every placeholder of the request is bound, and to one value. -/
def BoundOnce (request : UpdateRequest α) : Prop :=
  request.used.Perm (request.values.map Prod.fst) ∧ (request.values.map Prod.fst).Nodup

/-- The request's expressions say these tests and assignments. Each operand stands with the
value bound to it. -/
structure Says (reserved : List String) (request : UpdateRequest α)
    (tests : List (Test (String × α))) (assignments : List (String × String × α)) : Prop where
  update : ∃ s, request.updateExpression = some s ∧
    Assignments s (assignments.map fun a => (a.1, a.2.1))
  condition : ∃ s, request.conditionExpression = some s ∧
    Conjunction s (tests.map (Test.map Prod.fst))
  tests_ne : tests ≠ []
  test_names : ∀ test ∈ tests, IsName reserved test.name
  targets : ∀ a ∈ assignments, IsName reserved a.1
  once : (assignments.map Prod.fst).Nodup
  no_key : ∀ name ∈ assignments.map Prod.fst, name ∉ request.key.map Prod.fst
  values : request.values.Perm (tests.flatMap Test.operands ++ assignments.map Prod.snd)
  distinct : (request.values.map Prod.fst).Nodup

end UpdateRequest

theorem lookup_of_mem {values : List (String × α)} (hd : (values.map Prod.fst).Nodup)
    {b : String} {v : α} (hmem : (b, v) ∈ values) : values.lookup b = some v := by
  induction values with
  | nil => simp at hmem
  | cons first values ih =>
    obtain ⟨b', v'⟩ := first
    rw [List.map_cons, List.nodup_cons] at hd
    obtain hfirst | hlater := List.mem_cons.mp hmem
    · cases hfirst
      simp
    · have hne : b ≠ b' := by
        intro heq
        exact hd.1 (List.mem_map.mpr ⟨(b, v), hlater, heq⟩)
      rw [List.lookup_cons, beq_false_of_ne hne]
      exact ih hd.2 hlater

theorem mapM_resolve {values : List (String × α)} {tests : List (Test (String × α))}
    (h : ∀ operand ∈ tests.flatMap Test.operands, values.lookup operand.1 = some operand.2) :
    (tests.map (Test.map Prod.fst)).mapM (Test.resolve values) =
      some (tests.map (Test.map Prod.snd)) := by
  induction tests with
  | nil => rfl
  | cons test tests ih =>
    rw [List.flatMap_cons] at h
    rw [List.map_cons, List.mapM_cons,
      ih fun operand hoperand => h operand (List.mem_append_right _ hoperand)]
    cases test with
    | attributeExists name => rfl
    | equals name operand =>
      have hoperand := h operand (List.mem_append_left _ (by simp [Test.operands]))
      simp [Test.map, Test.resolve, hoperand]

theorem mapM_lookup {values : List (String × α)} {assignments : List (String × String × α)}
    (h : ∀ operand ∈ assignments.map Prod.snd, values.lookup operand.1 = some operand.2) :
    (assignments.map fun a => (a.1, a.2.1)).mapM
        (fun a => (values.lookup a.2).map (a.1, ·)) =
      some (assignments.map fun a => (a.1, a.2.2)) := by
  induction assignments with
  | nil => rfl
  | cons a assignments ih =>
    have ha := h a.2 (by simp)
    rw [List.map_cons, List.mapM_cons,
      ih fun operand hoperand => h operand (List.mem_cons_of_mem _ hoperand)]
    simp [ha]

namespace UpdateRequest.Says

variable {reserved : List String} {request : UpdateRequest α}
  {tests : List (Test (String × α))} {assignments : List (String × String × α)}

theorem operands_map (tests : List (Test (String × α))) :
    (tests.map (Test.map Prod.fst)).flatMap Test.operands =
      (tests.flatMap Test.operands).map Prod.fst := by
  rw [List.flatMap_map, List.map_flatMap]
  congr 1
  funext test
  cases test <;> rfl

theorem boundOnce (h : request.Says reserved tests assignments) : request.BoundOnce := by
  obtain ⟨u, hu, hassignments⟩ := h.update
  obtain ⟨c, hc, hconjunction⟩ := h.condition
  refine ⟨?_, h.distinct⟩
  have hused : request.used = (assignments.map Prod.snd ++ tests.flatMap Test.operands).map
      Prod.fst := by
    simp [used, hu, hc, hassignments.placeholders_eq, hconjunction.placeholders_eq,
      operands_map, Function.comp_def]
  rw [hused]
  exact (List.perm_append_comm.trans h.values.symm).map Prod.fst

theorem plan_eq (h : request.Says reserved tests assignments) :
    request.plan reserved = some ⟨tests.map (Test.map Prod.snd),
      assignments.map fun a => (a.1, a.2.2)⟩ := by
  obtain ⟨u, hu, hassignments⟩ := h.update
  obtain ⟨c, hc, hconjunction⟩ := h.condition
  have hupdate : parseUpdate reserved u = some (assignments.map fun a => (a.1, a.2.1)) := by
    refine hassignments.parseUpdate_eq fun a ha => ?_
    obtain ⟨a', ha', rfl⟩ := List.mem_map.mp ha
    exact h.targets a' ha'
  have hcondition : parseCondition reserved c = some (tests.map (Test.map Prod.fst)) := by
    refine hconjunction.parseCondition_eq (by simpa using h.tests_ne) fun test htest => ?_
    obtain ⟨test', htest', rfl⟩ := List.mem_map.mp htest
    have hname := h.test_names test' htest'
    cases test' <;> exact hname
  have hlookup : ∀ operand ∈ tests.flatMap Test.operands ++ assignments.map Prod.snd,
      request.values.lookup operand.1 = some operand.2 := by
    intro operand hoperand
    exact lookup_of_mem h.distinct (h.values.mem_iff.mpr hoperand)
  have hadmissible : request.Admissible
      ((assignments.map fun a => (a.1, a.2.1)).map Prod.fst) := by
    rw [List.map_map]
    exact ⟨h.once, h.no_key, fun b hb => h.boundOnce.1.mem_iff.mpr hb⟩
  have htests := mapM_resolve fun operand ho => hlookup operand (List.mem_append_left _ ho)
  have hassign := mapM_lookup fun operand ho => hlookup operand (List.mem_append_right _ ho)
  simp only [plan, hu, hc, hupdate, hcondition, Option.bind_some, Option.elim_some,
    Option.bind_eq_bind, if_pos hadmissible, htests, hassign]
  rfl

end UpdateRequest.Says

variable [BEq α]

def has (item : Item α) (required : String × α) : Bool :=
  (item required.1).any (· == required.2)

def matchesKey (key : List (String × α)) (item : Item α) : Bool := key.all (has item)

def Test.holds (item : Item α) : Test α → Bool
  | .attributeExists name => (item name).isSome
  | .equals name value => has item (name, value)

def assign (assignments : List (String × α)) (item : Item α) : Item α := fun name =>
  (assignments.lookup name).or (item name)

/-- The table after the item under the key has been assigned to. -/
def assignAt (key assignments : List (String × α)) (items : List (Item α)) : List (Item α) :=
  items.modify (items.findIdx (matchesKey key)) (assign assignments)

def UpdateRequest.apply (reserved : List String) (request : UpdateRequest α)
    (items : List (Item α)) : Except Rejection (List (Item α)) :=
  match request.plan reserved with
  | none => .error .validation
  | some plan =>
    let stored := items.find? (matchesKey request.key)
    if plan.tests.all (Test.holds (stored.getD fun _ => none)) then
      match stored with
      | some _ => .ok (assignAt request.key plan.assignments items)
      | none => .ok (items ++ [assign plan.assignments (assign request.key fun _ => none)])
    else .error .conditionalCheckFailed

/-- The update of an item that must exist and have the required values. -/
def setIfMet (key condition assignments : List (String × α)) (items : List (Item α)) :
    Except Rejection (List (Item α)) :=
  match items.find? (matchesKey key) with
  | some item =>
    if condition.all (has item) then .ok (assignAt key assignments items)
    else .error .conditionalCheckFailed
  | none => .error .conditionalCheckFailed

variable {reserved : List String} {request : UpdateRequest α} {plan : Plan α}

theorem isSome_of_has {item : Item α} {required : String × α} (h : has item required = true) :
    (item required.1).isSome = true := by
  cases hitem : item required.1 with
  | none => simp [has, hitem] at h
  | some value => rfl

/-- It is enough that the tests mean the condition on an item under the key, and that they fail
where there is none. -/
theorem apply_eq_setIfMet (condition : List (String × α)) (items : List (Item α))
    (hplan : request.plan reserved = some plan)
    (hmet : ∀ item, matchesKey request.key item →
      plan.tests.all (Test.holds item) = condition.all (has item))
    (habsent : plan.tests.all (Test.holds fun _ => none) = false) :
    request.apply reserved items =
      setIfMet request.key condition plan.assignments items := by
  simp only [UpdateRequest.apply, hplan, setIfMet]
  cases hfind : items.find? (matchesKey request.key) with
  | none => simp [habsent]
  | some item => simp only [Option.getD_some, hmet item (List.find?_some hfind)]

end Expression
