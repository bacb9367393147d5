import Mathlib.Data.List.Forall2
import Mathlib.Data.List.Pairwise
import ShimService.Web.Router

/-! The order in which the controllers are loaded does not matter. -/
namespace ShimService.Web.Router

open Auth (LambdaHttpException)
open Web.Path (names isVariable matchTemplate Built)

variable {replace : List UInt8 → String} {path method : String} {args a b : RouteArgs}
  {specs order : List RouteArgs} {entries : List Entry} {routes : Table} {e : Entry}
  {ts ts' parts : List String} {found vars : OrderedDict String String}

/-- Two templates that differ in their length, or in a part that is no variable of either. -/
def apart (ts ts' : List String) : Bool :=
  ts.length != ts'.length ||
    (ts.zip ts').any fun p => !isVariable p.1 && !isVariable p.2 && p.1 != p.2

theorem matchTemplate_literals (h : matchTemplate replace ts parts found = some vars) :
    ts.length = parts.length ∧ ∀ (i : ℕ) (t p : String), ts[i]? = some t → isVariable t = false →
      parts[i]? = some p → p = t := by
  constructor
  · by_contra hne
    rw [Path.matchTemplate_of_length_ne hne] at h
    cases h
  · intro i t p ht hlit hp
    by_contra hne
    rw [Path.matchTemplate_literal ht hlit hp hne] at h
    cases h

/-- No path matches two templates that are apart. -/
theorem not_both_match (hapart : apart ts ts' = true)
    (h : matchTemplate replace ts parts found = some vars) :
    matchTemplate replace ts' parts found = none := by
  obtain ⟨hlength, hliterals⟩ := matchTemplate_literals h
  by_cases hsame : ts.length = ts'.length
  · simp only [apart, hsame, bne_self_eq_false, Bool.false_or, List.any_eq_true, Bool.and_eq_true,
      Bool.not_eq_true', bne_iff_ne] at hapart
    obtain ⟨⟨t, t'⟩, hmem, ⟨hlit, hlit'⟩, hne⟩ := hapart
    obtain ⟨i, hi⟩ := List.mem_iff_getElem?.mp hmem
    obtain ⟨ht, ht'⟩ := List.getElem?_zip_eq_some.mp hi
    obtain ⟨p, hp⟩ : ∃ p, parts[i]? = some p := by
      have hlt := (List.getElem?_eq_some_iff.mp ht).1
      exact ⟨_, List.getElem?_eq_getElem (hlength ▸ hlt)⟩
    obtain rfl := hliterals i t p ht hlit hp
    exact Path.matchTemplate_literal ht' hlit' hp hne
  · exact Path.matchTemplate_of_length_ne fun heq => hsame (hlength.trans heq.symm)

/-- What `add_route` and the constructors ask of a route. -/
structure WellFormed (args : RouteArgs) : Prop where
  variableNames : (names (splitPath args.path)).Nodup
  noQuestion : "?" ∉ splitPath args.path
  noQuery : args.path.toList.getLast? ≠ some '?'
  body : args.bodyTransformer.isSome = true → args.method.bodyAllowed = true

/-- An entry is the one for the arguments. -/
structure Represents (e : Entry) (args : RouteArgs) : Prop where
  args_eq : e.args = args
  built : Built { path := args.path } 0 (splitPath args.path) e.matchPath

instance : Decidable (WellFormed args) :=
  decidable_of_iff
    ((names (splitPath args.path)).Nodup ∧ "?" ∉ splitPath args.path ∧
      args.path.toList.getLast? ≠ some '?' ∧
      (args.bodyTransformer.isSome = true → args.method.bodyAllowed = true))
    ⟨fun ⟨h₁, h₂, h₃, h₄⟩ => ⟨h₁, h₂, h₃, h₄⟩, fun ⟨h₁, h₂, h₃, h₄⟩ => ⟨h₁, h₂, h₃, h₄⟩⟩

theorem init_represents (h : WellFormed args) :
    ∃ e, Entry.init args = .ok e ∧ Represents e args := by
  obtain ⟨p, hp, hbuilt⟩ : ∃ p, Path.init args.path = .ok p ∧
      Built { path := args.path } 0 (splitPath args.path) p :=
    Path.addParts_built (by simpa [OrderedDict.keys, OrderedDict.empty] using h.variableNames)
  refine ⟨⟨args, false, p⟩, ?_, rfl, hbuilt⟩
  simp [Entry.init, h.noQuery, hp, Except.map]

/-- Well-formed routes with keys of their own are all added, each after those before it. -/
theorem addRoutes_ok (hwell : ∀ args ∈ specs, WellFormed args)
    (hkeys : (routes.keys ++ specs.map RouteArgs.key).Nodup) :
    ∃ routes', addRoutes specs routes = .ok routes' ∧
      ∃ entries, routes'.values = routes.values ++ entries ∧
        List.Forall₂ Represents entries specs := by
  induction specs generalizing routes with
  | nil => exact ⟨routes, rfl, [], by simp, .nil⟩
  | cons args specs ih =>
    have hnew : args.key ∉ routes.keys := by
      intro hmem
      exact (List.nodup_append.mp hkeys).2.2 _ hmem _ List.mem_cons_self rfl
    have hargs := hwell args List.mem_cons_self
    obtain ⟨e, he, hrep⟩ := init_represents hargs
    have hadd : addRoute routes args = .ok (routes.set args.key e) := by
      have hbody : ¬ (args.bodyTransformer.isSome && !args.method.bodyAllowed) = true := by
        simpa using hargs.body
      rw [addRoute, if_neg hnew, if_neg hbody, he]
    have hkeys' : ((routes.set args.key e).keys ++ specs.map RouteArgs.key).Nodup := by
      simpa [OrderedDict.keys_set_of_not_mem hnew] using hkeys
    obtain ⟨routes', hroutes, entries, hvalues, hreps⟩ :=
      ih (fun a ha => hwell a (List.mem_cons_of_mem _ ha)) hkeys'
    refine ⟨routes', by rw [addRoutes, hadd]; exact hroutes, e :: entries, ?_, .cons hrep hreps⟩
    rw [hvalues, Table.values, OrderedDict.entries_set_of_not_mem hnew, List.map_append,
      List.append_assoc]
    rfl

/-- The route that a path matches, and the values of its variables. -/
def select (replace : List UInt8 → String) (path : String) (specs : List RouteArgs) :
    Option (RouteArgs × OrderedDict String String) :=
  specs.findSome? fun args =>
    (matchTemplate replace (splitPath args.path) (splitPath path) .empty).map (args, ·)

theorem firstMatch_eq (hreps : List.Forall₂ Represents entries specs)
    (hwell : ∀ args ∈ specs, WellFormed args) :
    ∃ r, firstMatch replace path (splitPath path) entries = .ok r ∧
      r.map (fun r => (r.1.args, r.2)) = select replace path specs := by
  induction hreps with
  | nil => exact ⟨none, rfl, rfl⟩
  | @cons e args entries specs hrep _ ih =>
    have hargs := hwell args List.mem_cons_self
    have hmatch : e.matchPath.matchesPath replace path (some (splitPath path)) =
        .ok (matchTemplate replace (splitPath args.path) (splitPath path) .empty) :=
      Path.matchesPath_eq hrep.built hargs.noQuestion (.inr rfl)
    rw [firstMatch, hmatch, select, List.findSome?_cons]
    cases matchTemplate replace (splitPath args.path) (splitPath path) .empty with
    | none => exact ih fun a ha => hwell a (List.mem_cons_of_mem _ ha)
    | some vars => exact ⟨some (e, vars), rfl, by simp [hrep.args_eq]⟩

theorem filter_represents (hreps : List.Forall₂ Represents entries specs) :
    List.Forall₂ Represents (entries.filter fun r => r.args.method.name = method)
      (specs.filter fun args => args.method.name = method) := by
  induction hreps with
  | nil => exact .nil
  | @cons e args entries specs hrep _ ih =>
    by_cases hmethod : args.method.name = method
    · have hentry : e.args.method.name = method := hrep.args_eq ▸ hmethod
      rw [List.filter_cons_of_pos (by simpa using hentry),
        List.filter_cons_of_pos (by simpa using hmethod)]
      exact .cons hrep ih
    · have hentry : ¬ e.args.method.name = method := hrep.args_eq ▸ hmethod
      rw [List.filter_cons_of_neg (by simpa using hentry),
        List.filter_cons_of_neg (by simpa using hmethod)]
      exact ih

/-- Two routes of one method are not both for one path. -/
def Disjoint (a b : RouteArgs) : Prop :=
  a.method.name = b.method.name → apart (splitPath a.path) (splitPath b.path) = true

instance : DecidableRel Disjoint := fun a b => by unfold Disjoint; infer_instance

/-- A search that at most one element passes does not depend on the order. -/
theorem findSome?_perm {α β : Type} {f : α → Option β} {as bs : List α} (hperm : as.Perm bs)
    (hone : as.Pairwise fun a b => (f a).isSome → (f b).isSome → False) :
    as.findSome? f = bs.findSome? f := by
  induction hperm with
  | nil => rfl
  | cons a _ ih =>
    rw [List.findSome?_cons, List.findSome?_cons, ih (List.pairwise_cons.mp hone).2]
  | swap a b as =>
    have hab := (List.pairwise_cons.mp hone).1 a List.mem_cons_self
    simp only [List.findSome?_cons]
    cases hb : f b with
    | none => rfl
    | some w =>
      cases ha : f a with
      | none => rfl
      | some v => exact (hab (by simp [hb]) (by simp [ha])).elim
  | trans h₁ _ ih₁ ih₂ =>
    have hone' := (h₁.pairwise_iff fun h ha hb => h hb ha).mp hone
    exact (ih₁ hone).trans (ih₂ hone')

theorem select_perm (hperm : order.Perm specs) (hdisjoint : specs.Pairwise Disjoint) :
    select replace path (order.filter fun args => args.method.name = method) =
      select replace path (specs.filter fun args => args.method.name = method) := by
  refine (findSome?_perm (hperm.symm.filter _) ?_).symm
  refine (hdisjoint.filter _).imp_of_mem fun {a b} ha hb hab hpa hpb => ?_
  have hma : a.method.name = method := by simpa using (List.mem_filter.mp ha).2
  have hmb : b.method.name = method := by simpa using (List.mem_filter.mp hb).2
  rw [Option.isSome_map, Option.isSome_iff_exists] at hpa hpb
  obtain ⟨va, hva⟩ := hpa
  obtain ⟨vb, hvb⟩ := hpb
  rw [not_both_match (hab (hma.trans hmb.symm)) hva] at hvb
  cases hvb

theorem select_isSome_perm (hperm : order.Perm specs) :
    (select replace path order).isSome = (select replace path specs).isSome := by
  unfold select
  rw [Bool.eq_iff_iff, List.findSome?_isSome_iff, List.findSome?_isSome_iff]
  constructor
  · rintro ⟨a, ha, hmatch⟩
    exact ⟨a, hperm.mem_iff.mp ha, hmatch⟩
  · rintro ⟨a, ha, hmatch⟩
    exact ⟨a, hperm.mem_iff.mpr ha, hmatch⟩

open Program (raise)

/-- What is done with a request where the routes are told by their arguments. -/
def answer {ω ρ : Type} (replace : List UInt8 → String) (specs : List RouteArgs)
    (path method : String) (authenticate : RouteArgs → Outside ω Unit)
    (invoke : RouteArgs → OrderedDict String String → Outside ω ρ) :
    Program (State ω) Failure ρ :=
  match select replace path (specs.filter fun args => args.method.name = method) with
  | some (route, params) => do
    call (.authenticate route) (authenticate route)
    call (.invoke route params) (invoke route params)
  | none =>
    if (select replace path specs).isSome then raise (.lambdaHttp methodNotAllowedException none)
    else raise (.lambdaHttp notFoundException none)

/-- Routes that do not overlap may be added in any order. -/
theorem process_eq_answer {ω ρ : Type} (hwell : ∀ args ∈ specs, WellFormed args)
    (hkeys : (specs.map RouteArgs.key).Nodup) (hdisjoint : specs.Pairwise Disjoint)
    (hperm : order.Perm specs) : ∃ routes, addRoutes order .empty = .ok routes ∧
      ∀ (replace : List UInt8 → String) (path method : String)
        (authenticate : RouteArgs → Outside ω Unit)
        (invoke : RouteArgs → OrderedDict String String → Outside ω ρ),
        process replace routes path method authenticate invoke =
          answer replace specs path method authenticate invoke := by
  have hwell' : ∀ args ∈ order, WellFormed args := fun a ha => hwell a (hperm.mem_iff.mp ha)
  have hkeys' : ((OrderedDict.empty : Table).keys ++ order.map RouteArgs.key).Nodup := by
    simpa [OrderedDict.keys, OrderedDict.empty] using (hperm.map _).nodup_iff.mpr hkeys
  obtain ⟨routes, hroutes, entries, hvalues, hreps⟩ := addRoutes_ok hwell' hkeys'
  have hvalues : routes.values = entries := hvalues
  refine ⟨routes, hroutes, fun replace path method authenticate invoke => ?_⟩
  have hreps' : List.Forall₂ Represents (entries.filter fun r => r.args.method.name = method)
      (order.filter fun args => args.method.name = method) := filter_represents hreps
  have hfirst : ∃ r, firstMatch replace path (splitPath path) _ = .ok r ∧ _ :=
    firstMatch_eq hreps' fun a ha => hwell' a (List.mem_of_mem_filter ha)
  have hfirstAny : ∃ r, firstMatch replace path (splitPath path) _ = .ok r ∧ _ :=
    firstMatch_eq hreps hwell'
  obtain ⟨full, hfull, hselect⟩ := hfirst
  obtain ⟨any, hany, hselectAny⟩ := hfirstAny
  rw [select_perm hperm hdisjoint] at hselect
  have hsome : any.isSome = (select replace path specs).isSome := by
    rw [← select_isSome_perm hperm, ← hselectAny, Option.isSome_map]
  unfold process answer findFullRoute findRoute
  rw [hvalues, hfull, hany, ← hselect, ← hsome]
  cases full with
  | some r => rfl
  | none => cases any <;> rfl

/-! ### The controllers -/

theorem controllers_fit : (∀ args ∈ controllers, WellFormed args) ∧
    (controllers.map RouteArgs.key).Nodup ∧ controllers.Pairwise Disjoint := by decide +kernel

/-- However the controllers are loaded, a request for one of their routes is authenticated for that
route before its handler runs, and any other is answered 415 or 404 with nothing run. -/
theorem requests_in_any_order {ω ρ : Type} (hperm : order.Perm controllers) :
    ∃ routes, addRoutes order .empty = .ok routes ∧
      ∀ (replace : List UInt8 → String) (path method : String)
        (authenticate : RouteArgs → Outside ω Unit)
        (invoke : RouteArgs → OrderedDict String String → Outside ω ρ),
        process replace routes path method authenticate invoke =
          answer replace controllers path method authenticate invoke := by
  obtain ⟨hwell, hkeys, hdisjoint⟩ := controllers_fit
  exact process_eq_answer hwell hkeys hdisjoint hperm

theorem requests_in_any_order_reversed :
    ∃ routes, addRoutes controllers.reverse .empty = .ok routes ∧
      ∀ (replace : List UInt8 → String) (path method : String)
        (authenticate : RouteArgs → Outside Unit Unit)
        (invoke : RouteArgs → OrderedDict String String → Outside Unit Unit),
        process replace routes path method authenticate invoke =
          answer replace controllers path method authenticate invoke :=
  requests_in_any_order controllers.reverse_perm

end ShimService.Web.Router
