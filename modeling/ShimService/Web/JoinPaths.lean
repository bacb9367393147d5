import ShimService.Library.Runs
import ShimService.Web.PathUtils

/-! `join_paths` normalises segments that nowhere put three slashes in a row. -/
namespace ShimService.Web

open Runs

variable {path arg l p q : List Char} {args : List String} {segments : List (List Char)}

/-- What joining is to give: parts between single slashes, none of them lost. -/
structure Normalised (args : List String) (result : String) : Prop where
  single : ¬ ['/', '/'] <:+: result.toList
  no_trailing : result.toList.getLast? ≠ some '/'
  parts : splitPath result = args.flatMap splitPath
  stable : joinPaths [result] false = result

/-- The slashes behind the last other character of the segments, the latest first. An empty segment
adds one to a path that does not end in one yet. -/
def endSlashes : List (List Char) → ℕ
  | [] => 0
  | segment :: before =>
    if segment = [] then
      if before.flatten = [] then 0 else max 1 (endSlashes before)
    else if segment.all (· = '/') then segment.length + endSlashes before
    else trailing '/' segment

/-- No segment has three slashes in a row, and none brings the slashes before it to three. -/
def NoThirdSlash (segments : List (List Char)) : Prop :=
  ∀ before segment after, segments = before ++ segment :: after →
    ¬ ['/', '/', '/'] <:+: segment ∧ endSlashes before.reverse + leading '/' segment ≤ 2

theorem joinArg_eq_nil_iff : joinArg path arg = [] ↔ path = [] ∧ arg = [] := by
  unfold joinArg
  split
  · rename_i h
    simp [List.ne_nil_of_length_pos h.1]
  · simp

theorem joined_eq_nil_iff : segments.foldl joinArg [] = [] ↔ segments.flatten = [] := by
  induction segments using List.reverseRecOn with
  | nil => simp
  | append_singleton segments segment ih =>
    rw [List.foldl_append, List.foldl_cons, List.foldl_nil, joinArg_eq_nil_iff, ih]
    simp

/-- A slash is put in only where there is none on either side. -/
theorem joinArg_cases (path arg : List Char) : (joinArg path arg = path ++ '/' :: arg ∧ path ≠ [] ∧
      trailing '/' path = 0 ∧ leading '/' arg = 0) ∨
    (joinArg path arg = path ++ arg ∧
      (path = [] ∨ 0 < trailing '/' path ∨ 0 < leading '/' arg)) := by
  unfold joinArg
  split
  · rename_i h
    obtain ⟨hpath, hlast, hfirst⟩ := h
    refine .inl ⟨rfl, List.ne_nil_of_length_pos hpath, ?_, ?_⟩
    · exact Nat.eq_zero_of_not_pos fun hpos => hlast (trailing_pos_iff.mp hpos)
    · exact Nat.eq_zero_of_not_pos fun hpos => hfirst (leading_pos_iff.mp hpos)
  · rename_i h
    refine .inr ⟨rfl, ?_⟩
    rw [trailing_pos_iff, leading_pos_iff]
    by_contra hnone
    simp only [not_or] at hnone
    exact h ⟨List.length_pos_of_ne_nil hnone.1, hnone.2.1, hnone.2.2⟩

theorem joinArg_triple : ['/', '/', '/'] <:+: joinArg path arg ↔ ['/', '/', '/'] <:+: path ∨
    ['/', '/', '/'] <:+: arg ∨ 3 ≤ trailing '/' path + leading '/' arg := by
  have happend := fun m => @replicate_isInfix_append_iff _ _ '/' path m 3
  have hprefix := fun m => @replicate_isPrefix_iff _ _ '/' m 3
  simp only [List.replicate] at happend hprefix
  rcases joinArg_cases path arg with ⟨heq, _, hpath, harg⟩ | ⟨heq, _⟩
  · rw [heq, happend, List.infix_cons_iff, hprefix, leading_cons_self, hpath, harg]
    simp
  · rw [heq, happend]

theorem trailing_joinArg : trailing '/' (joinArg path arg) =
    if arg = [] then if path = [] then 0 else max 1 (trailing '/' path)
    else if arg.all (· = '/') then arg.length + trailing '/' path
    else trailing '/' arg := by
  by_cases hempty : arg = []
  · subst hempty
    rw [if_pos rfl]
    rcases joinArg_cases path [] with ⟨heq, hne, hpath, _⟩ | ⟨heq, hcase⟩
    · have hlast : trailing '/' (path ++ ['/']) = 1 + trailing '/' path :=
        trailing_append_of_all (by simp)
      rw [heq, if_neg hne, hlast, hpath]
      rfl
    · rw [heq, List.append_nil]
      split
      · rename_i hpath
        rw [hpath, trailing_nil]
      · rename_i hpath
        simp only [hpath, leading_nil, Nat.lt_irrefl, or_false, false_or] at hcase
        exact (Nat.max_eq_right hcase).symm
  · rw [if_neg hempty]
    split
    · rename_i hall
      have hslashes : ∀ a ∈ arg, a = '/' := by simpa using hall
      rcases joinArg_cases path arg with ⟨_, _, _, hfirst⟩ | ⟨heq, _⟩
      · obtain ⟨a, rest, rfl⟩ := List.exists_cons_of_ne_nil hempty
        obtain rfl := hslashes a List.mem_cons_self
        simp at hfirst
      · rw [heq, trailing_append_of_all hslashes]
    · rename_i hall
      obtain ⟨a, ha, hne⟩ : ∃ a ∈ arg, a ≠ '/' := by simpa using hall
      rcases joinArg_cases path arg with ⟨heq, _⟩ | ⟨heq, _⟩
      · rw [heq, List.append_cons, trailing_append_of_mem ha hne]
      · rw [heq, trailing_append_of_mem ha hne]

theorem trailing_joined :
    trailing '/' (segments.foldl joinArg []) = endSlashes segments.reverse := by
  induction segments using List.reverseRecOn with
  | nil => rfl
  | append_singleton segments segment ih =>
    rw [List.foldl_append, List.foldl_cons, List.foldl_nil, List.reverse_append,
      List.reverse_singleton, List.singleton_append, endSlashes, trailing_joinArg, ih]
    simp only [joined_eq_nil_iff, List.flatten_eq_nil_iff, List.mem_reverse]

/-- The joined segments have three slashes in a row exactly where the condition fails. -/
theorem joined_triple_iff :
    ¬ ['/', '/', '/'] <:+: segments.foldl joinArg [] ↔ NoThirdSlash segments := by
  induction segments using List.reverseRecOn with
  | nil =>
    refine iff_of_true (by decide) fun before segment after heq => ?_
    simp at heq
  | append_singleton segments segment ih =>
    rw [List.foldl_append, List.foldl_cons, List.foldl_nil, joinArg_triple, not_or, not_or, ih,
      trailing_joined]
    constructor
    · rintro ⟨hbefore, htriple, hmeet⟩ before s after heq
      rcases List.eq_nil_or_concat after with rfl | ⟨after, last, rfl⟩
      · obtain ⟨rfl, rfl⟩ := List.append_inj' heq rfl |>.imp id List.singleton_inj.mp
        exact ⟨htriple, by omega⟩
      · rw [List.concat_eq_append, ← List.cons_append, ← List.append_assoc] at heq
        exact hbefore before s after (List.append_inj' heq rfl).1
    · intro h
      refine ⟨fun before s after heq => h before s (after ++ [segment]) (by simp [heq]), ?_⟩
      obtain ⟨htriple, hmeet⟩ := h segments segment [] rfl
      exact ⟨htriple, by omega⟩

theorem head_replaceDouble : (replaceDouble l).head? = l.head? := by
  unfold replaceDouble
  split <;> rfl

theorem double_prefix_iff : ['/', '/'] <+: '/' :: l ↔ l.head? = some '/' := by
  cases l with
  | nil => simp
  | cons a l => simp [List.cons_prefix_cons, eq_comm]

/-- One pass halves every run, so two slashes are left of three. -/
theorem replaceDouble_double_iff :
    ['/', '/'] <:+: replaceDouble l ↔ ['/', '/', '/'] <:+: l := by
  induction l using replaceDouble.induct with
  | case1 rest ih =>
    have htriple : ['/', '/', '/'] <+: '/' :: '/' :: rest ↔ rest.head? = some '/' := by
      rw [List.cons_prefix_cons, double_prefix_iff]
      simp
    have hweaker : ['/', '/', '/'] <+: '/' :: rest → rest.head? = some '/' := by
      intro h
      exact double_prefix_iff.mp ((List.prefix_append ['/', '/'] ['/']).trans h)
    rw [replaceDouble, List.infix_cons_iff, double_prefix_iff, head_replaceDouble, ih,
      List.infix_cons_iff, htriple, List.infix_cons_iff]
    tauto
  | case2 c rest hpair ih =>
    have hsingle : ∀ m : List Char, m.head? = rest.head? → ¬ ['/', '/'] <+: c :: m := by
      intro m hm hprefix
      obtain rfl : '/' = c := (List.cons_prefix_cons.mp hprefix).1
      rw [double_prefix_iff, hm] at hprefix
      obtain ⟨rest', rfl⟩ := List.head?_eq_some_iff.mp hprefix
      exact hpair _ rfl rfl
    have hno : ¬ ['/', '/', '/'] <+: c :: rest := fun h =>
      hsingle rest rfl ((List.prefix_append ['/', '/'] ['/']).trans h)
    rw [replaceDouble, List.infix_cons_iff, ih, List.infix_cons_iff]
    · simp only [hsingle _ head_replaceDouble, hno, false_or]
    · exact hpair
  | case3 => simp [replaceDouble]

theorem replaceDouble_of_single (h : ¬ ['/', '/'] <:+: l) : replaceDouble l = l := by
  induction l using replaceDouble.induct with
  | case1 rest => exact absurd (List.prefix_append ['/', '/'] rest).isInfix h
  | case2 c rest hpair ih =>
    rw [replaceDouble, ih fun hrest => h (List.infix_cons hrest)]
    exact hpair
  | case3 => rfl

/-- The parts of a path, as lists of characters. -/
def partsOf (l : List Char) : List (List Char) := (l.splitOn '/').filter (· ≠ [])

@[simp] theorem partsOf_nil : partsOf [] = [] := rfl

theorem partsOf_append : partsOf (p ++ '/' :: q) = partsOf p ++ partsOf q := by
  rw [partsOf, List.splitOn_append_cons_self, List.filter_append, partsOf, partsOf]

theorem partsOf_cons : partsOf ('/' :: q) = partsOf q := partsOf_append (p := [])

theorem partsOf_concat : partsOf (p ++ ['/']) = partsOf p := by
  rw [partsOf_append, partsOf_nil, List.append_nil]

theorem splitPath_ofList : splitPath (String.ofList l) = (partsOf l).map String.ofList := by
  rw [splitPath, Text.split, String.toList_ofList, List.filter_map, partsOf]
  refine congrArg (List.map _) (List.filter_congr fun piece _ => ?_)
  simp [List.length_pos_iff]

theorem partsOf_joinArg : partsOf (joinArg path arg) = partsOf path ++ partsOf arg := by
  rcases joinArg_cases path arg with ⟨heq, _⟩ | ⟨heq, rfl | hlast | hfirst⟩
  · rw [heq, partsOf_append]
  · rw [heq]
    rfl
  · obtain ⟨front, rfl⟩ := List.getLast?_eq_some_iff.mp (trailing_pos_iff.mp hlast)
    rw [heq, partsOf_concat, List.append_assoc, List.singleton_append, partsOf_append]
  · obtain ⟨rest, rfl⟩ := List.head?_eq_some_iff.mp (leading_pos_iff.mp hfirst)
    rw [heq, partsOf_append, partsOf_cons]

theorem partsOf_joined : partsOf (segments.foldl joinArg []) = segments.flatMap partsOf := by
  induction segments using List.reverseRecOn with
  | nil => rfl
  | append_singleton segments segment ih =>
    rw [List.foldl_append, List.foldl_cons, List.foldl_nil, partsOf_joinArg, ih,
      List.flatMap_append, List.flatMap_singleton]

theorem partsOf_append_replaceDouble : partsOf (p ++ replaceDouble l) = partsOf (p ++ l) := by
  induction l using replaceDouble.induct generalizing p with
  | case1 rest ih =>
    have hrest : partsOf (replaceDouble rest) = partsOf rest := ih (p := [])
    rw [replaceDouble, partsOf_append, hrest, partsOf_append, partsOf_cons]
  | case2 c rest hpair ih =>
    rw [replaceDouble, List.append_cons, ih, ← List.append_cons]
    exact hpair
  | case3 => rfl

theorem dropLast_single (h : ¬ ['/', '/'] <:+: l) (hlast : l.getLast? = some '/') :
    ¬ ['/', '/'] <:+: l.dropLast ∧ l.dropLast.getLast? ≠ some '/' := by
  obtain ⟨front, rfl⟩ := List.getLast?_eq_some_iff.mp hlast
  rw [List.dropLast_concat]
  refine ⟨fun hin => h (hin.trans (List.prefix_append _ _).isInfix), fun hfront => ?_⟩
  obtain ⟨front, rfl⟩ := List.getLast?_eq_some_iff.mp hfront
  exact h ⟨front, [], by simp⟩

/-- Taking one slash off the end does not mend two in a row. -/
theorem dropLast_double (h : ['/', '/'] <:+: l) :
    ['/', '/'] <:+: l.dropLast ∨ l.dropLast.getLast? = some '/' := by
  obtain ⟨front, back, rfl⟩ := h
  rcases List.eq_nil_or_concat back with rfl | ⟨back, last, rfl⟩
  · right
    rw [List.append_nil, List.dropLast_append_of_ne_nil (by simp)]
    simp
  · left
    rw [List.concat_eq_append, ← List.append_assoc, List.dropLast_concat]
    exact List.infix_append _ _ _

theorem joinPaths_singleton {r : String} (hsingle : ¬ ['/', '/'] <:+: r.toList)
    (hlast : r.toList.getLast? ≠ some '/') : joinPaths [r] false = r := by
  have hjoin : joinArg [] r.toList = r.toList := rfl
  simp [joinPaths, hjoin, replaceDouble_of_single hsingle, hlast]

theorem joinPaths_toList : (joinPaths args false).toList =
    (fun path : List Char => if path.getLast? = some '/' then path.dropLast else path)
      (replaceDouble ((args.map String.toList).foldl joinArg [])) := by
  unfold joinPaths
  dsimp only
  split <;> simp_all

theorem joinPaths_single_iff : ¬ ['/', '/'] <:+: (joinPaths args false).toList ∧
      (joinPaths args false).toList.getLast? ≠ some '/' ↔
    NoThirdSlash (args.map String.toList) := by
  rw [← joined_triple_iff, ← replaceDouble_double_iff, joinPaths_toList]
  dsimp only
  split
  · rename_i hlast
    refine ⟨fun ⟨hsingle, hend⟩ hdouble => ?_, fun h => dropLast_single h hlast⟩
    rcases dropLast_double hdouble with h | h
    · exact hsingle h
    · exact hend h
  · rename_i hlast
    exact and_iff_left hlast

/-- The parts survive the joining of any segments. -/
theorem splitPath_joinPaths : splitPath (joinPaths args false) = args.flatMap splitPath := by
  have hsplit : ∀ s : String, splitPath s = (partsOf s.toList).map String.ofList := by
    intro s
    rw [← splitPath_ofList, String.ofList_toList]
  have hpath : partsOf (replaceDouble ((args.map String.toList).foldl joinArg [])) =
      (args.map String.toList).flatMap partsOf := by
    rw [← partsOf_joined]
    exact partsOf_append_replaceDouble (p := [])
  have hresult : partsOf (joinPaths args false).toList =
      (args.map String.toList).flatMap partsOf := by
    rw [← hpath, joinPaths_toList]
    dsimp only
    split
    · rename_i hlast
      obtain ⟨front, hfront⟩ := List.getLast?_eq_some_iff.mp hlast
      rw [hfront, List.dropLast_concat, partsOf_concat]
    · rfl
  rw [hsplit, hresult, List.map_flatMap, List.flatMap_map]
  exact List.flatMap_congr fun arg _ => (hsplit arg).symm

/-- Joining normalises exactly the segments that nowhere put three slashes in a row. -/
theorem normalised_iff (args : List String) :
    Normalised args (joinPaths args false) ↔ NoThirdSlash (args.map String.toList) := by
  rw [← joinPaths_single_iff]
  constructor
  · intro h
    exact ⟨h.single, h.no_trailing⟩
  · rintro ⟨hsingle, hlast⟩
    exact ⟨hsingle, hlast, splitPath_joinPaths, joinPaths_singleton hsingle hlast⟩

/-- `join_paths("a/", "/", "/b")` is `a//b`. -/
theorem three_slashes_not_normalised :
    ¬ Normalised ["a/", "/", "/b"] (joinPaths ["a/", "/", "/b"] false) := by
  intro h
  have hresult : joinPaths ["a/", "/", "/b"] false = "a//b" := by decide
  rw [hresult] at h
  exact h.single ⟨['a'], ['b'], by decide⟩

/-- A base path is the joined path with one slash behind it. -/
theorem joinBasePath_eq (h : NoThirdSlash (args.map String.toList)) :
    joinBasePath args = joinPaths args false ++ "/" := by
  obtain ⟨hsingle, hlast⟩ := joinPaths_single_iff.mpr h
  have hslash : ¬ ['/', '/'] <:+: (joinPaths args false).toList ++ ['/'] := by
    rw [List.infix_concat_iff, not_or]
    refine ⟨fun ⟨front, hfront⟩ => ?_, hsingle⟩
    rw [List.append_cons] at hfront
    exact hlast (by rw [← (List.append_inj' hfront rfl).1, List.getLast?_concat])
  unfold joinBasePath
  dsimp only
  rw [if_pos hlast, replaceDouble_of_single hslash, String.ofList_append, String.ofList_toList]

end ShimService.Web
