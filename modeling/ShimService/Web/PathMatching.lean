import ShimService.Web.PathUtils

/-! Matching a path gives back the values that its template was filled with. -/
namespace ShimService.Web.Path

variable {self p : Path} {replace : List UInt8 → String} {template parts : List String}
  {index : ℕ} {found : OrderedDict String String} {value : String → String}

/-- The names of the variables, in their order. -/
def names (template : List String) : List String := (template.filter isVariable).map varName

def shown (p : String) : String := if isVariable p then "?" else p

/-- What `matches` decides, said of the template's own parts. -/
def matchTemplate (replace : List UInt8 → String) : List String → List String →
    OrderedDict String String → Option (OrderedDict String String)
  | [], [], found => some found
  | p :: template, part :: parts, found =>
    if isVariable p then
      matchTemplate replace template parts (found.set (varName p) (decodeFromUrl replace part))
    else if p = part then matchTemplate replace template parts found
    else none
  | _, _, _ => none

def filled (value : String → String) (p : String) : String :=
  if isVariable p then encodeForUrl (value (varName p)) else p

/-- The template with a quoted value for each variable. -/
def fill (value : String → String) (template : String) : String :=
  Text.join '/' ((Text.split '/' template).map (filled value))

theorem names_cons_of_variable {t : String} (h : isVariable t = true) :
    names (t :: template) = varName t :: names template := by
  simp [names, h]

theorem names_cons_of_literal {t : String} (h : isVariable t = false) :
    names (t :: template) = names template := by
  simp [names, h]

theorem shown_eq_iff {t : String} (h : t ≠ "?") : shown t = "?" ↔ isVariable t = true := by
  unfold shown
  split <;> simp_all

/-- What the constructor's loop has done to a path. -/
structure Built (start : Path) (index : ℕ) (template : List String) (p : Path) : Prop where
  path : p.path = start.path
  parts : p.parts = start.parts ++ template.map shown
  names : p.partNames.keys = start.partNames.keys ++ names template
  earlier : ∀ j < index, p.partIndices.find j = start.partIndices.find j
  places : ∀ (k : ℕ) (t : String), template[k]? = some t → isVariable t = true →
    p.partIndices.find (index + k) = some (varName t)

theorem addParts_built (h : (self.partNames.keys ++ names template).Nodup) :
    ∃ p, self.addParts index template = .ok p ∧ Built self index template p := by
  induction template generalizing self index with
  | nil =>
    refine ⟨self, rfl, rfl, by simp, by simp [names], fun _ _ => rfl, ?_⟩
    intro k t ht
    simp at ht
  | cons t template ih =>
    rw [addParts]
    by_cases hvar : isVariable t = true
    · rw [names_cons_of_variable hvar] at h
      have hnew : varName t ∉ self.partNames.keys := by
        intro hmem
        exact (List.nodup_append.mp h).2.2 _ hmem _ List.mem_cons_self rfl
      rw [if_pos hvar, if_neg hnew]
      obtain ⟨p, hp, hbuilt⟩ := @ih { self with
          partNames := self.partNames.set (varName t) index
          partIndices := self.partIndices.set index (varName t)
          parts := self.parts ++ ["?"] } (index + 1)
        (by simpa [OrderedDict.keys_set_of_not_mem hnew] using h)
      refine ⟨p, hp, hbuilt.path, ?_, ?_, fun j hj => ?_, fun k u hu hvu => ?_⟩
      · rw [hbuilt.parts]
        simp [shown, hvar]
      · rw [hbuilt.names, names_cons_of_variable hvar, OrderedDict.keys_set_of_not_mem hnew]
        simp
      · rw [hbuilt.earlier j (Nat.lt_succ_of_lt hj), OrderedDict.find_set,
          if_neg (Nat.ne_of_lt hj)]
      · cases k with
        | zero =>
          obtain rfl : t = u := by simpa using hu
          rw [Nat.add_zero, hbuilt.earlier index (Nat.lt_succ_self _), OrderedDict.find_set,
            if_pos rfl]
        | succ k =>
          have hplace := hbuilt.places k u hu hvu
          rwa [Nat.add_right_comm] at hplace
    · have hlit : isVariable t = false := by simpa using hvar
      rw [names_cons_of_literal hlit] at h
      rw [if_neg hvar]
      obtain ⟨p, hp, hbuilt⟩ := @ih { self with parts := self.parts ++ [t] } (index + 1) h
      refine ⟨p, hp, hbuilt.path, ?_, ?_, fun j hj => ?_, fun k u hu hvu => ?_⟩
      · rw [hbuilt.parts]
        simp [shown, hlit]
      · rw [hbuilt.names, names_cons_of_literal hlit]
      · exact hbuilt.earlier j (Nat.lt_succ_of_lt hj)
      · cases k with
        | zero =>
          obtain rfl : t = u := by simpa using hu
          rw [hlit] at hvu
          cases hvu
        | succ k =>
          have hplace := hbuilt.places k u hu hvu
          rwa [Nat.add_right_comm] at hplace

theorem matchParts_eq (hplaces : ∀ (k : ℕ) (t : String), template[k]? = some t →
      isVariable t = true → self.partIndices.find (index + k) = some (varName t))
    (hlit : "?" ∉ template) (hlength : template.length = parts.length) :
    self.matchParts replace index ((template.map shown).zip parts) found =
      .ok (matchTemplate replace template parts found) := by
  induction template generalizing parts index found with
  | nil =>
    obtain rfl : parts = [] := List.length_eq_zero_iff.mp hlength.symm
    rfl
  | cons t template ih =>
    obtain ⟨part, parts, rfl⟩ := List.exists_cons_of_length_eq_add_one hlength.symm
    have hne : t ≠ "?" := fun heq => hlit (heq ▸ List.mem_cons_self)
    have hrest : ∀ found, self.matchParts replace (index + 1) ((template.map shown).zip parts)
        found = .ok (matchTemplate replace template parts found) := by
      intro found
      refine ih (fun k u hu hvu => ?_) (fun hmem => hlit (List.mem_cons_of_mem _ hmem))
        (Nat.succ_inj.mp hlength)
      have hplace := hplaces (k + 1) u hu hvu
      rwa [← Nat.add_assoc, Nat.add_right_comm] at hplace
    rw [List.map_cons, List.zip_cons_cons, matchParts, matchTemplate]
    by_cases hvar : isVariable t = true
    · have hname := hplaces 0 t rfl hvar
      rw [Nat.add_zero] at hname
      simp only [if_pos ((shown_eq_iff hne).mpr hvar), if_pos hvar, hname]
      exact hrest _
    · have hshown : shown t = t := if_neg hvar
      rw [hshown, if_neg hne, if_neg hvar]
      by_cases heq : t = part
      · rw [if_neg (not_not.mpr heq), if_pos heq]
        exact hrest _
      · rw [if_pos heq, if_neg heq]

theorem matchTemplate_of_length_ne (h : template.length ≠ parts.length) :
    matchTemplate replace template parts found = none := by
  induction template generalizing parts found with
  | nil =>
    cases parts with
    | nil => exact absurd rfl h
    | cons part parts => rfl
  | cons t template ih =>
    cases parts with
    | nil => rfl
    | cons part parts =>
      have hrest : template.length ≠ parts.length := fun heq => h (congrArg (· + 1) heq)
      rw [matchTemplate, ih hrest, ih hrest, ite_self, ite_self]

theorem matchTemplate_literal {i : ℕ} {literal part : String}
    (hliteral : template[i]? = some literal) (hlit : isVariable literal = false)
    (hpart : parts[i]? = some part) (hne : part ≠ literal) :
    matchTemplate replace template parts found = none := by
  induction template generalizing i parts found with
  | nil => simp at hliteral
  | cons t template ih =>
    cases parts with
    | nil => simp at hpart
    | cons first parts =>
      rw [matchTemplate]
      cases i with
      | zero =>
        obtain rfl : t = literal := by simpa using hliteral
        obtain rfl : first = part := by simpa using hpart
        rw [if_neg (by simp [hlit]), if_neg (Ne.symm hne)]
      | succ i =>
        rw [ih hliteral hpart, ih hliteral hpart, ite_self, ite_self]

theorem matchTemplate_self (h : names template = []) :
    matchTemplate replace template template found = some found := by
  induction template with
  | nil => rfl
  | cons t template ih =>
    have hlit : isVariable t = false := by
      by_contra hvar
      rw [names_cons_of_variable (by simpa using hvar)] at h
      cases h
    rw [names_cons_of_literal hlit] at h
    rw [matchTemplate, if_neg (by simp [hlit]), if_pos rfl, ih h]

/-- A filled template binds each variable to what was filled in. -/
theorem matchTemplate_filled : matchTemplate replace template (template.map (filled value)) found =
    some ((names template).foldl (fun found name => found.set name (value name)) found) := by
  induction template generalizing found with
  | nil => rfl
  | cons t template ih =>
    rw [List.map_cons, matchTemplate]
    by_cases hvar : isVariable t = true
    · have hvalue : decodeFromUrl replace (filled value t) = value (varName t) := by
        rw [filled, if_pos hvar]
        exact Percent.unquote_quote
      rw [if_pos hvar, hvalue, ih, names_cons_of_variable hvar, List.foldl_cons]
    · have hsame : filled value t = t := if_neg hvar
      rw [if_neg hvar, hsame, if_pos rfl, ih, names_cons_of_literal (by simpa using hvar)]

theorem filled_eq_empty_iff {t : String} (h : isVariable t = true → value (varName t) ≠ "") :
    filled value t = "" ↔ t = "" := by
  unfold filled
  split
  · rename_i hvar
    constructor
    · intro hempty
      exact absurd hempty (Percent.quote_ne_empty (h hvar))
    · rintro rfl
      cases hvar
  · exact Iff.rfl

/-- Quoting leaves no separator, so a filled template splits as the template does. -/
theorem splitPath_fill {template : String}
    (h : ∀ name ∈ names (splitPath template), value name ≠ "") :
    splitPath (fill value template) = (splitPath template).map (filled value) := by
  have hsep : ∀ part ∈ (Text.split '/' template).map (filled value), '/' ∉ part.toList := by
    intro part hpart
    obtain ⟨t, ht, rfl⟩ := List.mem_map.mp hpart
    unfold filled
    split
    · exact Percent.not_mem_quote (by decide) (by decide)
    · exact Text.not_mem_of_mem_split ht
  have hpieces : (Text.split '/' template).map (filled value) ≠ [] := by
    simp [Text.split]
  rw [splitPath, fill, Text.split_join hsep hpieces, List.filter_map]
  refine congrArg (List.map _) (List.filter_congr fun t ht => ?_)
  have hvalue : isVariable t = true → value (varName t) ≠ "" := by
    intro hvar
    have hne : t ≠ "" := by
      rintro rfl
      cases hvar
    have hmem : t ∈ splitPath template :=
      List.mem_filter.mpr ⟨ht, by simpa [Nat.pos_iff_ne_zero] using hne⟩
    exact h _ (List.mem_map_of_mem (List.mem_filter.mpr ⟨hmem, hvar⟩))
  have hiff := filled_eq_empty_iff hvalue
  simp [Function.comp_apply, Nat.pos_iff_ne_zero, hiff]

/-- `matches` is the matching of the template's own parts, also where it compares the paths
first. -/
theorem matchesPath_eq {template path : String} {parts : Option (List String)}
    (hbuilt : Built { path := template } 0 (splitPath template) self)
    (hlit : "?" ∉ splitPath template) (hparts : parts = none ∨ parts = some (splitPath path)) :
    self.matchesPath replace path parts =
      .ok (matchTemplate replace (splitPath template) (splitPath path) .empty) := by
  have hgiven : parts.getD (splitPath path) = splitPath path := by
    rcases hparts with rfl | rfl <;> rfl
  have hshown : self.parts = (splitPath template).map shown := by simpa using hbuilt.parts
  have hpath : self.path = template := hbuilt.path
  unfold matchesPath
  simp only [hgiven, hshown, hpath, List.length_map]
  split
  · rename_i hsame
    have hnames : names (splitPath template) = [] := by
      have hkeys := hbuilt.names
      rw [OrderedDict.keys, List.eq_nil_of_length_eq_zero hsame.1] at hkeys
      simpa [OrderedDict.keys, OrderedDict.empty] using hkeys.symm
    rw [← hsame.2, matchTemplate_self hnames]
  · split
    · rename_i hlength
      rw [matchTemplate_of_length_ne (Ne.symm hlength)]
    · rename_i hlength
      refine matchParts_eq (fun k t ht hvar => ?_) hlit (not_not.mp hlength).symm
      exact hbuilt.places k t ht hvar

/-- A template without a literal `?` matches what it is filled with, and gives back the values;
a path of another length or with another literal part is not matched. -/
theorem matchesPath_fill (replace : List UInt8 → String) (template : String)
    (hnames : (names (splitPath template)).Nodup) (hlit : "?" ∉ splitPath template) :
    ∃ self, init template = .ok self ∧
      (∀ (value : String → String) (parts : Option (List String)),
        (∀ name ∈ names (splitPath template), value name ≠ "") →
        (parts = none ∨ parts = some (splitPath (fill value template))) →
        ∃ found, self.matchesPath replace (fill value template) parts = .ok (some found) ∧
          ∀ name, found.find name =
            if name ∈ names (splitPath template) then some (value name) else none) ∧
      ∀ (path : String) (parts : Option (List String)),
        (parts = none ∨ parts = some (splitPath path)) →
        ((splitPath path).length ≠ (splitPath template).length ∨
          ∃ (i : ℕ) (literal part : String), (splitPath template)[i]? = some literal ∧
            isVariable literal = false ∧ (splitPath path)[i]? = some part ∧ part ≠ literal) →
        self.matchesPath replace path parts = .ok none := by
  obtain ⟨self, hself, hbuilt⟩ := @addParts_built { path := template } (splitPath template) 0
    (by simpa [OrderedDict.keys, OrderedDict.empty] using hnames)
  refine ⟨self, hself, fun value parts hvalue hparts => ?_, fun path parts hparts hother => ?_⟩
  · refine ⟨(names (splitPath template)).foldl (fun found name => found.set name (value name))
      .empty, ?_, fun name => OrderedDict.find_foldl_set _ _⟩
    rw [matchesPath_eq hbuilt hlit hparts, splitPath_fill hvalue, matchTemplate_filled]
  · rw [matchesPath_eq hbuilt hlit hparts]
    rcases hother with hlength | ⟨i, literal, part, hliteral, hvar, hpart, hne⟩
    · rw [matchTemplate_of_length_ne (Ne.symm hlength)]
    · rw [matchTemplate_literal hliteral hvar hpart hne]

theorem matchesPath_fill_two_variables :
    let value := fun name => if name = "name" then "a/b%{c}" else "me@x"
    ∃ self, init "/users/{userId}/files/{name}" = .ok self ∧
      ∃ found, self.matchesPath (fun _ => "") (fill value "/users/{userId}/files/{name}") none =
          .ok (some found) ∧
        found.find "userId" = some "me@x" ∧ found.find "name" = some "a/b%{c}" := by
  intro value
  obtain ⟨self, hself, hfill, _⟩ := matchesPath_fill (fun _ => "")
    "/users/{userId}/files/{name}" (by decide +kernel) (by decide +kernel)
  obtain ⟨found, hfound, hfind⟩ := hfill value none
    (by intro name _; unfold value; split <;> decide) (.inl rfl)
  exact ⟨self, hself, found, hfound, (hfind "userId").trans (by decide +kernel),
    (hfind "name").trans (by decide +kernel)⟩

end ShimService.Web.Path
