import ShimService.Web.RequestBody

/-!
What the parameters of a body are made of: which value of a property is accepted and what it tells,
without the record around it.
-/
namespace ShimService.Web.RequestBody

open PyValue
open Fields (Takes valueOf bind_eq_ok_iff)

variable {φ : Type} {lib : Library φ} {name : String} {expectedType : ParameterType}
  {maxLength : Option ℕ} {v : Option (Value φ)} {s : String} {emptyOk : Bool} {record : Dict φ}

/-! ### What is made of one value -/

/-- What `get_parameter` makes of a value, or of none. -/
def parameterValue (name : String) (expectedType : ParameterType) (maxLength : Option ℕ)
    (v : Option (Value φ)) : Except CodedException (Option (Value φ)) :=
  (getParameter (v.toList.map (name, ·)) name expectedType maxLength).map Prod.fst

theorem takes_getParameter :
    Takes (fun event : Dict φ => getParameter event name expectedType maxLength) [name]
      fun f => parameterValue name expectedType maxLength (f name) := by
  refine .single fun entries => ?_
  unfold parameterValue getParameter pop
  cases entries.lookup name with
  | none => rfl
  | some v =>
    have hlookup : ((some v).toList.map (name, ·)).lookup name = some v := by simp
    simp only [hlookup]
    cases v with
    | none => rfl
    | str s =>
      cases expectedType
      · cases maxLength with
        | none => rfl
        | some n =>
          simp only [ParameterType.isTypeOf, if_true]
          split <;> rfl
      · rfl
    | _ => cases expectedType <;> rfl

theorem parameterValue_str_eq_ok_iff {w : Option (Value φ)} :
    parameterValue name .str maxLength v = .ok w ↔
      (v = none ∨ v = some .none) ∧ w = none ∨
        ∃ s, v = some (.str s) ∧ w = some (.str s) ∧ ∀ n, maxLength = some n → s.length ≤ n := by
  unfold parameterValue getParameter pop
  cases v with
  | none => simp [Except.map, eq_comm]
  | some v =>
    have hlookup : ((some v).toList.map (name, ·)).lookup name = some v := by simp
    simp only [hlookup]
    cases v with
    | none => simp [Except.map, eq_comm]
    | str s =>
      cases maxLength with
      | none => simp [Except.map, ParameterType.isTypeOf, eq_comm]
      | some n =>
        simp only [ParameterType.isTypeOf, if_true]
        by_cases hlt : n < s.length
        · simp [hlt, Except.map]
        · simp [hlt, Except.map, Nat.le_of_not_lt hlt, eq_comm]
    | _ => simp [Except.map, ParameterType.isTypeOf]

theorem parameterValue_list_eq_ok_iff {w : Option (Value φ)} :
    parameterValue name .list maxLength v = .ok w ↔
      (v = none ∨ v = some .none) ∧ w = none ∨ ∃ l, v = some (.list l) ∧ w = some (.list l) := by
  unfold parameterValue getParameter pop
  cases v with
  | none => simp [Except.map, eq_comm]
  | some v =>
    have hlookup : ((some v).toList.map (name, ·)).lookup name = some v := by simp
    simp only [hlookup]
    cases v with
    | none => simp [Except.map, eq_comm]
    | _ => simp [Except.map, ParameterType.isTypeOf, eq_comm]

/-- The value of a required text. -/
def textValue (name : String) (emptyOk : Bool) (maxLength : Option ℕ) (v : Option (Value φ)) :
    Except CodedException String :=
  parameterValue name .str maxLength v >>= requiredText name emptyOk

theorem takes_getRequiredText :
    Takes (fun event : Dict φ => getRequiredText event name emptyOk maxLength) [name]
      fun f => textValue name emptyOk maxLength (f name) :=
  takes_getParameter.map (requiredText name emptyOk)

theorem textValue_eq_ok_iff : textValue name emptyOk maxLength v = .ok s ↔
    v = some (.str s) ∧ (emptyOk = false → s ≠ "") ∧ ∀ n, maxLength = some n → s.length ≤ n := by
  have hempty : s.length = 0 ↔ s = "" := by simp
  rw [textValue, bind_eq_ok_iff]
  constructor
  · rintro ⟨w, hw, hs⟩
    obtain ⟨-, rfl⟩ | ⟨text, rfl, rfl, hlength⟩ := parameterValue_str_eq_ok_iff.mp hw
    · cases hs
    · rw [requiredText] at hs
      split at hs
      · cases hs
      · rename_i hfull
        cases hs
        exact ⟨rfl, fun hok he => hfull ⟨hok, hempty.mpr he⟩, hlength⟩
  · rintro ⟨rfl, hfull, hlength⟩
    refine ⟨some (.str s), parameterValue_str_eq_ok_iff.mpr (.inr ⟨s, rfl, rfl, hlength⟩), ?_⟩
    exact if_neg fun h => hfull h.1 (hempty.mp h.2)

/-- The value of a text that is as good as none where it is blank. -/
def trimmedValue (name : String) (maxLength : Option ℕ) (v : Option (Value φ)) :
    Except CodedException (Option String) :=
  parameterValue name .str none v >>= noneIfEmpty name maxLength

theorem takes_getTextNoneIfEmpty :
    Takes (fun event : Dict φ => getTextNoneIfEmpty event name maxLength) [name]
      fun f => trimmedValue name maxLength (f name) :=
  takes_getParameter.map (noneIfEmpty name maxLength)

/-- A property that is missing, null or blank stands for none; any other is told without the
blanks around it. -/
def Trimmed (maxLength : Option ℕ) (v : Option (Value φ)) : Option String → Prop
  | none => v = none ∨ v = some .none ∨ ∃ s, v = some (.str s) ∧ strip s = ""
  | some t => t ≠ "" ∧ (∃ s, v = some (.str s) ∧ strip s = t) ∧
      ∀ n, maxLength = some n → t.length ≤ n

theorem noneIfEmpty_str_eq_ok_iff {t : Option String} :
    noneIfEmpty name maxLength (some (.str s : Value φ)) = .ok t ↔
      Trimmed maxLength (some (.str s : Value φ)) t := by
  have hempty : (strip s).length = 0 ↔ strip s = "" := by simp
  unfold noneIfEmpty
  by_cases hblank : strip s = ""
  · cases t with
    | none => simp [Trimmed, hblank]
    | some t =>
      simp only [hblank, Trimmed]
      grind
  · simp only [hempty, hblank, if_false]
    cases maxLength with
    | none =>
      cases t with
      | none => simp [Trimmed, hblank]
      | some t =>
        simp only [Trimmed]
        grind
    | some n =>
      by_cases hlt : n < (strip s).length
      · cases t with
        | none => simp [Trimmed, hblank, hlt]
        | some t =>
          simp only [Trimmed, hlt, if_true]
          grind
      · cases t with
        | none => simp [Trimmed, hblank, hlt]
        | some t =>
          simp only [Trimmed, hlt, if_false]
          grind

theorem trimmedValue_eq_ok_iff {t : Option String} :
    trimmedValue name maxLength v = .ok t ↔ Trimmed maxLength v t := by
  rw [trimmedValue, bind_eq_ok_iff]
  constructor
  · rintro ⟨w, hw, ht⟩
    obtain ⟨hv, rfl⟩ | ⟨s, rfl, rfl, -⟩ := parameterValue_str_eq_ok_iff.mp hw
    · cases ht
      exact hv.imp_right .inl
    · exact noneIfEmpty_str_eq_ok_iff.mp ht
  · intro ht
    have hnone : v = none ∨ v = some .none ∨ ∃ s, v = some (.str s) := by
      cases t with
      | none => exact ht.imp_right (Or.imp_right fun ⟨s, hs, _⟩ => ⟨s, hs⟩)
      | some t => exact .inr (.inr (ht.2.1.imp fun _ h => h.1))
    obtain rfl | rfl | ⟨s, rfl⟩ := hnone
    · cases t with
      | none => exact ⟨none, parameterValue_str_eq_ok_iff.mpr (.inl ⟨.inl rfl, rfl⟩), rfl⟩
      | some t => simp [Trimmed] at ht
    · cases t with
      | none => exact ⟨none, parameterValue_str_eq_ok_iff.mpr (.inl ⟨.inr rfl, rfl⟩), rfl⟩
      | some t => simp [Trimmed] at ht
    · exact ⟨some (.str s), parameterValue_str_eq_ok_iff.mpr (.inr ⟨s, rfl, rfl, by simp⟩),
        noneIfEmpty_str_eq_ok_iff.mpr ht⟩

def matchRegex (name : String) (regex : Regex) (value : String) : Except CodedException String :=
  if regex.isMatch value then .ok value
  else .error (invalidParameterException name ("value '" ++ value ++
    "' is malformed - regex='" ++ regex.pattern ++ "'."))

/-- The value of a text that has to match. -/
def regexValue (name : String) (regex : Regex) (v : Option (Value φ)) :
    Except CodedException String :=
  textValue name false none v >>= matchRegex name regex

theorem getWithRegex_eq {regex : Regex} : getWithRegex record name regex none = (do
    let (value, body) ← getRequiredText record name false none
    let value ← matchRegex name regex value
    return (value, body)) := by
  have htakes : Takes (fun event : Dict φ => getParameter event name .str none) [name] _ :=
    takes_getParameter
  have hrun := htakes.run record
  simp only [getWithRegex, getRequiredParameter, getRequiredText, bind, Except.bind, hrun]
  cases hvalue : parameterValue name .str none (valueOf record name) with
  | error e => rfl
  | ok w =>
    obtain ⟨-, rfl⟩ | ⟨s, -, rfl, -⟩ := parameterValue_str_eq_ok_iff.mp hvalue
    · rfl
    · by_cases hempty : s = ""
      · simp [Except.map, requiredText, hempty]
      · by_cases hmatch : regex.isMatch s = true <;>
          simp [Except.map, requiredText, matchRegex, hempty, hmatch, pure, Except.pure]

theorem takes_getWithRegex {regex : Regex} :
    Takes (fun body : Dict φ => getWithRegex body name regex none) [name]
      fun f => regexValue name regex (f name) := by
  simp only [getWithRegex_eq]
  exact takes_getRequiredText.map (matchRegex name regex)

/-- Neither pattern matches the empty text. -/
theorem regexValue_eq_ok_iff {regex : Regex} (hempty : regex.isMatch "" = false) :
    regexValue name regex v = .ok s ↔ v = some (.str s) ∧ regex.isMatch s = true := by
  simp only [regexValue, bind_eq_ok_iff, textValue_eq_ok_iff, matchRegex]
  constructor
  · rintro ⟨value, ⟨rfl, -⟩, hs⟩
    split at hs
    · rename_i hmatch
      cases hs
      exact ⟨rfl, hmatch⟩
    · cases hs
  · rintro ⟨rfl, hmatch⟩
    refine ⟨s, ⟨rfl, ?_, by simp⟩, if_pos hmatch⟩
    rintro - rfl
    simp [hempty] at hmatch

theorem workIdRegex_empty : workIdRegex.isMatch "" = false := by decide

theorem userIdRegex_empty : userIdRegex.isMatch "" = false := by decide

/-- The value of a target: an id of 15 or 18 characters. -/
def targetValue (v : Option (Value φ)) : Except CodedException String := do
  let value ← textValue "workTargetId" false none v
  validateWorkTargetId value "workTargetId" false
  return value

theorem takes_getWorkTargetId : Takes (getWorkTargetId (φ := φ)) ["workTargetId"]
    fun f => targetValue (f "workTargetId") :=
  takes_getRequiredText.guard fun value => validateWorkTargetId value "workTargetId" false

theorem validateWorkTargetId_eq_ok_iff {inPath : Bool} {u : Unit} :
    validateWorkTargetId s name inPath = .ok u ↔ s.length = 15 ∨ s.length = 18 := by
  unfold validateWorkTargetId
  split
  · rename_i h
    cases inPath <;> simp [h.1, h.2]
  · simp
    omega

theorem targetValue_eq_ok_iff : targetValue v = .ok s ↔
    v = some (.str s) ∧ (s.length = 15 ∨ s.length = 18) := by
  simp only [targetValue, bind_eq_ok_iff, textValue_eq_ok_iff, validateWorkTargetId_eq_ok_iff]
  constructor
  · rintro ⟨value, ⟨rfl, -⟩, -, hlength, hs⟩
    cases hs
    exact ⟨rfl, hlength⟩
  · rintro ⟨rfl, hlength⟩
    refine ⟨s, ⟨rfl, ?_, by simp⟩, (), hlength, rfl⟩
    rintro - rfl
    simp at hlength

def urlValue (lib : Library φ) (name : String) (v : Option (Value φ)) :
    Except CodedException String := do
  let url ← textValue name false none v
  checkUrl lib name url
  return url

theorem takes_getUrl : Takes (fun body => getUrl lib body name) [name]
    fun f => urlValue lib name (f name) :=
  takes_getRequiredText.guard (checkUrl lib name)

theorem urlValue_eq_ok_iff : urlValue lib name v = .ok s ↔
    v = some (.str s) ∧ s ≠ "" ∧ lib.urlScheme s = some "https" := by
  have hcheck (url : String) (u : Unit) :
      checkUrl lib name url = .ok u ↔ lib.urlScheme url = some "https" := by
    unfold checkUrl
    cases hscheme : lib.urlScheme url with
    | none => simp
    | some scheme => by_cases h : scheme = "https" <;> simp [h]
  simp only [urlValue, bind_eq_ok_iff, textValue_eq_ok_iff, hcheck]
  constructor
  · rintro ⟨url, ⟨rfl, hne, -⟩, -, hscheme, hs⟩
    cases hs
    exact ⟨rfl, hne trivial, hscheme⟩
  · rintro ⟨rfl, hne, hscheme⟩
    exact ⟨s, ⟨rfl, fun _ => hne, by simp⟩, (), hscheme, rfl⟩

def listValue (name : String) (v : Option (Value φ)) :
    Except CodedException (Option (List (Value φ))) :=
  parameterValue name .list none v >>= fun w => .ok (asList w)

theorem takes_getList : Takes (fun body : Dict φ => getList body name) [name]
    fun f => listValue name (f name) :=
  takes_getParameter.map fun w => .ok (asList w)

/-- A list that is missing or null is none. -/
def Listed (v : Option (Value φ)) : Option (List (Value φ)) → Prop
  | none => v = none ∨ v = some .none
  | some l => v = some (.list l)

theorem listValue_eq_ok_iff {l : Option (List (Value φ))} :
    listValue name v = .ok l ↔ Listed v l := by
  simp only [listValue, bind_eq_ok_iff, parameterValue_list_eq_ok_iff]
  constructor
  · rintro ⟨w, ⟨hv, rfl⟩ | ⟨l, rfl, rfl⟩, hl⟩
    · cases hl
      exact hv
    · cases hl
      exact rfl
  · intro hl
    cases l with
    | none => exact ⟨none, .inl ⟨hl, rfl⟩, rfl⟩
    | some l => exact ⟨some (.list l), .inr ⟨l, hl, rfl⟩, rfl⟩

def requiredListValue (name : String) (v : Option (Value φ)) :
    Except CodedException (List (Value φ)) :=
  parameterValue name .list none v >>= requiredList name

theorem takes_getRequiredList : Takes (fun body : Dict φ => getRequiredList body name) [name]
    fun f => requiredListValue name (f name) :=
  takes_getParameter.map (requiredList name)

theorem requiredListValue_eq_ok_iff {l : List (Value φ)} :
    requiredListValue name v = .ok l ↔ v = some (.list l) := by
  simp only [requiredListValue, bind_eq_ok_iff, parameterValue_list_eq_ok_iff]
  constructor
  · rintro ⟨w, ⟨-, rfl⟩ | ⟨l', rfl, rfl⟩, hl⟩
    · cases hl
    · cases hl
      rfl
  · rintro rfl
    exact ⟨some (.list l), .inr ⟨l, rfl, rfl⟩, rfl⟩

/-! ### The elements of lists -/

/-- An object with a text for the key and one for the value, and with anything else. -/
def IsAttachment (element : Value φ) (a : MessageAttachment) : Prop :=
  ∃ d, element = .dict d ∧ d.lookup "key" = some (.str a.key) ∧
    d.lookup "value" = some (.str a.value)

theorem transformAttachment_eq_ok_iff {element : Value φ} {a : MessageAttachment} :
    transformAttachment element = .ok a ↔ IsAttachment element a := by
  constructor
  · intro h
    unfold transformAttachment at h
    split at h
    · rename_i d
      split at h
      · cases h
      · cases h
      · rename_i key hkey
        split at h
        · cases h
        · cases h
        · rename_i value hvalue
          cases h
          exact ⟨d, rfl, hkey, hvalue⟩
        · cases h
      · cases h
    · cases h
  · rintro ⟨d, rfl, hkey, hvalue⟩
    simp [transformAttachment, hkey, hvalue]

theorem attachmentsFrom_eq_ok_iff {index : ℕ} {elements : List (Value φ)}
    {attachments : List MessageAttachment} :
    attachmentsFrom index elements = .ok attachments ↔
      List.Forall₂ IsAttachment elements attachments := by
  induction elements generalizing index attachments with
  | nil => simp [attachmentsFrom, eq_comm]
  | cons element elements ih =>
    rw [attachmentsFrom, List.forall₂_cons_left_iff]
    cases hone : transformAttachment element with
    | error text =>
      simp only [reduceCtorEq, false_iff, not_exists, not_and]
      intro a rest ha
      rw [transformAttachment_eq_ok_iff.mpr ha] at hone
      cases hone
    | ok a =>
      have ha : ∀ b, IsAttachment element b ↔ b = a := fun b => by
        rw [← transformAttachment_eq_ok_iff, hone, Except.ok.injEq, eq_comm]
      cases hrest : attachmentsFrom (index + 1) elements with
      | error ex =>
        simp only [Except.map, reduceCtorEq, false_iff, not_exists, not_and]
        intro b rest _ hforall
        rw [ih.mpr hforall] at hrest
        cases hrest
      | ok rest =>
        have hr : ∀ as, List.Forall₂ IsAttachment elements as ↔ as = rest := fun as => by
          rw [← ih, hrest, Except.ok.injEq, eq_comm]
        simp [Except.map, ha, hr, eq_comm]

/-- The attachments of a message, where an empty list is none. -/
def Attached (v : Option (Value φ)) : Option (List MessageAttachment) → Prop
  | none => v = none ∨ v = some .none ∨ v = some (.list [])
  | some attachments => attachments ≠ [] ∧
      ∃ elements, v = some (.list elements) ∧ List.Forall₂ IsAttachment elements attachments

theorem transformAttachments_eq_ok_iff {l : Option (List (Value φ))}
    {attachments : Option (List MessageAttachment)} (hl : Listed v l) :
    transformAttachments l = .ok attachments ↔ Attached v attachments := by
  cases l with
  | none =>
    obtain rfl | rfl := hl <;> cases attachments <;> simp [transformAttachments, Attached]
  | some l =>
    obtain rfl : v = some (.list l) := hl
    simp only [transformAttachments, bind_eq_ok_iff, attachmentsFrom_eq_ok_iff]
    constructor
    · rintro ⟨results, hresults, h⟩
      cases results with
      | nil =>
        cases h
        exact .inr (.inr (by rw [List.forall₂_nil_right_iff.mp hresults]))
      | cons a results =>
        cases h
        exact ⟨by simp, l, rfl, hresults⟩
    · intro h
      cases attachments with
      | none =>
        obtain rfl : l = [] := by simpa [Attached] using h
        exact ⟨[], .nil, rfl⟩
      | some attachments =>
        obtain ⟨hne, elements, heq, hforall⟩ := h
        cases heq
        refine ⟨attachments, hforall, ?_⟩
        have hpos : attachments.length > 0 := List.length_pos_iff.mpr hne
        simp [hpos, pure, Except.pure]

theorem Attached.listed {attachments : Option (List MessageAttachment)}
    (h : Attached v attachments) : ∃ l, Listed v l := by
  cases attachments with
  | none =>
    obtain h | h | h := h
    · exact ⟨none, .inl h⟩
    · exact ⟨none, .inr h⟩
    · exact ⟨some [], h⟩
  | some attachments =>
    obtain ⟨-, elements, helements, -⟩ := h
    exact ⟨some elements, helements⟩

theorem assertValidPlatformChannel_eq (name : String) : assertValidPlatformChannel name = .ok true ∧
    lower name ∈ channels ∨ ∃ ex, assertValidPlatformChannel name = .error ex := by
  by_cases h : lower name ∈ channels
  · exact .inl ⟨by simp [assertValidPlatformChannel, getPlatformChannel, h, bind, Except.bind, pure,
      Except.pure], h⟩
  · exact .inr ⟨_, by rw [assertValidPlatformChannel, getPlatformChannel, if_neg h]; rfl⟩

theorem of_filterChannels {values : List (Value φ)} {names : List String}
    (h : filterChannels values = .ok names) :
    values = names.map .str ∧ ∀ name ∈ names, lower name ∈ channels := by
  induction values generalizing names with
  | nil =>
    cases h
    exact ⟨rfl, by simp⟩
  | cons value values ih =>
    cases value with
    | str name =>
      rw [filterChannels] at h
      obtain ⟨hvalid, hname⟩ | ⟨ex, hvalid⟩ := assertValidPlatformChannel_eq name
      · rw [hvalid] at h
        cases hrest : filterChannels values with
        | error e => simp [hrest, Except.map] at h
        | ok rest =>
          obtain ⟨rfl, hall⟩ := ih hrest
          obtain rfl : name :: rest = names := by simpa [hrest, Except.map] using h
          exact ⟨rfl, by simpa using ⟨hname, hall⟩⟩
      · simp [hvalid] at h
    | _ => cases h

theorem filterChannels_of_valid {names : List String} (h : ∀ name ∈ names, lower name ∈ channels) :
    filterChannels (names.map .str : List (Value φ)) = .ok names := by
  induction names with
  | nil => rfl
  | cons name names ih =>
    have hname := h name List.mem_cons_self
    have hrest := ih fun n hn => h n (List.mem_cons_of_mem _ hn)
    simp [filterChannels, assertValidPlatformChannel, getPlatformChannel, hname, hrest, bind,
      Except.bind, pure, Except.pure, Except.map]

/-- Channels of the service, in the order of the set of the values that were given. -/
structure ChannelList (lib : Library φ) (source : List (Value φ)) (names : List String) : Prop where
  nonempty : source ≠ []
  hashable : source.all hashable = true
  order : lib.setOf source = names.map .str
  valid : ∀ name ∈ names, lower name ∈ channels

theorem extractChannels_eq_ok_iff {source : List (Value φ)} {names : List String} :
    extractChannels lib source = .ok names ↔ ChannelList lib source names := by
  unfold extractChannels
  by_cases hnil : source = []
  · subst hnil
    simp only [List.length_nil, if_true, reduceCtorEq, false_iff]
    exact fun h => h.nonempty rfl
  · rw [if_neg (by simpa using hnil)]
    split
    · rename_i hhash
      constructor
      · intro h
        obtain ⟨horder, hvalid⟩ := of_filterChannels h
        exact ⟨hnil, hhash, horder, hvalid⟩
      · intro h
        rw [h.order, filterChannels_of_valid h.valid]
    · rename_i hhash
      simp only [reduceCtorEq, false_iff]
      exact fun h => hhash h.hashable

end ShimService.Web.RequestBody
