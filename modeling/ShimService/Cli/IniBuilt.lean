import ShimService.Cli.IniText

/-!
The configurations that are built with `addSection` and `set`, and what reading back their text
means.
-/
namespace ShimService.Cli

section

structure ValidName (name : DartString) : Prop where
  ne_nil : name ≠ []
  trimmed : trim name = name
  equals : equals ∉ name
  lineFeed : lineFeed ∉ name
  carriageReturn : carriageReturn ∉ name

structure ValidKey (key : DartString) : Prop extends ValidName key where
  hash : key.head? ≠ some hash
  openBracket : key.head? ≠ some openBracket

structure ValidValue (value : DartString) : Prop where
  trimmed : trim value = value
  lineFeed : lineFeed ∉ value
  carriageReturn : carriageReturn ∉ value

variable (lower : DartString → DartString) (exitMode : Bool)

/-- A call that stops leaves the configuration as it is. -/
inductive Built : IniConfig → Prop where
  | createNew {config : IniConfig} (h : createNew lower exitMode = .ok config) : Built config
  | addSection {config config' : IniConfig} {sectionName : DartString} {s : IniSection}
      (hconfig : Built config) (hname : ValidName sectionName)
      (h : config.addSection lower exitMode sectionName = .ok (s, config')) : Built config'
  | set {config config' : IniConfig} {sectionName optionName value : DartString}
      {oldValue : Option DartString} (hconfig : Built config) (hname : ValidName sectionName)
      (hoption : ValidKey optionName) (hvalue : ValidValue value)
      (h : config.set lower exitMode sectionName optionName value = .ok (oldValue, config')) :
      Built config'

/-- The sections in order, each with its options in order. -/
def IniConfig.contents (config : IniConfig) : List (DartString × List IniOption) :=
  config.sections.map fun s => (s.name, s.optionList)

def IniConfig.value (config : IniConfig) (sectionName optionName : DartString) :
    Option DartString :=
  (config.get lower sectionName).bind fun s => s.get lower optionName

def IniConfig.RoundTrips (config : IniConfig) : Prop :=
  ∃ parsed, parseString lower exitMode config.toText = .ok parsed ∧
    parsed.contents = config.contents ∧
    ∀ sectionName optionName,
      parsed.value lower sectionName optionName = config.value lower sectionName optionName

end

/-! The shape of a configuration that has been built. -/

def SectionComponent.key? : SectionComponent → Option DartString
  | .comment _ => none
  | .option key => some key

def ConfigComponent.key? : ConfigComponent → Option DartString
  | .comment _ => none
  | .iniSection key => some key

/-- A section without comments. -/
structure IniSection.Shaped (lower : DartString → DartString) (s : IniSection) : Prop where
  name : ValidName s.name
  components : s.components = s.options.keys.map .option
  options : ∀ key o, s.options.find key = some o →
    key = lower o.key ∧ ValidKey o.key ∧ ValidValue o.value

/-- All comments are empty, and none comes first. -/
structure IniConfig.Shaped (lower : DartString → DartString) (config : IniConfig) : Prop where
  keys : config.components.filterMap ConfigComponent.key? = config.sectionMap.keys
  sections : ∀ key s, config.sectionMap.find key = some s → key = lower s.name ∧ s.Shaped lower
  comments : ∀ text, .comment text ∈ config.components → text = []
  first : ∀ text, config.components.head? ≠ some (.comment text)

section

variable {lower : DartString → DartString} {exitMode : Bool} {name key value : DartString}
  {oldValue : Option DartString} {s s' : IniSection} {config config' : IniConfig}

theorem shaped_new (h : ValidName name) : (IniSection.new name).Shaped lower :=
  ⟨h, rfl, fun _ _ hfind => by cases hfind⟩

theorem IniSection.Shaped.options_set (hs : s.Shaped lower) {o o' : IniOption} {k : DartString}
    (hlower : key = lower o.key) (hkey : ValidKey o.key) (hvalue : ValidValue o.value)
    (hfind : (s.options.set key o).find k = some o') :
    k = lower o'.key ∧ ValidKey o'.key ∧ ValidValue o'.value := by
  rw [OrderedDict.find_set] at hfind
  split at hfind
  · rename_i hk
    obtain rfl := Option.some.inj hfind
    exact ⟨hk.trans hlower, hkey, hvalue⟩
  · exact hs.options k o' hfind

theorem IniSection.Shaped.set (hs : s.Shaped lower) (hkey : ValidKey key)
    (hvalue : ValidValue value) (h : s.set lower exitMode key value = .ok (oldValue, s')) :
    s'.name = s.name ∧ s'.Shaped lower := by
  unfold IniSection.set at h
  split at h
  · rename_i hnone
    have hfresh := OrderedDict.find_eq_none_iff.mp hnone
    rw [addOption_fresh hfresh] at h
    obtain ⟨rfl, rfl⟩ := Prod.mk.inj (Except.ok.inj h)
    refine ⟨rfl, hs.name, ?_, fun _ _ => hs.options_set rfl hkey hvalue⟩
    rw [OrderedDict.keys_set_of_not_mem hfresh, List.map_append, ← hs.components]
    rfl
  · rename_i old hold
    obtain ⟨rfl, rfl⟩ := Prod.mk.inj (Except.ok.inj h)
    obtain ⟨hlower, holdKey, _⟩ := hs.options _ old hold
    refine ⟨rfl, hs.name, ?_, fun _ _ => hs.options_set hlower holdKey hvalue⟩
    rw [OrderedDict.keys_set_of_mem (OrderedDict.mem_keys_iff.mpr ⟨old, hold⟩)]
    exact hs.components

/-- A new section goes to the end, behind the other ones and perhaps an empty comment. -/
theorem IniConfig.Shaped.append {components : List ConfigComponent}
    (hconfig : config.Shaped lower) (hname : ValidName name)
    (hfresh : lower name ∉ config.sectionMap.keys)
    (hcomponents : components = config.components ∨
      (config.components ≠ [] ∧ components = config.components ++ [.comment []])) :
    IniConfig.Shaped lower ⟨config.sectionMap.set (lower name) (.new name),
      components ++ [.iniSection (lower name)]⟩ where
  keys := by
    rw [OrderedDict.keys_set_of_not_mem hfresh, ← hconfig.keys]
    rcases hcomponents with rfl | ⟨_, rfl⟩
    · rw [List.filterMap_append]
      rfl
    · rw [List.append_assoc, List.filterMap_append]
      rfl
  sections key s hfind := by
    rw [OrderedDict.find_set] at hfind
    split at hfind
    · rename_i hk
      obtain rfl := Option.some.inj hfind
      exact ⟨hk, shaped_new hname⟩
    · exact hconfig.sections key s hfind
  comments text hmem := by
    rcases hcomponents with rfl | ⟨_, rfl⟩
    · exact hconfig.comments text (by simpa using hmem)
    · have hor : .comment text ∈ config.components ∨ text = [] := by simpa using hmem
      exact hor.elim (hconfig.comments text) id
  first text hhead := by
    rcases hcomponents with rfl | ⟨hne, rfl⟩
    · rw [List.head?_append] at hhead
      cases hfirst : config.components.head? with
      | none => simp [hfirst] at hhead
      | some component =>
        rw [hfirst] at hhead
        exact hconfig.first text (hfirst.trans hhead)
    · rw [List.append_assoc, List.head?_append_of_ne_nil _ hne] at hhead
      exact hconfig.first text hhead

theorem IniConfig.Shaped.addSection (hconfig : config.Shaped lower) (hname : ValidName name)
    (h : config.addSection lower exitMode name = .ok (s, config')) :
    config'.sectionMap.find (lower name) = some s ∧ config'.Shaped lower := by
  unfold IniConfig.addSection at h
  dsimp only at h
  split at h
  · exact absurd h fatal_ne_ok
  · rename_i hfresh
    obtain ⟨rfl, rfl⟩ := Prod.mk.inj (Except.ok.inj h)
    refine ⟨by rw [OrderedDict.find_set, if_pos rfl], hconfig.append hname hfresh ?_⟩
    split
    · rename_i last hlast
      refine .inr ⟨?_, rfl⟩
      intro hnil
      simp [hnil] at hlast
    · exact .inl rfl

theorem IniConfig.Shaped.replace (hconfig : config.Shaped lower)
    (hfind : config.sectionMap.find key = some s) (hname : s'.name = s.name)
    (hs' : s'.Shaped lower) :
    IniConfig.Shaped lower { config with sectionMap := config.sectionMap.set key s' } where
  keys := by
    rw [OrderedDict.keys_set_of_mem (OrderedDict.mem_keys_iff.mpr ⟨s, hfind⟩)]
    exact hconfig.keys
  sections k t ht := by
    rw [OrderedDict.find_set] at ht
    split at ht
    · rename_i hk
      obtain rfl := Option.some.inj ht
      rw [hk, hname]
      exact ⟨(hconfig.sections key s hfind).1, hs'⟩
    · exact hconfig.sections k t ht
  comments := hconfig.comments
  first := hconfig.first

theorem IniConfig.Shaped.set {optionName : DartString} (hconfig : config.Shaped lower)
    (hname : ValidName name) (hoption : ValidKey optionName) (hvalue : ValidValue value)
    (h : config.set lower exitMode name optionName value = .ok (oldValue, config')) :
    config'.Shaped lower := by
  have hgo : ∀ (config : IniConfig) (s : IniSection), config.Shaped lower →
      config.sectionMap.find (lower name) = some s →
      (s.set lower exitMode optionName value >>= fun result => pure
        (result.1, { config with sectionMap := config.sectionMap.set (lower name) result.2 })) =
        .ok (oldValue, config') → config'.Shaped lower := by
    intro config s hconfig hfind h
    cases hset : s.set lower exitMode optionName value with
    | error stop =>
      rw [hset] at h
      cases h
    | ok result =>
      obtain ⟨old, s'⟩ := result
      rw [hset] at h
      obtain ⟨rfl, rfl⟩ := Prod.mk.inj (Except.ok.inj h)
      obtain ⟨hsame, hs'⟩ := ((hconfig.sections _ s hfind).2).set hoption hvalue hset
      exact hconfig.replace hfind hsame hs'
  unfold IniConfig.set at h
  cases hget : config.get lower name with
  | some s =>
    rw [hget] at h
    exact hgo config s hconfig hget h
  | none =>
    rw [hget] at h
    cases hadd : config.addSection lower exitMode name with
    | error stop =>
      simp only [hadd] at h
      cases h
    | ok result =>
      obtain ⟨s, added⟩ := result
      simp only [hadd] at h
      obtain ⟨hfind, hadded⟩ := hconfig.addSection hname hadd
      exact hgo added s hadded hfind h

theorem Built.shaped (h : Built lower exitMode config) : config.Shaped lower := by
  induction h with
  | createNew h =>
    obtain rfl := Except.ok.inj h
    exact ⟨rfl, fun _ _ hfind => (by cases hfind), fun _ hmem => (by cases hmem),
      fun _ hhead => (by cases hhead)⟩
  | addSection _ hname h ih => exact (ih.addSection hname h).2
  | set _ hname hoption hvalue h ih => exact ih.set hname hoption hvalue h

end

end ShimService.Cli
