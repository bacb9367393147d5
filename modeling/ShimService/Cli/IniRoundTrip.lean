import ShimService.Cli.IniBuilt

/-!
Reading back the text of a configuration that has been built with `addSection` and `set`.
-/
namespace ShimService.Cli

/-! The lines of the text. -/

def IniOption.line (o : IniOption) : DartString := o.key ++ equals :: o.value

def headerLine (name : DartString) : DartString := openBracket :: name ++ [closeBracket]

def IniSection.lines (s : IniSection) : List DartString :=
  headerLine s.name :: s.options.entries.map fun entry => entry.2.line

def IniConfig.componentLines (config : IniConfig) : ConfigComponent → List DartString
  | .comment text => [text]
  | .iniSection key => ((config.sectionMap.find key).map IniSection.lines).getD []

def IniConfig.lines (config : IniConfig) : List DartString :=
  config.components.flatMap config.componentLines

section

variable {lower : DartString → DartString} {exitMode : Bool} {name : DartString}
  {s : IniSection} {config : IniConfig} {o : IniOption}

theorem trim_headerLine : trim (headerLine name) = headerLine name := by
  apply trim_eq_self
  · rintro unit ⟨⟩
    decide
  · intro unit hlast
    rw [headerLine, List.getLast?_concat] at hlast
    obtain rfl := Option.some.inj hlast
    decide

theorem isHeader_headerLine : IsHeader (headerLine name) := by
  rw [IsHeader, trim_headerLine]
  exact ⟨rfl, List.getLast?_concat ..⟩

theorem sectionName_headerLine : sectionName (headerLine name) = name := by
  rw [sectionName, trim_headerLine, headerLine]
  exact List.dropLast_concat

theorem trim_line (hkey : ValidKey o.key) (hvalue : ValidValue o.value) :
    trim o.line = o.line := by
  apply trim_eq_self
  · intro unit hhead
    rw [IniOption.line, List.head?_append_of_ne_nil _ hkey.ne_nil] at hhead
    obtain ⟨rest, hrest⟩ := List.head?_eq_some_iff.mp hhead
    have htrim := hkey.trimmed
    rw [hrest] at htrim
    exact not_whitespace_head htrim
  · intro unit hlast
    rcases List.eq_nil_or_concat' o.value with hnil | ⟨init, last, hconcat⟩
    · rw [IniOption.line, hnil, List.getLast?_concat] at hlast
      obtain rfl := Option.some.inj hlast
      decide
    · rw [IniOption.line, hconcat, ← List.cons_append, ← List.append_assoc,
        List.getLast?_concat] at hlast
      obtain rfl := Option.some.inj hlast
      have htrim := hvalue.trimmed
      rw [hconcat] at htrim
      exact not_whitespace_last htrim

theorem isAssignment_line (hkey : ValidKey o.key) (hvalue : ValidValue o.value) :
    IsAssignment o.line := by
  have hhead : o.line.head? = o.key.head? := List.head?_append_of_ne_nil _ hkey.ne_nil
  rw [IsAssignment, IsHeader, trim_line hkey hvalue, hhead]
  exact ⟨fun h => hkey.openBracket h.1, hkey.hash, by simp [IniOption.line]⟩

theorem shortKey_line_iff (hkey : ValidKey o.key) (hvalue : ValidValue o.value) :
    ShortKey o.line ↔ o.key.length ≤ 1 := by
  rw [ShortKey, and_iff_right (isAssignment_line hkey hvalue), trim_line hkey hvalue,
    IniOption.line, indexOf_append hkey.equals]
  omega

theorem parseInSection_line (hkey : ValidKey o.key) (hvalue : ValidValue o.value)
    (hlong : 2 ≤ o.key.length) : Builder.parseInSection lower exitMode s o.line =
      s.addOption lower exitMode o.key o.value := by
  obtain ⟨_, hhash, hequals⟩ := isAssignment_line hkey hvalue
  have hsplit : splitInTwo o.line equals = [o.key, o.value] := by
    rw [IniOption.line, splitInTwo_append hkey.equals,
      if_pos (show 1 < o.key.length from hlong), hkey.trimmed, hvalue.trimmed]
  unfold Builder.parseInSection
  dsimp only
  rw [if_neg (by simp [hhash, hequals]), trim_line hkey hvalue, hsplit]

theorem parseInSection_empty :
    Builder.parseInSection lower exitMode s [] = .ok (s.addComment []) := rfl

/-- The text is its lines, each ended by a line feed. -/
theorem IniSection.Shaped.toText_eq (hs : s.Shaped lower) :
    s.toText = s.lines.flatMap (· ++ [lineFeed]) := by
  have hoptions : s.components.flatMap s.componentText =
      (s.options.entries.map fun entry => entry.2.line).flatMap (· ++ [lineFeed]) := by
    rw [hs.components, OrderedDict.keys, List.map_map, List.flatMap_map, List.flatMap_map]
    refine List.flatMap_congr fun entry hentry => ?_
    have hfind : s.options.find entry.1 = some entry.2 := OrderedDict.mem_entries_iff.mp hentry
    simp [IniSection.componentText, hfind, IniOption.toText, IniOption.line]
  rw [IniSection.toText, IniSection.lines, List.flatMap_cons, hoptions]
  simp [headerLine]

theorem IniConfig.Shaped.toText_eq (hconfig : config.Shaped lower) :
    config.toText = config.lines.flatMap (· ++ [lineFeed]) := by
  rw [IniConfig.toText, IniConfig.lines, List.flatMap_assoc]
  refine List.flatMap_congr fun component _ => ?_
  cases component with
  | comment text => simp [IniConfig.componentText, IniConfig.componentLines, commentText]
  | iniSection key =>
    cases hfind : config.sectionMap.find key with
    | none => simp [IniConfig.componentText, IniConfig.componentLines, hfind]
    | some s =>
      simp [IniConfig.componentText, IniConfig.componentLines, hfind,
        ((hconfig.sections key s hfind).2).toText_eq]

theorem line_no_end (hkey : ValidKey o.key) (hvalue : ValidValue o.value) :
    lineFeed ∉ o.line ∧ carriageReturn ∉ o.line := by
  have hfeed : lineFeed ≠ equals := by decide
  have hreturn : carriageReturn ≠ equals := by decide
  simp [IniOption.line, hkey.lineFeed, hkey.carriageReturn, hvalue.lineFeed,
    hvalue.carriageReturn, hfeed, hreturn]

theorem headerLine_no_end (hname : ValidName name) :
    lineFeed ∉ headerLine name ∧ carriageReturn ∉ headerLine name := by
  have hfeed : lineFeed ≠ openBracket ∧ lineFeed ≠ closeBracket := by decide
  have hreturn : carriageReturn ≠ openBracket ∧ carriageReturn ≠ closeBracket := by decide
  simp [headerLine, hname.lineFeed, hname.carriageReturn, hfeed, hreturn]

theorem IniConfig.Shaped.lines_no_end (hconfig : config.Shaped lower) {line : DartString}
    (hline : line ∈ config.lines) : lineFeed ∉ line ∧ carriageReturn ∉ line := by
  obtain ⟨component, hcomponent, hmem⟩ := List.mem_flatMap.mp hline
  cases component with
  | comment text =>
    obtain rfl := List.mem_singleton.mp hmem
    rw [hconfig.comments line hcomponent]
    simp
  | iniSection key =>
    cases hfind : config.sectionMap.find key with
    | none => simp [IniConfig.componentLines, hfind] at hmem
    | some s =>
      obtain ⟨_, hs⟩ := hconfig.sections key s hfind
      have hor : line = headerLine s.name ∨ ∃ entry ∈ s.options.entries, entry.2.line = line := by
        simpa [IniConfig.componentLines, hfind, IniSection.lines] using hmem
      rcases hor with rfl | ⟨entry, hentry, rfl⟩
      · exact headerLine_no_end hs.name
      · obtain ⟨_, hkey, hvalue⟩ := hs.options _ _ (OrderedDict.mem_entries_iff.mp hentry)
        exact line_no_end hkey hvalue

theorem IniConfig.Shaped.convert_toText (hconfig : config.Shaped lower) :
    convert config.toText = config.lines := by
  rw [hconfig.toText_eq]
  exact convert_lines (fun _ h => (hconfig.lines_no_end h).1) fun _ h => (hconfig.lines_no_end h).2

end

/-! The parser on those lines. -/

/-- After the line of a section and some of its options' lines. -/
structure OptionsRead (start : Builder) (key name : DartString)
    (done : List (DartString × IniOption)) (b : Builder) : Prop where
  components : b.components = start.components
  keys : b.sectionMap.keys = start.sectionMap.keys
  others : ∀ k, k ≠ key → b.sectionMap.find k = start.sectionMap.find k
  current : ∃ s, b.current = some (key, s) ∧ b.sectionMap.find key = some s ∧ s.name = name ∧
    s.options.entries = done ∧
    s.components.filterMap SectionComponent.key? = done.map Prod.fst

/-- The parser's section is that of the configuration, except for comments. -/
structure SectionRead (s s' : IniSection) : Prop where
  name : s'.name = s.name
  options : s'.options = s.options
  components : s'.components.filterMap SectionComponent.key? = s.options.keys

/-- After the lines of some of the components. -/
structure ComponentsRead (config : IniConfig) (done : List ConfigComponent) (b : Builder) :
    Prop where
  components : b.components = (done.filterMap ConfigComponent.key?).map .iniSection
  keys : b.sectionMap.keys = done.filterMap ConfigComponent.key?
  current : done ≠ [] → ∃ key s, b.current = some (key, s) ∧ b.sectionMap.find key = some s
  sections : ∀ key s', b.sectionMap.find key = some s' →
    ∃ s, config.sectionMap.find key = some s ∧ SectionRead s s'

section

variable {lower : DartString → DartString} {exitMode : Bool} {name key : DartString}
  {s : IniSection} {config : IniConfig} {b start : Builder}

theorem optionsRead_step {done : List (DartString × IniOption)} {entry : DartString × IniOption}
    (hread : OptionsRead start key name done b) (hfresh : entry.1 ∉ done.map Prod.fst)
    (hentry : entry.1 = lower entry.2.key) (hkey : ValidKey entry.2.key)
    (hvalue : ValidValue entry.2.value) (hlong : 2 ≤ entry.2.key.length) :
    ∃ b', b.parseLine lower exitMode entry.2.line = .ok b' ∧
      OptionsRead start key name (done ++ [entry]) b' := by
  obtain ⟨s, hcurrent, hfind, hname, hdone, hcomponents⟩ := hread.current
  have hadd : lower entry.2.key ∉ s.options.keys := by
    rw [← hentry, OrderedDict.keys, hdone]
    exact hfresh
  have hmem : key ∈ b.sectionMap.keys := OrderedDict.mem_keys_iff.mpr ⟨s, hfind⟩
  have hline : b.parseLine lower exitMode entry.2.line = _ :=
    parseLine_inside (isAssignment_line hkey hvalue).1 hcurrent
  rw [parseInSection_line hkey hvalue hlong, addOption_fresh hadd] at hline
  refine ⟨_, hline, hread.components, ?_, ?_, _, rfl, ?_, hname, ?_, ?_⟩
  · rw [OrderedDict.keys_set_of_mem hmem, hread.keys]
  · intro k hk
    rw [OrderedDict.find_set, if_neg hk, hread.others k hk]
  · rw [OrderedDict.find_set, if_pos rfl]
  · rw [OrderedDict.entries_set_of_not_mem hadd, hdone, ← hentry]
  · rw [List.filterMap_append, hcomponents, List.map_append, ← hentry]
    rfl

theorem options_read (exitMode : Bool) (key : DartString) (start : Builder)
    (hs : s.Shaped lower) (hlong : ∀ entry ∈ s.options.entries, 2 ≤ entry.2.key.length)
    (hstart : OptionsRead start key s.name [] start) :
    ∃ b, (s.options.entries.map fun entry => entry.2.line).foldlM
        (Builder.parseLine lower exitMode) start = .ok b ∧
      OptionsRead start key s.name s.options.entries b := by
  rw [List.foldlM_map]
  refine Folds.foldlM_progress hstart fun done entry rest b heq hread => ?_
  have hmem : entry ∈ s.options.entries := by simp [heq]
  obtain ⟨hentry, hkey, hvalue⟩ := hs.options _ _ (OrderedDict.mem_entries_iff.mp hmem)
  have hfresh : entry.1 ∉ done.map Prod.fst := by
    have hnodup := s.options.nodup
    rw [heq, List.map_append, List.nodup_append] at hnodup
    exact fun hin => hnodup.2.2 _ hin _ List.mem_cons_self rfl
  exact optionsRead_step hread hfresh hentry hkey hvalue (hlong entry hmem)

/-- An empty comment is read as one of the section before it. -/
theorem componentsRead_comment (lower : DartString → DartString) (exitMode : Bool)
    {done : List ConfigComponent}
    (hread : ComponentsRead config done b) (hne : done ≠ []) :
    ∃ b', b.parseLine lower exitMode [] = .ok b' ∧
      ComponentsRead config (done ++ [.comment []]) b' := by
  obtain ⟨key, s', hcurrent, hfind⟩ := hread.current hne
  obtain ⟨s, hs, hsection⟩ := hread.sections key s' hfind
  have hline : b.parseLine lower exitMode [] = _ := parseLine_inside (by decide) hcurrent
  rw [parseInSection_empty] at hline
  have hmem : key ∈ b.sectionMap.keys := OrderedDict.mem_keys_iff.mpr ⟨s', hfind⟩
  have hdone : (done ++ [ConfigComponent.comment []]).filterMap ConfigComponent.key? =
      done.filterMap ConfigComponent.key? := by
    rw [List.filterMap_append]
    exact List.append_nil _
  refine ⟨_, hline, ?_, ?_, fun _ => ⟨key, _, rfl, ?_⟩, ?_⟩
  · rw [hdone]
    exact hread.components
  · rw [hdone, OrderedDict.keys_set_of_mem hmem]
    exact hread.keys
  · rw [OrderedDict.find_set, if_pos rfl]
  · intro k t ht
    rw [OrderedDict.find_set] at ht
    split at ht
    · rename_i hk
      obtain rfl := Option.some.inj ht
      refine ⟨s, hk ▸ hs, hsection.name, hsection.options, ?_⟩
      rw [IniSection.addComment, List.filterMap_append, hsection.components]
      exact List.append_nil _
    · exact hread.sections k t ht

theorem componentsRead_section {done : List ConfigComponent}
    (hread : ComponentsRead config done b) (hfresh : key ∉ b.sectionMap.keys)
    (hfind : config.sectionMap.find key = some s) (hname : key = lower s.name)
    (hs : s.Shaped lower) (hlong : ∀ entry ∈ s.options.entries, 2 ≤ entry.2.key.length) :
    ∃ b', s.lines.foldlM (Builder.parseLine lower exitMode) b = .ok b' ∧
      ComponentsRead config (done ++ [.iniSection key]) b' := by
  have hkey : lower (sectionName (headerLine s.name)) ∉ b.sectionMap.keys := by
    rw [sectionName_headerLine, ← hname]
    exact hfresh
  have hheader : b.parseLine lower exitMode (headerLine s.name) = _ :=
    parseLine_header_fresh isHeader_headerLine hkey
  rw [sectionName_headerLine, ← hname] at hheader
  have hfound : (b.sectionMap.set key (.new s.name)).find key = some (.new s.name) := by
    rw [OrderedDict.find_set, if_pos rfl]
  obtain ⟨b', hoptions, hend⟩ := options_read exitMode key
    ⟨b.sectionMap.set key (.new s.name), b.components ++ [.iniSection key],
      some (key, .new s.name), b.lineNumber + 1⟩ hs hlong
    ⟨rfl, rfl, fun _ _ => rfl, .new s.name, rfl, hfound, rfl, rfl, rfl⟩
  obtain ⟨s', hcurrent, hfind', hname', hoptions', hcomponents'⟩ := hend.current
  have hdone : (done ++ [ConfigComponent.iniSection key]).filterMap ConfigComponent.key? =
      done.filterMap ConfigComponent.key? ++ [key] := List.filterMap_append ..
  refine ⟨b', ?_, ?_, ?_, fun _ => ⟨key, s', hcurrent, hfind'⟩, ?_⟩
  · rw [IniSection.lines, Folds.foldlM_cons_of_ok hheader, hoptions]
  · rw [hend.components, hdone, List.map_append, ← hread.components]
    rfl
  · rw [hend.keys, hdone, OrderedDict.keys_set_of_not_mem hfresh, hread.keys]
  · intro k t ht
    by_cases hk : k = key
    · subst hk
      obtain rfl := Option.some.inj (hfind'.symm.trans ht)
      exact ⟨s, hfind, hname', OrderedDict.ext hoptions', hcomponents'⟩
    · rw [hend.others k hk, OrderedDict.find_set, if_neg hk] at ht
      exact hread.sections k t ht

theorem componentsRead_empty : ComponentsRead config [] .empty :=
  ⟨rfl, rfl, fun h => absurd rfl h, fun _ _ h => by cases h⟩

theorem IniConfig.Shaped.read (exitMode : Bool) (hconfig : config.Shaped lower)
    (hlong : ∀ key s, config.sectionMap.find key = some s →
      ∀ entry ∈ s.options.entries, 2 ≤ entry.2.key.length) :
    ∃ b, config.lines.foldlM (Builder.parseLine lower exitMode) .empty = .ok b ∧
      ComponentsRead config config.components b := by
  rw [IniConfig.lines, Folds.foldlM_flatMap]
  refine Folds.foldlM_progress componentsRead_empty fun done component rest b heq hread => ?_
  have hmem : component ∈ config.components := by simp [heq]
  cases component with
  | comment text =>
    obtain rfl := hconfig.comments text hmem
    have hne : done ≠ [] := by
      rintro rfl
      exact hconfig.first [] (by rw [heq]; rfl)
    obtain ⟨b', hline, hread'⟩ := componentsRead_comment lower exitMode hread hne
    exact ⟨b', (Folds.foldlM_cons_of_ok hline).trans rfl, hread'⟩
  | iniSection key =>
    have hkeys := hconfig.keys
    rw [heq, List.filterMap_append] at hkeys
    have hkey : key ∈ config.sectionMap.keys := by
      rw [← hkeys]
      simp [ConfigComponent.key?]
    obtain ⟨s, hfind⟩ := OrderedDict.mem_keys_iff.mp hkey
    obtain ⟨hname, hs⟩ := hconfig.sections key s hfind
    have hfresh : key ∉ b.sectionMap.keys := by
      have hnodup : config.sectionMap.keys.Nodup := config.sectionMap.nodup
      rw [← hkeys, List.nodup_append] at hnodup
      rw [hread.keys]
      exact fun hin => hnodup.2.2 _ hin _ (by simp [ConfigComponent.key?]) rfl
    have hlines : config.componentLines (.iniSection key) = s.lines := by
      simp [IniConfig.componentLines, hfind]
    rw [hlines]
    exact componentsRead_section hread hfresh hfind hname hs (hlong key s hfind)

theorem IniSection.optionList_eq :
    s.optionList = (s.components.filterMap SectionComponent.key?).filterMap s.options.find := by
  rw [IniSection.optionList, List.filterMap_filterMap]
  refine List.filterMap_congr fun component _ => ?_
  cases component <;> rfl

theorem IniConfig.sections_eq : config.sections =
    (config.components.filterMap ConfigComponent.key?).filterMap config.sectionMap.find := by
  rw [IniConfig.sections, List.filterMap_filterMap]
  refine List.filterMap_congr fun component _ => ?_
  cases component <;> rfl

theorem IniSection.Shaped.keys (hs : s.Shaped lower) :
    s.components.filterMap SectionComponent.key? = s.options.keys := by
  rw [hs.components, List.filterMap_map]
  exact List.filterMap_some

theorem SectionRead.optionList {s' : IniSection} (h : SectionRead s s') (hs : s.Shaped lower) :
    s'.optionList = s.optionList := by
  rw [IniSection.optionList_eq, IniSection.optionList_eq, h.components, h.options, hs.keys]

theorem ComponentsRead.find (hread : ComponentsRead config config.components b)
    (hconfig : config.Shaped lower) (key : DartString) :
    (b.sectionMap.find key = none ∧ config.sectionMap.find key = none) ∨
      ∃ s' s, b.sectionMap.find key = some s' ∧ config.sectionMap.find key = some s ∧
        SectionRead s s' ∧ s.Shaped lower := by
  cases hfind : b.sectionMap.find key with
  | none =>
    refine .inl ⟨rfl, ?_⟩
    rw [OrderedDict.find_eq_none_iff, ← hconfig.keys, ← hread.keys]
    exact OrderedDict.find_eq_none_iff.mp hfind
  | some s' =>
    obtain ⟨s, hs, hsection⟩ := hread.sections key s' hfind
    exact .inr ⟨s', s, rfl, hs, hsection, (hconfig.sections key s hs).2⟩

theorem ComponentsRead.contents (hread : ComponentsRead config config.components b)
    (hconfig : config.Shaped lower) :
    (IniConfig.mk b.sectionMap b.components).contents = config.contents := by
  have hkeys : b.components.filterMap ConfigComponent.key? =
      config.components.filterMap ConfigComponent.key? := by
    rw [hread.components, List.filterMap_map]
    exact List.filterMap_some
  rw [IniConfig.contents, IniConfig.contents, IniConfig.sections_eq, IniConfig.sections_eq, hkeys,
    List.map_filterMap, List.map_filterMap]
  refine List.filterMap_congr fun key _ => ?_
  rcases hread.find hconfig key with ⟨hb, hc⟩ | ⟨s', s, hb, hc, hsection, hs⟩
  · rw [hb, hc]
  · rw [hb, hc, Option.map_some, Option.map_some, hsection.name, hsection.optionList hs]

theorem ComponentsRead.value (hread : ComponentsRead config config.components b)
    (hconfig : config.Shaped lower) (sectionName optionName : DartString) :
    (IniConfig.mk b.sectionMap b.components).value lower sectionName optionName =
      config.value lower sectionName optionName := by
  rw [IniConfig.value, IniConfig.value, IniConfig.get, IniConfig.get]
  rcases hread.find hconfig (lower sectionName) with ⟨hb, hc⟩ | ⟨s', s, hb, hc, hsection, _⟩
  · rw [hb, hc]
  · rw [hb, hc, Option.bind_some, Option.bind_some, IniSection.get, IniSection.get,
      hsection.options]

theorem mem_optionList (hs : s.Shaped lower) {o : IniOption} :
    o ∈ s.optionList ↔ ∃ entry ∈ s.options.entries, entry.2 = o := by
  rw [IniSection.optionList_eq, hs.keys, OrderedDict.keys, List.filterMap_map, List.mem_filterMap]
  refine exists_congr fun entry => and_congr_right fun hentry => ?_
  rw [Function.comp_apply, OrderedDict.mem_entries_iff.mp hentry, Option.some.injEq]

theorem mem_sections (hconfig : config.Shaped lower) :
    s ∈ config.sections ↔ ∃ key, config.sectionMap.find key = some s := by
  rw [IniConfig.sections_eq, hconfig.keys, List.mem_filterMap]
  refine exists_congr fun key => and_iff_right_of_imp fun hfind => ?_
  exact OrderedDict.mem_keys_iff.mpr ⟨s, hfind⟩

theorem IniConfig.Shaped.short_line (hconfig : config.Shaped lower) {o : IniOption}
    (hs : s ∈ config.sections) (ho : o ∈ s.optionList) :
    ∃ before after, config.lines = before ++ o.line :: after ∧
      (∃ header ∈ before, IsHeader header) ∧ (ShortKey o.line ↔ o.key.length ≤ 1) := by
  obtain ⟨key, hfind⟩ := (mem_sections hconfig).mp hs
  obtain ⟨_, hshaped⟩ := hconfig.sections key s hfind
  obtain ⟨entry, hentry, rfl⟩ := (mem_optionList hshaped).mp ho
  obtain ⟨_, hkey, hvalue⟩ := hshaped.options _ _ (OrderedDict.mem_entries_iff.mp hentry)
  have hcomponent : .iniSection key ∈ config.components := by
    have hmem : key ∈ config.components.filterMap ConfigComponent.key? := by
      rw [hconfig.keys]
      exact OrderedDict.mem_keys_iff.mpr ⟨s, hfind⟩
    obtain ⟨component, hin, hsome⟩ := List.mem_filterMap.mp hmem
    cases component with
    | comment text => cases hsome
    | iniSection k => exact Option.some.inj hsome ▸ hin
  obtain ⟨pre, post, hcomponents⟩ := List.append_of_mem hcomponent
  obtain ⟨first, rest, hentries⟩ := List.append_of_mem hentry
  refine ⟨pre.flatMap config.componentLines ++ headerLine s.name ::
      first.map (fun entry => entry.2.line),
    rest.map (fun entry => entry.2.line) ++ post.flatMap config.componentLines, ?_,
    ⟨headerLine s.name, by simp, isHeader_headerLine⟩, shortKey_line_iff hkey hvalue⟩
  have hlines : config.componentLines (.iniSection key) = s.lines := by
    simp [IniConfig.componentLines, hfind]
  rw [IniConfig.lines, hcomponents, List.flatMap_append, List.flatMap_cons, hlines,
    IniSection.lines, hentries]
  simp

end

/-- The text of a configuration is read back if and only if every key has two code units or more;
a text ends the parser properly if and only if it comes to no shorter key in a section. -/
theorem ini_roundTrips_iff {lower : DartString → DartString} {exitMode : Bool} {config : IniConfig}
    (hconfig : Built lower exitMode config) (text : DartString) :
    (config.RoundTrips lower exitMode ↔
      ∀ s ∈ config.sections, ∀ o ∈ s.optionList, 2 ≤ o.key.length) ∧
    (EndsProperly lower text ↔ ShortKeysUnreached lower (convert text)) := by
  refine ⟨⟨?_, ?_⟩, endsProperly_iff⟩
  · rintro ⟨parsed, hparsed, _⟩ s hs o ho
    rw [parseString_eq, hconfig.shaped.convert_toText] at hparsed
    cases hfold : config.lines.foldlM (Builder.parseLine lower exitMode) .empty with
    | error stop =>
      rw [hfold] at hparsed
      cases hparsed
    | ok b =>
      by_contra hshort
      obtain ⟨before, after, hlines, hheader, hiff⟩ := hconfig.shaped.short_line hs ho
      rw [hlines] at hfold
      exact foldlM_short_ne_ok (hiff.mpr (by omega)) hheader hfold
  · intro hlong
    have hentries : ∀ key s, config.sectionMap.find key = some s →
        ∀ entry ∈ s.options.entries, 2 ≤ entry.2.key.length := by
      intro key s hfind entry hentry
      obtain ⟨_, hs⟩ := hconfig.shaped.sections key s hfind
      exact hlong s ((mem_sections hconfig.shaped).mpr ⟨key, hfind⟩) entry.2
        ((mem_optionList hs).mpr ⟨entry, hentry, rfl⟩)
    obtain ⟨b, hfold, hread⟩ := hconfig.shaped.read exitMode hentries
    refine ⟨⟨b.sectionMap, b.components⟩, ?_, hread.contents hconfig.shaped,
      hread.value hconfig.shaped⟩
    rw [parseString_eq, hconfig.shaped.convert_toText, hfold]
    rfl

/-- `toLowerCase` on ASCII. -/
def asciiLower (text : DartString) : DartString :=
  text.map fun unit => if 0x41 ≤ unit ∧ unit ≤ 0x5A then unit + 0x20 else unit

theorem ini_roundTrips_two_sections : ∃ config : IniConfig,
    config.toText = units "[Main]\nregion=eu\n\n[Other]\n" ∧
      config.RoundTrips asciiLower false ∧ EndsProperly asciiLower (units "a=1\n[Main]\nb\n") := by
  have hmain : ValidName (units "Main") :=
    ⟨by decide, by decide, by decide, by decide, by decide⟩
  have hregion : ValidKey (units "region") :=
    ⟨⟨by decide, by decide, by decide, by decide, by decide⟩, by decide, by decide⟩
  have heu : ValidValue (units "eu") := ⟨by decide, by decide, by decide⟩
  have hother : ValidName (units "Other") :=
    ⟨by decide, by decide, by decide, by decide, by decide⟩
  have hbuilt : Built asciiLower false _ :=
    .addSection (.set (.createNew rfl) hmain hregion heu rfl) hother rfl
  have hunreached : ShortKeysUnreached asciiLower (convert (units "a=1\n[Main]\nb\n")) := by
    intro before line after heq hshort hheader
    cases before with
    | nil => simp at hheader
    | cons first before =>
      have hlate : ∀ line ∈ [units "[Main]", units "b"], ¬ ShortKey line := by decide
      have hrest : [units "[Main]", units "b"] = before ++ line :: after := (List.cons.inj heq).2
      exact absurd hshort (hlate line (by simp [hrest]))
  have hiff := ini_roundTrips_iff hbuilt (units "a=1\n[Main]\nb\n")
  exact ⟨_, rfl, hiff.1.mpr (by decide), hiff.2.mpr hunreached⟩

/-- The line of a key of one letter is not split. -/
theorem one_letter_key_raises :
    (∃ config, Built asciiLower false config ∧ config.toText = units "[main]\na=1\n" ∧
      ¬ config.RoundTrips asciiLower false) ∧
    ¬ EndsProperly asciiLower (units "[main]\na=1\n") := by
  have hraises : parseString asciiLower false (units "[main]\na=1\n") = .error .rangeError := rfl
  have hmain : ValidName (units "main") :=
    ⟨by decide, by decide, by decide, by decide, by decide⟩
  have ha : ValidKey (units "a") :=
    ⟨⟨by decide, by decide, by decide, by decide, by decide⟩, by decide, by decide⟩
  have hone : ValidValue (units "1") := ⟨by decide, by decide, by decide⟩
  constructor
  · refine ⟨_, .set (.createNew rfl) hmain ha hone rfl, rfl, ?_⟩
    rintro ⟨parsed, hparsed, _⟩
    cases hraises.symm.trans hparsed
  · rintro (⟨config, h⟩ | ⟨message, h⟩) <;> cases hraises.symm.trans h

end ShimService.Cli
