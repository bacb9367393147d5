import Mathlib.Data.List.Nodup
import ShimService.Cli.IniConfig
import ShimService.Library.Folds

/-!
Which texts the parser takes. Each line says by itself whether it names a section, sets an option
or does neither; the rest depends on the lines before it.
-/
namespace ShimService.Cli

section

/-- The line names a section. -/
def IsHeader (line : DartString) : Prop :=
  (trim line).head? = some openBracket ∧ (trim line).getLast? = some closeBracket

instance (line : DartString) : Decidable (IsHeader line) := inferInstanceAs (Decidable (_ ∧ _))

/-- The line sets an option if it is in a section. -/
def IsAssignment (line : DartString) : Prop :=
  ¬ IsHeader line ∧ (trim line).head? ≠ some hash ∧ equals ∈ trim line

instance (line : DartString) : Decidable (IsAssignment line) :=
  inferInstanceAs (Decidable (_ ∧ _ ∧ _))

/-- At most one code unit stands in front of the first equals sign. -/
def ShortKey (line : DartString) : Prop :=
  IsAssignment line ∧ indexOf (trim line) equals ≤ 1

instance (line : DartString) : Decidable (ShortKey line) := inferInstanceAs (Decidable (_ ∧ _))

def sectionName (line : DartString) : DartString := ((trim line).drop 1).dropLast

variable (lower : DartString → DartString)

def sectionKey (line : DartString) : Option DartString :=
  if IsHeader line then some (lower (sectionName line)) else none

def optionKey (line : DartString) : Option DartString :=
  if IsAssignment line ∧ ¬ ShortKey line then
    some (lower (trim ((trim line).take (indexOf (trim line) equals).toNat)))
  else none

/-- Two sections have the same key, or two options between one section's line and the next's. -/
def Duplicated (lines : List DartString) : Prop :=
  ¬ (lines.filterMap (sectionKey lower)).Nodup ∨
    ∃ before header block after, lines = before ++ header :: block ++ after ∧ IsHeader header ∧
      (∀ line ∈ block, ¬ IsHeader line) ∧ ¬ (block.filterMap (optionKey lower)).Nodup

/-- In front of a line with a short key in a section there are duplicates. -/
def ShortKeysUnreached (lines : List DartString) : Prop :=
  ∀ before line after, lines = before ++ line :: after → ShortKey line →
    (∃ header ∈ before, IsHeader header) → Duplicated lower before

/-- Parsing ends with a configuration or with the parser's own error. -/
def EndsProperly (text : DartString) : Prop :=
  (∃ config, parseString lower false text = .ok config) ∨
    ∃ message, parseString lower false text = .error (.stateError message)

end

/-! What a line does, by its kind. -/

section

variable {lower : DartString → DartString} {exitMode : Bool} {line name value key : DartString}
  {s s' : IniSection} {b b' : Builder} {stop : Stop}

theorem fatal_ne_ok {α : Type} {message : DartString} {a : α} : fatal exitMode message ≠ .ok a := by
  unfold fatal
  split <;> simp

theorem addOption_fresh (h : lower name ∉ s.options.keys) :
    s.addOption lower exitMode name value = .ok { s with
      options := s.options.set (lower name) ⟨name, value⟩
      components := s.components ++ [.option (lower name)] } := if_neg h

theorem addOption_duplicate (h : lower name ∈ s.options.keys) :
    s.addOption lower exitMode name value = fatal exitMode
      (units "key '" ++ lower name ++ units "' is duplicated in " ++ s.name ++
        units " section.") := if_pos h

theorem parseInSection_comment (hheader : ¬ IsHeader line) (h : ¬ IsAssignment line) :
    Builder.parseInSection lower exitMode s line = .ok (s.addComment line) := by
  have hcomment : (trim line).head? = some hash ∨ equals ∉ trim line := by
    by_contra hneither
    rw [not_or, not_not] at hneither
    exact h ⟨hheader, hneither⟩
  exact if_pos hcomment

theorem parseInSection_short (h : ShortKey line) :
    Builder.parseInSection lower exitMode s line = .error .rangeError := by
  obtain ⟨⟨_, hhash, hequals⟩, hindex⟩ := h
  have hsplit : splitInTwo (trim line) equals = [trim line] := if_neg (Int.not_lt.mpr hindex)
  unfold Builder.parseInSection
  dsimp only
  rw [if_neg (by simp [hhash, hequals]), hsplit]

theorem parseInSection_option (exitMode : Bool) (s : IniSection) (h : IsAssignment line)
    (hshort : ¬ ShortKey line) :
    ∃ name value, optionKey lower line = some (lower name) ∧
      Builder.parseInSection lower exitMode s line = s.addOption lower exitMode name value := by
  have hindex : 1 < indexOf (trim line) equals := by
    by_contra hle
    exact hshort ⟨h, Int.not_lt.mp hle⟩
  refine ⟨_, trim ((trim line).drop ((indexOf (trim line) equals).toNat + 1)),
    if_pos ⟨h, hshort⟩, ?_⟩
  unfold Builder.parseInSection splitInTwo
  dsimp only
  rw [if_neg (by simp [h.2.1, h.2.2]), if_pos hindex]

theorem sectionKey_header (h : IsHeader line) :
    sectionKey lower line = some (lower (sectionName line)) := if_pos h

theorem sectionKey_other (h : ¬ IsHeader line) : sectionKey lower line = none := if_neg h

theorem optionKey_other (h : ¬ IsAssignment line) : optionKey lower line = none :=
  if_neg fun hand => h hand.1

theorem parseLine_header_fresh (h : IsHeader line)
    (hkey : lower (sectionName line) ∉ b.sectionMap.keys) :
    b.parseLine lower exitMode line =
      .ok ⟨b.sectionMap.set (lower (sectionName line))
          (.new (sectionName line)),
        b.components ++ [.iniSection (lower (sectionName line))],
        some (lower (sectionName line), .new (sectionName line)),
        b.lineNumber + 1⟩ := (if_pos h).trans (if_neg hkey)

theorem parseLine_header_duplicate (exitMode : Bool) (h : IsHeader line)
    (hkey : lower (sectionName line) ∈ b.sectionMap.keys) :
    ∃ message, b.parseLine lower exitMode line = fatal exitMode message :=
  ⟨_, (if_pos h).trans (if_pos hkey)⟩

theorem parseLine_outside (h : ¬ IsHeader line) (hb : b.current = none) :
    b.parseLine lower exitMode line =
      .ok ⟨b.sectionMap, b.components ++ [.comment line], none, b.lineNumber + 1⟩ := by
  refine (if_neg h).trans ?_
  simp only [hb]

theorem parseLine_inside (h : ¬ IsHeader line) (hb : b.current = some (key, s)) :
    b.parseLine lower exitMode line =
      (Builder.parseInSection lower exitMode s line).map fun s' =>
        ⟨b.sectionMap.set key s', b.components, some (key, s'), b.lineNumber + 1⟩ := by
  refine (if_neg h).trans ?_
  simp only [hb]
  cases Builder.parseInSection lower exitMode s line <;> rfl

end

/-! What the parser knows after some lines. -/

section

variable {lower : DartString → DartString} {exitMode : Bool} {line header : DartString}
  {lines block before after : List DartString} {b b' : Builder} {stop : Stop}

/-- The lines after the last section's line. -/
def lastBlock (lines : List DartString) : List DartString :=
  lines.rtakeWhile fun line => ¬ IsHeader line

theorem not_isHeader_of_mem_lastBlock (h : line ∈ lastBlock lines) : ¬ IsHeader line := by
  simpa using List.mem_rtakeWhile_imp h

theorem lastBlock_concat_header (h : IsHeader line) : lastBlock (lines ++ [line]) = [] :=
  List.rtakeWhile_concat_neg _ _ line (by simp [h])

theorem lastBlock_concat (h : ¬ IsHeader line) :
    lastBlock (lines ++ [line]) = lastBlock lines ++ [line] :=
  List.rtakeWhile_concat_pos _ _ line (by simp [h])

theorem lastBlock_append (hheader : IsHeader header) (hblock : ∀ line ∈ block, ¬ IsHeader line) :
    lastBlock (before ++ header :: block) = block := by
  induction block using List.reverseRecOn with
  | nil => exact lastBlock_concat_header hheader
  | append_singleton block line ih =>
    have hline : ¬ IsHeader line := hblock line (by simp)
    have hrest := ih fun l hl => hblock l (by simp [hl])
    rw [← List.cons_append, ← List.append_assoc, lastBlock_concat hline, hrest]

/-- The section of the last block. -/
theorem exists_lastBlock (h : ∃ header ∈ lines, IsHeader header) :
    ∃ before header, lines = before ++ header :: lastBlock lines ∧ IsHeader header := by
  induction lines using List.reverseRecOn with
  | nil =>
    obtain ⟨header, hmem, _⟩ := h
    cases hmem
  | append_singleton lines line ih =>
    by_cases hline : IsHeader line
    · exact ⟨lines, line, by rw [lastBlock_concat_header hline], hline⟩
    · obtain ⟨header, hmem, hheader⟩ := h
      have hlines : ∃ header ∈ lines, IsHeader header := by
        rcases List.mem_append.mp hmem with hmem | hmem
        · exact ⟨header, hmem, hheader⟩
        · exact absurd (List.mem_singleton.mp hmem ▸ hheader) hline
      obtain ⟨before, first, heq, hfirst⟩ := ih hlines
      refine ⟨before, first, ?_, hfirst⟩
      rw [lastBlock_concat hline, ← List.cons_append, ← List.append_assoc, ← heq]

/-- The map has the keys of the sections; the current section has the keys of the options in its
lines. -/
structure Parsed (lower : DartString → DartString) (lines : List DartString) (b : Builder) :
    Prop where
  keys : b.sectionMap.keys = lines.filterMap (sectionKey lower)
  outside : b.current = none ↔ ∀ line ∈ lines, ¬ IsHeader line
  inside : ∀ key s, b.current = some (key, s) → key ∈ b.sectionMap.keys ∧
    s.options.keys = (lastBlock lines).filterMap (optionKey lower)

theorem parsed_empty : Parsed lower [] Builder.empty where
  keys := rfl
  outside := by simp [Builder.empty]
  inside _ _ h := by cases h

/-- A line in a section leaves its options or adds the one that the line sets. -/
theorem parseInSection_keys {s s' : IniSection} (hheader : ¬ IsHeader line)
    (h : Builder.parseInSection lower exitMode s line = .ok s') :
    s'.options.keys = s.options.keys ++ [line].filterMap (optionKey lower) := by
  by_cases hassign : IsAssignment line
  · by_cases hshort : ShortKey line
    · rw [parseInSection_short hshort] at h
      cases h
    · obtain ⟨name, value, hkey, hparse⟩ := parseInSection_option exitMode s hassign hshort
      rw [hparse] at h
      by_cases hdup : lower name ∈ s.options.keys
      · rw [addOption_duplicate hdup] at h
        exact absurd h fatal_ne_ok
      · rw [addOption_fresh hdup] at h
        obtain rfl := Except.ok.inj h
        simp [OrderedDict.keys_set_of_not_mem hdup, hkey]
  · rw [parseInSection_comment hheader hassign] at h
    obtain rfl := Except.ok.inj h
    simp [IniSection.addComment, optionKey_other hassign]

theorem parsed_header (hb : Parsed lower lines b) (hheader : IsHeader line)
    (hkey : lower (sectionName line) ∉ b.sectionMap.keys)
    (h : b.parseLine lower exitMode line = .ok b') : Parsed lower (lines ++ [line]) b' := by
  rw [parseLine_header_fresh hheader hkey] at h
  obtain rfl := Except.ok.inj h
  refine ⟨?_, ?_, ?_⟩
  · simp [OrderedDict.keys_set_of_not_mem hkey, hb.keys, sectionKey_header hheader]
  · simp [hheader]
  · rintro key s ⟨⟩
    rw [lastBlock_concat_header hheader]
    exact ⟨by simp [OrderedDict.keys_set_of_not_mem hkey], rfl⟩

theorem sectionKeys_concat (h : ¬ IsHeader line) :
    (lines ++ [line]).filterMap (sectionKey lower) = lines.filterMap (sectionKey lower) := by
  simp [sectionKey_other h]

theorem no_header_concat_iff (h : ¬ IsHeader line) :
    (∀ l ∈ lines ++ [line], ¬ IsHeader l) ↔ ∀ l ∈ lines, ¬ IsHeader l := by
  rw [List.forall_mem_append]
  simp [h]

theorem parsed_outside (hb : Parsed lower lines b) (hheader : ¬ IsHeader line)
    (hcurrent : b.current = none) (h : b.parseLine lower exitMode line = .ok b') :
    Parsed lower (lines ++ [line]) b' := by
  rw [parseLine_outside hheader hcurrent] at h
  obtain rfl := Except.ok.inj h
  refine ⟨?_, ?_, ?_⟩
  · rw [sectionKeys_concat hheader]
    exact hb.keys
  · rw [no_header_concat_iff hheader]
    exact iff_of_true rfl (hb.outside.mp hcurrent)
  · rintro key s ⟨⟩

theorem parsed_inside (hb : Parsed lower lines b) (hheader : ¬ IsHeader line)
    {key : DartString} {s : IniSection} (hcurrent : b.current = some (key, s))
    (h : b.parseLine lower exitMode line = .ok b') : Parsed lower (lines ++ [line]) b' := by
  obtain ⟨hmem, hoptions⟩ := hb.inside key s hcurrent
  rw [parseLine_inside hheader hcurrent] at h
  cases hparse : Builder.parseInSection lower exitMode s line with
  | error stop =>
    rw [hparse] at h
    cases h
  | ok s' =>
    rw [hparse] at h
    obtain rfl := Except.ok.inj h
    refine ⟨?_, ?_, ?_⟩
    · rw [sectionKeys_concat hheader, ← hb.keys]
      exact OrderedDict.keys_set_of_mem hmem
    · rw [no_header_concat_iff hheader, ← hb.outside, hcurrent]
      simp
    · rintro _ _ ⟨⟩
      rw [lastBlock_concat hheader, List.filterMap_append, ← hoptions]
      refine ⟨?_, parseInSection_keys hheader hparse⟩
      rw [OrderedDict.keys_set_of_mem hmem]
      exact hmem

theorem parsed_step (hb : Parsed lower lines b) (h : b.parseLine lower exitMode line = .ok b') :
    Parsed lower (lines ++ [line]) b' := by
  by_cases hheader : IsHeader line
  · by_cases hkey : lower (sectionName line) ∈ b.sectionMap.keys
    · obtain ⟨message, hfatal⟩ := parseLine_header_duplicate exitMode hheader hkey
      exact absurd (hfatal.symm.trans h) fatal_ne_ok
    · exact parsed_header hb hheader hkey h
  · cases hcurrent : b.current with
    | none => exact parsed_outside hb hheader hcurrent h
    | some entry => exact parsed_inside hb hheader hcurrent h

theorem parsed (h : lines.foldlM (Builder.parseLine lower exitMode) .empty = .ok b) :
    Parsed lower lines b :=
  Folds.foldlM_invariant parsed_empty (fun _ _ _ _ => parsed_step) h

theorem Duplicated.append (h : Duplicated lower before) : Duplicated lower (before ++ after) := by
  rcases h with hsections | ⟨before', header, block, rest, rfl, hheader, hblock, hoptions⟩
  · left
    rw [List.filterMap_append]
    exact fun hnodup => hsections hnodup.of_append_left
  · exact .inr ⟨before', header, block, rest ++ after, List.append_assoc .., hheader, hblock,
      hoptions⟩

/-- A parser that has come through has found no duplicates. -/
theorem not_duplicated (h : lines.foldlM (Builder.parseLine lower exitMode) .empty = .ok b) :
    ¬ Duplicated lower lines := by
  rintro (hsections | ⟨before, header, block, after, rfl, hheader, hblock, hoptions⟩)
  · rw [← (parsed h).keys] at hsections
    exact hsections b.sectionMap.nodup
  · obtain ⟨b', hb'⟩ : ∃ b', (before ++ header :: block).foldlM
        (Builder.parseLine lower exitMode) .empty = .ok b' := by
      cases hprefix : (before ++ header :: block).foldlM
          (Builder.parseLine lower exitMode) .empty with
      | ok b' => exact ⟨b', rfl⟩
      | error stop =>
        rw [Folds.foldlM_append_of_error hprefix] at h
        cases h
    have hparsed := parsed hb'
    cases hcurrent : b'.current with
    | none =>
      exact hparsed.outside.mp hcurrent header (by simp) hheader
    | some entry =>
      obtain ⟨key, s⟩ := entry
      have hkeys := (hparsed.inside key s hcurrent).2
      rw [lastBlock_append hheader hblock] at hkeys
      rw [← hkeys] at hoptions
      exact hoptions s.options.nodup

theorem parseInSection_error {s : IniSection} (hheader : ¬ IsHeader line)
    (h : Builder.parseInSection lower false s line = .error stop) :
    (ShortKey line ∧ stop = .rangeError) ∨
      ∃ key message, optionKey lower line = some key ∧ key ∈ s.options.keys ∧
        stop = .stateError message := by
  by_cases hassign : IsAssignment line
  · by_cases hshort : ShortKey line
    · rw [parseInSection_short hshort] at h
      exact .inl ⟨hshort, (Except.error.inj h).symm⟩
    · obtain ⟨name, value, hkey, hparse⟩ :=
        parseInSection_option false s hassign hshort
      rw [hparse] at h
      by_cases hdup : lower name ∈ s.options.keys
      · rw [addOption_duplicate hdup] at h
        exact .inr ⟨lower name, _, hkey, hdup, (Except.error.inj h).symm⟩
      · rw [addOption_fresh hdup] at h
        cases h
  · rw [parseInSection_comment hheader hassign] at h
    cases h

theorem duplicated_section (hb : Parsed lower lines b) (hheader : IsHeader line)
    (hkey : lower (sectionName line) ∈ b.sectionMap.keys) : Duplicated lower (lines ++ [line]) := by
  left
  rw [hb.keys] at hkey
  intro hnodup
  rw [List.filterMap_append, List.nodup_append] at hnodup
  exact hnodup.2.2 _ hkey _ (by simp [sectionKey_header hheader]) rfl

theorem duplicated_option (hb : Parsed lower lines b) (hheader : ¬ IsHeader line)
    {key optionName : DartString} {s : IniSection} (hcurrent : b.current = some (key, s))
    (hoption : optionKey lower line = some optionName) (hdup : optionName ∈ s.options.keys) :
    Duplicated lower (lines ++ [line]) := by
  have hexists : ∃ header ∈ lines, IsHeader header := by
    by_contra hnone
    have houtside := hb.outside.mpr fun l hl hl' => hnone ⟨l, hl, hl'⟩
    rw [hcurrent] at houtside
    cases houtside
  obtain ⟨before, header, heq, hfirst⟩ := exists_lastBlock hexists
  refine .inr ⟨before, header, lastBlock lines ++ [line], [], ?_, hfirst, ?_, ?_⟩
  · rw [List.append_nil, ← List.cons_append, ← List.append_assoc, ← heq]
  · intro l hl
    rcases List.mem_append.mp hl with hl | hl
    · exact not_isHeader_of_mem_lastBlock hl
    · exact List.mem_singleton.mp hl ▸ hheader
  · intro hnodup
    rw [List.filterMap_append, ← (hb.inside key s hcurrent).2, List.nodup_append] at hnodup
    exact hnodup.2.2 _ hdup _ (by simp [hoption]) rfl

/-- A line stops the parser because its key is short or because it completes a duplicate. -/
theorem parseLine_error (hb : Parsed lower lines b)
    (h : b.parseLine lower false line = .error stop) :
    (ShortKey line ∧ b.current ≠ none ∧ stop = .rangeError) ∨
      (Duplicated lower (lines ++ [line]) ∧ ∃ message, stop = .stateError message) := by
  by_cases hheader : IsHeader line
  · by_cases hkey : lower (sectionName line) ∈ b.sectionMap.keys
    · obtain ⟨message, hfatal⟩ := parseLine_header_duplicate false hheader hkey
      exact .inr ⟨duplicated_section hb hheader hkey, message,
        Except.error.inj (h.symm.trans hfatal)⟩
    · rw [parseLine_header_fresh hheader hkey] at h
      cases h
  · cases hcurrent : b.current with
    | none =>
      rw [parseLine_outside hheader hcurrent] at h
      cases h
    | some entry =>
      obtain ⟨key, s⟩ := entry
      rw [parseLine_inside hheader hcurrent] at h
      cases hparse : Builder.parseInSection lower false s line with
      | ok s' =>
        rw [hparse] at h
        cases h
      | error stop' =>
        rw [hparse] at h
        obtain rfl : stop' = stop := Except.error.inj h
        rcases parseInSection_error hheader hparse with hshort | ⟨name, message, hname, hdup, heq⟩
        · exact .inl ⟨hshort.1, by simp, hshort.2⟩
        · exact .inr ⟨duplicated_option hb hheader hcurrent hname hdup, message, heq⟩

theorem parseLine_short (hshort : ShortKey line) (hb : b.current ≠ none) :
    b.parseLine lower exitMode line = .error .rangeError := by
  obtain ⟨⟨key, s⟩, hcurrent⟩ := Option.ne_none_iff_exists'.mp hb
  rw [parseLine_inside hshort.1.1 hcurrent, parseInSection_short hshort]
  rfl

/-- The short key of a line that is reached in a section stops the parser. -/
theorem foldlM_short (hb : before.foldlM (Builder.parseLine lower exitMode) .empty = .ok b)
    (hshort : ShortKey line) (hheader : ∃ header ∈ before, IsHeader header) :
    (before ++ line :: after).foldlM (Builder.parseLine lower exitMode) .empty =
      .error .rangeError := by
  obtain ⟨header, hmem, hheader⟩ := hheader
  have hcurrent : b.current ≠ none := fun hnone => (parsed hb).outside.mp hnone header hmem hheader
  rw [Folds.foldlM_append_of_ok hb, Folds.foldlM_cons_of_error (parseLine_short hshort hcurrent)]

theorem foldlM_short_ne_ok (hshort : ShortKey line) (hheader : ∃ header ∈ before, IsHeader header) :
    (before ++ line :: after).foldlM (Builder.parseLine lower exitMode) .empty ≠ .ok b := by
  intro h
  cases hbefore : before.foldlM (Builder.parseLine lower exitMode) .empty with
  | ok b' => cases (foldlM_short hbefore hshort hheader).symm.trans h
  | error stop => cases (Folds.foldlM_append_of_error hbefore).symm.trans h

theorem parseString_eq {text : DartString} : parseString lower exitMode text =
    ((convert text).foldlM (Builder.parseLine lower exitMode) .empty).map fun b =>
      ⟨b.sectionMap, b.components⟩ := by
  unfold parseString Builder.parse
  cases (convert text).foldlM (Builder.parseLine lower exitMode) .empty <;> rfl

theorem foldlM_error (h : lines.foldlM (Builder.parseLine lower false) .empty = .error stop) :
    ∃ before line after, lines = before ++ line :: after ∧
      ((ShortKey line ∧ (∃ header ∈ before, IsHeader header) ∧ ¬ Duplicated lower before ∧
          stop = .rangeError) ∨
        (Duplicated lower (before ++ [line]) ∧ ∃ message, stop = .stateError message)) := by
  obtain ⟨before, line, after, b, heq, hbefore, hline⟩ := Folds.foldlM_eq_error_iff.mp h
  refine ⟨before, line, after, heq, ?_⟩
  rcases parseLine_error (parsed hbefore) hline with ⟨hshort, hcurrent, hstop⟩ | hdup
  · refine .inl ⟨hshort, ?_, not_duplicated hbefore, hstop⟩
    by_contra hnone
    exact hcurrent ((parsed hbefore).outside.mpr fun l hl hl' => hnone ⟨l, hl, hl'⟩)
  · exact .inr hdup

theorem endsProperly_iff {text : DartString} :
    EndsProperly lower text ↔ ShortKeysUnreached lower (convert text) := by
  rw [EndsProperly, parseString_eq]
  constructor
  · rintro hend before line after heq hshort hheader
    rw [heq] at hend
    cases hbefore : before.foldlM (Builder.parseLine lower false) .empty with
    | ok b =>
      rw [foldlM_short hbefore hshort hheader] at hend
      rcases hend with ⟨config, h⟩ | ⟨message, h⟩ <;> cases h
    | error stop =>
      obtain ⟨first, bad, rest, rfl, hbad⟩ := foldlM_error hbefore
      rcases hbad with ⟨_, _, _, rfl⟩ | ⟨hdup, _⟩
      · rw [Folds.foldlM_append_of_error hbefore] at hend
        rcases hend with ⟨config, h⟩ | ⟨message, h⟩ <;> cases h
      · have happend : Duplicated lower (first ++ [bad] ++ rest) := hdup.append
        rwa [List.append_assoc] at happend
  · intro hunreached
    cases hfold : (convert text).foldlM (Builder.parseLine lower false) .empty with
    | ok b => exact .inl ⟨_, rfl⟩
    | error stop =>
      obtain ⟨before, line, after, heq, hbad⟩ := foldlM_error hfold
      rcases hbad with ⟨hshort, hheader, hnot, _⟩ | ⟨_, message, rfl⟩
      · exact absurd (hunreached before line after heq hshort hheader) hnot
      · exact .inr ⟨message, rfl⟩

end

end ShimService.Cli
