import ShimService.Auth.Signing
import ShimService.Session.Store

/-!
The channels of a session, from the request that names them to the stored item and back. The
request may spell a channel in any case; the item has one attribute for each name.
-/
namespace ShimService

open Auth (LambdaHttpException badRequestException)

/-- `name.lower()`. No letter outside ASCII becomes a letter of a channel, so those stay. -/
def lower (name : String) : String := String.ofList (name.toList.map Char.toLower)

/-- The names come from `_CHANNELS`, which has every channel under its lower-case name. -/
def getPlatformChannel (name : String) : Except LambdaHttpException String :=
  if lower name ∈ channels then .ok (lower name)
  else .error (badRequestException ("Channel type '" ++ name ++ "' is invalid. Must be one of " ++
    String.intercalate ", " channels ++ "."))

def assertValidPlatformChannel (name : String) : Except LambdaHttpException Bool := do
  let _ ← getPlatformChannel name
  return true

/-- `filter` over the set, with what the predicate raises. -/
def filterSet (predicate : String → Except LambdaHttpException Bool) :
    List String → Except LambdaHttpException (List String)
  | [] => .ok []
  | name :: names => do
    let keep ← predicate name
    let rest ← filterSet predicate names
    return if keep then name :: rest else rest

/-- `thisSet` is the order in which the set of the source's names is iterated. -/
def extractPlatformChannelTypes (source thisSet : List String) :
    Except LambdaHttpException (List String) :=
  if source.length = 0 then .error (badRequestException "Need at least one channelPlatformType.")
  else filterSet assertValidPlatformChannel thisSet

/-- An order of the set of some names. -/
structure SetOrder (source thisSet : List String) : Prop where
  nodup : thisSet.Nodup
  mem_iff : ∀ name, name ∈ thisSet ↔ name ∈ source

variable {name : String} {source thisSet names : List String} {session : Session}

theorem lower_channel : ∀ channel ∈ channels, lower channel = channel := by decide

theorem filterSet_eq_ok (h : filterSet assertValidPlatformChannel thisSet = .ok names) :
    names = thisSet ∧ ∀ name ∈ thisSet, lower name ∈ channels := by
  induction thisSet generalizing names with
  | nil =>
    cases h
    exact ⟨rfl, by simp⟩
  | cons name thisSet ih =>
    by_cases hname : lower name ∈ channels
    · cases hrest : filterSet assertValidPlatformChannel thisSet with
      | error ex =>
        simp [filterSet, assertValidPlatformChannel, getPlatformChannel, hname, hrest, bind,
          Except.bind, pure, Except.pure] at h
      | ok rest =>
        obtain ⟨rfl, hvalid⟩ := ih hrest
        simp only [filterSet, assertValidPlatformChannel, getPlatformChannel, hname, hrest, bind,
          Except.bind, pure, Except.pure, if_true, Except.ok.injEq] at h
        refine ⟨h.symm, ?_⟩
        simpa using ⟨hname, hvalid⟩
    · simp [filterSet, assertValidPlatformChannel, getPlatformChannel, hname, bind,
        Except.bind] at h

/-- The names are accepted as they are spelled, each of them once. -/
theorem extract_eq_ok (hset : SetOrder source thisSet)
    (h : extractPlatformChannelTypes source thisSet = .ok names) :
    (∀ name, name ∈ names ↔ name ∈ source) ∧ ∀ name ∈ source, lower name ∈ channels := by
  unfold extractPlatformChannelTypes at h
  split at h
  · cases h
  · obtain ⟨rfl, hvalid⟩ := filterSet_eq_ok h
    exact ⟨hset.mem_iff, fun name hname => hvalid name ((hset.mem_iff name).mpr hname)⟩

/-- The item keeps the names as they are; those that are read back are the lower-case ones. -/
theorem fromRecord_toRecord (now : ℕ) (session : Session) :
    Session.fromRecord now session.key session.toRecord = some { session with
      timeCreated := timeOr session.timeCreated now
      channelPlatformTypes := channels.filter session.channelPlatformTypes.contains
      updateTime := timeOr session.updateTime (timeOr session.timeCreated now) } := rfl

/-- The channels asked for are the channels of the session that is read back, and both the session
and that one poll when they should. -/
structure ChannelsSurvive (source : List String) (session : Session) : Prop where
  readBack : ∀ now, ∃ back, Session.fromRecord now session.key session.toRecord = some back ∧
    (∀ channel, channel ∈ back.channelPlatformTypes ↔ channel ∈ source.map lower) ∧
    (back.hasLiveAgentPolling = true ↔ "omni" ∈ source.map lower)
  created : session.hasLiveAgentPolling = true ↔ "omni" ∈ source.map lower

theorem channels_survive_iff (source thisSet : List String) (session : Session)
    (hset : SetOrder source thisSet)
    (hsession : extractPlatformChannelTypes source thisSet = .ok session.channelPlatformTypes) :
    ChannelsSurvive source session ↔ ∀ name ∈ source, lower name ∈ source := by
  obtain ⟨hmem, hvalid⟩ := extract_eq_ok hset hsession
  have hback : ∀ channel, channel ∈ channels.filter session.channelPlatformTypes.contains ↔
      channel ∈ channels ∧ channel ∈ source := by
    intro channel
    rw [List.mem_filter, List.contains_iff_mem, hmem]
  have homni : "omni" ∈ channels := by decide
  constructor
  · intro h name hname
    obtain ⟨back, hread, hchannels, -⟩ := h.readBack 0
    rw [fromRecord_toRecord] at hread
    cases hread
    exact ((hback _).mp ((hchannels _).mpr (List.mem_map_of_mem hname))).2
  · intro h
    have hlower : ∀ channel, channel ∈ channels ∧ channel ∈ source ↔
        channel ∈ source.map lower := by
      intro channel
      constructor
      · rintro ⟨hchannel, hsource⟩
        exact List.mem_map.mpr ⟨channel, hsource, lower_channel channel hchannel⟩
      · intro hmapped
        obtain ⟨name, hname, rfl⟩ := List.mem_map.mp hmapped
        exact ⟨hvalid name hname, h name hname⟩
    refine ⟨fun now => ⟨_, fromRecord_toRecord now session, fun channel => ?_, ?_⟩, ?_⟩
    · exact (hback channel).trans (hlower channel)
    · rw [← hlower, ← hback]
      exact List.contains_iff_mem
    · rw [← hlower]
      simp [Session.hasLiveAgentPolling, hmem, homni]

/-- A new session for some names. -/
def sessionFor (names : List String) : Session :=
  { sampleSession "s" with channelPlatformTypes := names }

theorem channels_survive_mixed :
    ChannelsSurvive ["OMNI", "omni", "OMNI"] (sessionFor ["omni", "OMNI"]) :=
  (channels_survive_iff ["OMNI", "omni", "OMNI"] ["omni", "OMNI"] (sessionFor ["omni", "OMNI"])
    ⟨by decide, fun name => by simp [or_comm]⟩ rfl).mpr (by decide)

/-- An accepted spelling that nothing recognizes afterwards. -/
theorem capital_channel_is_lost : SetOrder ["Omni"] ["Omni"] ∧
    extractPlatformChannelTypes ["Omni"] ["Omni"] =
      .ok (sessionFor ["Omni"]).channelPlatformTypes ∧
    ¬ ChannelsSurvive ["Omni"] (sessionFor ["Omni"]) := by
  refine ⟨⟨by decide, fun name => Iff.rfl⟩, rfl, fun h => ?_⟩
  have homni : "omni" ∈ ["Omni"].map lower := by decide
  exact absurd (h.created.mpr homni) (by decide)

end ShimService
