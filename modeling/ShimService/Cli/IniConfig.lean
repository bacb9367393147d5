import Mathlib.Data.Int.Notation
import ShimService.Cli.DartText
import ShimService.Library.OrderedDict

/-!
The configurations of `ini_parser.dart`, their text, and the parser. In the source a map and a
list of components share their sections, and so do they in a section with its options. Here the
map holds the values, and the components refer to them by the key in the map.
-/
namespace ShimService.Cli

def openBracket : UInt16 := 0x5B

def closeBracket : UInt16 := 0x5D

def hash : UInt16 := 0x23

def equals : UInt16 := 0x3D

inductive Stop where
  | exited (code : ℤ) (stderr : DartString)
  | stateError (message : DartString)
  | rangeError
  deriving DecidableEq

def fatal {α : Type} (exitMode : Bool) (message : DartString) : Except Stop α :=
  if exitMode then .error (.exited 2 (message ++ [lineFeed])) else .error (.stateError message)

/-- The text of a `_Comment`. -/
def commentText (text : DartString) : DartString := text ++ [lineFeed]

structure IniOption where
  key : DartString
  value : DartString
  deriving DecidableEq

def IniOption.toText (o : IniOption) : DartString := o.key ++ [equals] ++ o.value ++ [lineFeed]

inductive SectionComponent where
  | comment (text : DartString)
  | option (key : DartString)
  deriving DecidableEq

structure IniSection where
  name : DartString
  components : List SectionComponent
  options : OrderedDict DartString IniOption

inductive ConfigComponent where
  | comment (text : DartString)
  | iniSection (key : DartString)
  deriving DecidableEq

structure IniConfig where
  sectionMap : OrderedDict DartString IniSection
  components : List ConfigComponent

/-! `lower` is `toLowerCase`. -/

variable (lower : DartString → DartString) (exitMode : Bool)

namespace IniSection

def new (name : DartString) : IniSection := ⟨name, [], .empty⟩

def addComment (s : IniSection) (text : DartString) : IniSection :=
  { s with components := s.components ++ [.comment text] }

def addOption (s : IniSection) (name value : DartString) : Except Stop IniSection :=
  let key := lower name
  if key ∈ s.options.keys then
    fatal exitMode
      (units "key '" ++ key ++ units "' is duplicated in " ++ s.name ++ units " section.")
  else
    .ok { s with
      options := s.options.set key ⟨name, value⟩
      components := s.components ++ [.option key] }

/-- With the old value. -/
def set (s : IniSection) (key value : DartString) :
    Except Stop (Option DartString × IniSection) :=
  match s.options.find (lower key) with
  | none => do
    let s ← s.addOption lower exitMode key value
    return (none, s)
  | some o =>
    return (some o.value, { s with options := s.options.set (lower key) { o with value := value } })

/-- `operator []`. -/
def get (s : IniSection) (name : DartString) : Option DartString :=
  (s.options.find (lower name)).map IniOption.value

def componentText (s : IniSection) : SectionComponent → DartString
  | .comment text => commentText text
  | .option key => ((s.options.find key).map IniOption.toText).getD []

def toText (s : IniSection) : DartString :=
  [openBracket] ++ s.name ++ [closeBracket, lineFeed] ++ s.components.flatMap s.componentText

/-- The options in their order. -/
def optionList (s : IniSection) : List IniOption :=
  s.components.filterMap fun
    | .comment _ => none
    | .option key => s.options.find key

end IniSection

namespace IniConfig

/-- `operator []`. -/
def get (config : IniConfig) (key : DartString) : Option IniSection :=
  config.sectionMap.find (lower key)

/-- With the new section. A section that follows another is set off by an empty comment. -/
def addSection (config : IniConfig) (sectionName : DartString) :
    Except Stop (IniSection × IniConfig) :=
  let key := lower sectionName
  if key ∈ config.sectionMap.keys then
    fatal exitMode (units "'" ++ sectionName ++ units "' already exists")
  else
    let s := IniSection.new sectionName
    let components := match config.components.getLast? with
      | some (.iniSection _) => config.components ++ [.comment []]
      | _ => config.components
    .ok (s, ⟨config.sectionMap.set key s, components ++ [.iniSection key]⟩)

/-- With the old value. -/
def set (config : IniConfig) (sectionName optionName value : DartString) :
    Except Stop (Option DartString × IniConfig) := do
  let (s, config) ← match config.get lower sectionName with
    | some s => pure (s, config)
    | none => config.addSection lower exitMode sectionName
  let (oldValue, s) ← s.set lower exitMode optionName value
  return (oldValue, { config with sectionMap := config.sectionMap.set (lower sectionName) s })

def componentText (config : IniConfig) : ConfigComponent → DartString
  | .comment text => commentText text
  | .iniSection key => ((config.sectionMap.find key).map IniSection.toText).getD []

def toText (config : IniConfig) : DartString := config.components.flatMap config.componentText

/-- The sections in their order. -/
def sections (config : IniConfig) : List IniSection :=
  config.components.filterMap fun
    | .comment _ => none
    | .iniSection key => config.sectionMap.find key

end IniConfig

/-- `_Builder`, with the current section and the line number of `parse`. -/
structure Builder where
  sectionMap : OrderedDict DartString IniSection
  components : List ConfigComponent
  current : Option (DartString × IniSection)
  lineNumber : ℕ

namespace Builder

def empty : Builder := ⟨.empty, [], none, 1⟩

/-- A line within a section. `values[1]` is out of range where `splitInTwo` has not split. -/
def parseInSection (s : IniSection) (line : DartString) : Except Stop IniSection :=
  let stripped := trim line
  if stripped.head? = some hash ∨ equals ∉ stripped then .ok (s.addComment line)
  else
    match splitInTwo stripped equals with
    | name :: value :: _ => s.addOption lower exitMode name value
    | _ => .error .rangeError

def parseLine (b : Builder) (line : DartString) : Except Stop Builder :=
  let stripped := trim line
  if stripped.head? = some openBracket ∧ stripped.getLast? = some closeBracket then
    let name := (stripped.drop 1).dropLast
    let key := lower name
    if key ∈ b.sectionMap.keys then
      fatal exitMode (units "Line " ++ units (toString b.lineNumber) ++ units ": " ++ name ++
        units " section is duplicated.")
    else
      let s := IniSection.new name
      .ok ⟨b.sectionMap.set key s, b.components ++ [.iniSection key], some (key, s),
        b.lineNumber + 1⟩
  else
    match b.current with
    | some (key, s) => do
      let s ← parseInSection lower exitMode s line
      return ⟨b.sectionMap.set key s, b.components, some (key, s), b.lineNumber + 1⟩
    | none => .ok { b with components := b.components ++ [.comment line],
                           lineNumber := b.lineNumber + 1 }

def parse (text : DartString) : Except Stop Builder :=
  (convert text).foldlM (parseLine lower exitMode) empty

end Builder

def parseString (text : DartString) : Except Stop IniConfig := do
  let b ← Builder.parse lower exitMode text
  return ⟨b.sectionMap, b.components⟩

def createNew : Except Stop IniConfig := parseString lower exitMode []

end ShimService.Cli
