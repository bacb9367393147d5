import ShimService.Library.OrderedDict
import ShimService.Library.Percent

/-! Paths of requests, the templates that they are matched against, and the joining of segments. -/
namespace ShimService.Web

def splitPath (path : String) : List String :=
  (Text.split '/' path).filter fun part => 0 < part.length

def encodeForUrl (text : String) : String := Percent.quote text

/-- `replace` says what is read instead of malformed UTF-8. -/
def decodeFromUrl (replace : List UInt8 → String) (text : String) : String :=
  Percent.unquote replace text

inductive PathError where
  | valueError (message : String)
  | keyError (index : ℕ)
  deriving DecidableEq

/-- A template: its parts, with a `?` for a variable, and the places of the variables. -/
structure Path where
  path : String
  parts : List String := []
  partNames : OrderedDict String ℕ := .empty
  partIndices : OrderedDict ℕ String := .empty

namespace Path

/-- `p.startswith("{") and p.endswith("}")`. -/
def isVariable (p : String) : Bool := p.toList.head? = some '{' && p.toList.getLast? = some '}'

/-- `p[1:len(p) - 1:]`. -/
def varName (p : String) : String := String.ofList p.toList.tail.dropLast

/-- The loop of the constructor, from an index on. -/
def addParts (self : Path) (index : ℕ) : List String → Except PathError Path
  | [] => .ok self
  | p :: parts =>
    if isVariable p then
      if varName p ∈ self.partNames.keys then
        .error (.valueError
          ("Duplicate path variable name " ++ varName p ++ " in " ++ self.path))
      else
        addParts { self with
          partNames := self.partNames.set (varName p) index
          partIndices := self.partIndices.set index (varName p)
          parts := self.parts ++ ["?"] } (index + 1) parts
    else addParts { self with parts := self.parts ++ [p] } (index + 1) parts

def init (path : String) : Except PathError Path :=
  addParts { path } 0 (splitPath path)

/-- The loop over the parts of the template and those of a path. -/
def matchParts (self : Path) (replace : List UInt8 → String) (i : ℕ) :
    List (String × String) → OrderedDict String String →
      Except PathError (Option (OrderedDict String String))
  | [], found => .ok (some found)
  | (ourPart, thatPart) :: parts, found =>
    if ourPart = "?" then
      match self.partIndices.find i with
      | none => .error (.keyError i)
      | some name =>
        matchParts self replace (i + 1) parts (found.set name (decodeFromUrl replace thatPart))
    else if ourPart ≠ thatPart then .ok none
    else matchParts self replace (i + 1) parts found

/-- The caller may have split the path already. -/
def matchesPath (self : Path) (replace : List UInt8 → String) (path : String)
    (parts : Option (List String)) : Except PathError (Option (OrderedDict String String)) :=
  if self.partNames.size = 0 ∧ self.path = path then .ok (some .empty)
  else
    let parts := parts.getD (splitPath path)
    if parts.length ≠ self.parts.length then .ok none
    else self.matchParts replace 0 (self.parts.zip parts) .empty

end Path

/-- `path.replace("//", "/")`: one pass from the left. -/
def replaceDouble : List Char → List Char
  | '/' :: '/' :: rest => '/' :: replaceDouble rest
  | c :: rest => c :: replaceDouble rest
  | [] => []

/-- One turn of the loop of `join_paths`. -/
def joinArg (path arg : List Char) : List Char :=
  if 0 < path.length ∧ path.getLast? ≠ some '/' ∧ arg.head? ≠ some '/' then path ++ '/' :: arg
  else path ++ arg

def joinPaths (args : List String) (allowTrailingSlash : Bool) : String :=
  let path := replaceDouble ((args.map String.toList).foldl joinArg [])
  if !allowTrailingSlash && path.getLast? = some '/' then String.ofList path.dropLast
  else String.ofList path

def joinBasePath (args : List String) : String :=
  let path := (joinPaths args false).toList
  let path := if path.getLast? ≠ some '/' then path ++ ['/'] else path
  String.ofList (replaceDouble path)

end ShimService.Web
