import Mathlib.Data.List.DropRight
import Mathlib.Data.List.Infix
import Mathlib.Data.List.TakeWhile

/-!
Strings of the command line client as lists of UTF-16 code units: what it takes from Dart's
strings, and `splitInTwo`.
-/
namespace ShimService.Cli

abbrev DartString := List UInt16

/-- The code units of a literal. -/
def units (literal : String) : DartString :=
  literal.toList.flatMap fun c =>
    if c.toNat < 0x10000 then [UInt16.ofNat c.toNat]
    else [UInt16.ofNat (0xD800 + (c.toNat - 0x10000) / 0x400),
      UInt16.ofNat (0xDC00 + (c.toNat - 0x10000) % 0x400)]

def lineFeed : UInt16 := 0x0A

def carriageReturn : UInt16 := 0x0D

/-- White space as `trim` has it, with the byte order mark. -/
def isWhitespace (unit : UInt16) : Bool :=
  (0x09 ≤ unit ∧ unit ≤ 0x0D) || unit = 0x20 || unit = 0x85 || unit = 0xA0 || unit = 0x1680 ||
    (0x2000 ≤ unit ∧ unit ≤ 0x200A) || unit = 0x2028 || unit = 0x2029 || unit = 0x202F ||
    unit = 0x205F || unit = 0x3000 || unit = 0xFEFF

def trim (text : DartString) : DartString :=
  (text.dropWhile isWhitespace).rdropWhile isWhitespace

/-- `LineSplitter`: a line feed after a carriage return ends no further line, and the last line
needs no end. `slice` is the line so far. -/
def splitLines (previousCr : Bool) (slice : DartString) : DartString → List DartString
  | [] => if slice = [] then [] else [slice]
  | char :: rest =>
    if char = carriageReturn then slice :: splitLines true [] rest
    else if char = lineFeed then
      if previousCr then splitLines false [] rest else slice :: splitLines false [] rest
    else splitLines false (slice ++ [char]) rest

def convert (text : DartString) : List DartString := splitLines false [] text

/-- `-1` where the code unit does not occur. -/
def indexOf (text : DartString) (unit : UInt16) : ℤ :=
  match text.idxOf? unit with
  | some index => index
  | none => -1

def splitInTwo (text : DartString) (delimiter : UInt16) : List DartString :=
  let index := indexOf text delimiter
  if 1 < index then [trim (text.take index.toNat), trim (text.drop (index.toNat + 1))]
  else [text]

section

variable {text pre post line : DartString} {unit delimiter : UInt16}

theorem dropWhile_eq_self (h : trim text = text) : text.dropWhile isWhitespace = text := by
  have hsuffix : text.dropWhile isWhitespace <:+ text := List.dropWhile_suffix _
  apply hsuffix.eq_of_length
  apply Nat.le_antisymm hsuffix.length_le
  have htrim : (trim text).length ≤ (text.dropWhile isWhitespace).length :=
    (List.rdropWhile_prefix isWhitespace _).length_le
  rwa [h] at htrim

theorem rdropWhile_eq_self (h : trim text = text) : text.rdropWhile isWhitespace = text := by
  have htrim := h
  rwa [trim, dropWhile_eq_self h] at htrim

theorem not_whitespace_head (h : trim (unit :: text) = unit :: text) :
    isWhitespace unit = false := by
  have hhead := List.dropWhile_eq_self_iff.mp (dropWhile_eq_self h) (Nat.succ_pos _)
  simpa using hhead

theorem not_whitespace_last (h : trim (text ++ [unit]) = text ++ [unit]) :
    isWhitespace unit = false := by
  have hlast := List.rdropWhile_eq_self_iff.mp (rdropWhile_eq_self h) (by simp)
  simpa using hlast

theorem trim_eq_self (hhead : ∀ unit, text.head? = some unit → isWhitespace unit = false)
    (hlast : ∀ unit, text.getLast? = some unit → isWhitespace unit = false) :
    trim text = text := by
  have hdrop : text.dropWhile isWhitespace = text := by
    cases text with
    | nil => rfl
    | cons unit text => simp [hhead unit rfl]
  rw [trim, hdrop]
  rcases List.eq_nil_or_concat' text with rfl | ⟨init, unit, rfl⟩
  · rfl
  · have hunit := hlast unit (by simp)
    exact List.rdropWhile_concat_neg _ _ unit (by simp [hunit])

theorem indexOf_append (h : unit ∉ pre) : indexOf (pre ++ unit :: post) unit = pre.length := by
  have hfirst : (pre ++ unit :: post).idxOf? unit = some pre.length := by
    induction pre with
    | nil => simp [List.idxOf?_cons]
    | cons first pre ih =>
      have hne : first ≠ unit := fun heq => h (heq ▸ List.mem_cons_self)
      have hpre := ih (fun hmem => h (List.mem_cons_of_mem first hmem))
      simp [List.idxOf?_cons, hne, hpre]
  rw [indexOf, hfirst]

theorem splitInTwo_append (h : delimiter ∉ pre) :
    splitInTwo (pre ++ delimiter :: post) delimiter =
      if 1 < pre.length then [trim pre, trim post] else [pre ++ delimiter :: post] := by
  have hdrop : (pre ++ delimiter :: post).drop (pre.length + 1) = post := by
    rw [List.drop_append]
    simp
  have hindex : (1 : ℤ) < pre.length ↔ 1 < pre.length := by omega
  simp only [splitInTwo, indexOf_append h, Int.toNat_natCast, List.take_left, hdrop, hindex]

/-- What ends no line is added to the slice. -/
theorem splitLines_append {slice rest : DartString} (hfeed : lineFeed ∉ line)
    (hreturn : carriageReturn ∉ line) :
    splitLines false slice (line ++ rest) = splitLines false (slice ++ line) rest := by
  induction line generalizing slice with
  | nil => simp
  | cons char line ih =>
    rw [List.mem_cons, not_or] at hfeed hreturn
    rw [List.cons_append, splitLines, if_neg (Ne.symm hreturn.1), if_neg (Ne.symm hfeed.1),
      ih hfeed.2 hreturn.2, List.append_assoc, List.singleton_append]

/-- Lines that are each ended by a line feed are found again. -/
theorem convert_lines {lines : List DartString} (hfeed : ∀ line ∈ lines, lineFeed ∉ line)
    (hreturn : ∀ line ∈ lines, carriageReturn ∉ line) :
    convert (lines.flatMap (· ++ [lineFeed])) = lines := by
  rw [convert]
  induction lines with
  | nil => rfl
  | cons line lines ih =>
    have hrest := ih (fun l hl => hfeed l (List.mem_cons_of_mem line hl))
      (fun l hl => hreturn l (List.mem_cons_of_mem line hl))
    rw [List.flatMap_cons, List.append_assoc, splitLines_append (hfeed line List.mem_cons_self)
      (hreturn line List.mem_cons_self), List.nil_append, List.singleton_append, splitLines,
      if_neg (by decide), if_pos rfl, if_neg (by decide), hrest]

end

end ShimService.Cli
