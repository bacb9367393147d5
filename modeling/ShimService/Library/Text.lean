import Mathlib.Data.List.Basic
import Mathlib.Data.List.TakeWhile

/-!
Strings as sequences of characters: padding to a size, fields joined by a delimiter, and decimal
numerals that may be padded with zeros.
-/
namespace Text

variable {s t : String} {c d : Char} {n m : ℕ} {fields : List String} {cs : List Char}

/-- Pads on the right up to a size; a string that is long enough stays as it is. -/
def ljust (s : String) (size : ℕ) (c : Char) : String :=
  s ++ String.ofList (List.replicate (size - s.length) c)

/-- Pads on the left. -/
def rjust (s : String) (size : ℕ) (c : Char) : String :=
  String.ofList (List.replicate (size - s.length) c) ++ s

/-- The string up to the first occurrence of a character, or all of it. -/
def upTo (c : Char) (s : String) : String := String.ofList (s.toList.takeWhile (· ≠ c))

def join (d : Char) (fields : List String) : String :=
  String.ofList (List.intercalate [d] (fields.map String.toList))

def split (d : Char) (s : String) : List String := (s.toList.splitOn d).map String.ofList

/-- Splits at the first `n` delimiters only. -/
def splitFirst (d : Char) : ℕ → List Char → List (List Char)
  | 0, cs => [cs]
  | n + 1, cs =>
    match cs.dropWhile (· ≠ d) with
    | [] => [cs]
    | _ :: rest => cs.takeWhile (· ≠ d) :: splitFirst d n rest

def splitMax (d : Char) (n : ℕ) (s : String) : List String :=
  (splitFirst d n s.toList).map String.ofList

/-- Decimal digits, in groups that single underscores separate. -/
def parseNat (cs : List Char) : Option ℕ :=
  let groups := cs.splitOn '_'
  if groups.all fun group => group ≠ [] && group.all Char.isDigit then
    some (Nat.ofDigitChars 10 groups.flatten 0)
  else none

/-- The characters without the blanks at both ends. -/
def strip (cs : List Char) : List Char :=
  ((cs.dropWhile Char.isWhitespace).reverse.dropWhile Char.isWhitespace).reverse

/-- A numeral with an optional sign, between blanks. -/
def parseInt (s : String) : Option ℤ :=
  match strip s.toList with
  | '-' :: digits => (parseNat digits).map fun n : ℕ => -(n : ℤ)
  | '+' :: digits => (parseNat digits).map fun n : ℕ => (n : ℤ)
  | digits => (parseNat digits).map fun n : ℕ => (n : ℤ)

@[simp] theorem length_ljust : (ljust s n c).length = max s.length n := by
  simp only [ljust, String.length_append, String.length_ofList, List.length_replicate]
  omega

@[simp] theorem length_rjust : (rjust s n c).length = max s.length n := by
  simp only [rjust, String.length_append, String.length_ofList, List.length_replicate]
  omega

theorem ljust_of_le (h : n ≤ s.length) : ljust s n c = s := by
  simp [ljust, Nat.sub_eq_zero_of_le h]

theorem rjust_of_le (h : n ≤ s.length) : rjust s n c = s := by
  simp [rjust, Nat.sub_eq_zero_of_le h]

@[simp] theorem ljust_ljust : ljust (ljust s n c) n c = ljust s n c :=
  ljust_of_le (by rw [length_ljust]; exact Nat.le_max_right _ _)

@[simp] theorem rjust_rjust : rjust (rjust s n c) n c = rjust s n c :=
  rjust_of_le (by rw [length_rjust]; exact Nat.le_max_right _ _)

theorem toList_ljust : (ljust s n c).toList = s.toList ++ List.replicate (n - s.length) c := by
  simp [ljust]

theorem toList_rjust : (rjust s n c).toList = List.replicate (n - s.length) c ++ s.toList := by
  simp [rjust]

theorem not_mem_ljust (hs : d ∉ s.toList) (hc : d ≠ c) : d ∉ (ljust s n c).toList := by
  rw [toList_ljust, List.mem_append]
  rintro (h | h)
  · exact hs h
  · exact hc (List.eq_of_mem_replicate h)

theorem not_mem_rjust (hs : d ∉ s.toList) (hc : d ≠ c) : d ∉ (rjust s n c).toList := by
  rw [toList_rjust, List.mem_append]
  rintro (h | h)
  · exact hc (List.eq_of_mem_replicate h)
  · exact hs h

/-- Padding with a character that the string is free of can be taken off. -/
theorem upTo_ljust (h : c ∉ s.toList) : upTo c (ljust s n c) = s := by
  have hall : ∀ a ∈ s.toList, decide (a ≠ c) = true := by
    intro a ha
    simp only [decide_eq_true_eq]
    rintro rfl
    exact h ha
  have hpad : (List.replicate (n - s.length) c).takeWhile (fun a => decide (a ≠ c)) = [] := by
    cases n - s.length <;> simp [List.replicate_succ]
  rw [upTo, toList_ljust, List.takeWhile_append_of_pos hall, hpad, List.append_nil,
    String.ofList_toList]

theorem upTo_of_not_mem (h : c ∉ s.toList) : upTo c s = s := by
  have h0 := upTo_ljust (n := 0) h
  rwa [ljust_of_le (Nat.zero_le _)] at h0

theorem split_join (h : ∀ field ∈ fields, d ∉ field.toList) (hne : fields ≠ []) :
    split d (join d fields) = fields := by
  have hlists : ∀ l ∈ fields.map String.toList, d ∉ l := by
    intro l hl
    obtain ⟨field, hfield, rfl⟩ := List.mem_map.mp hl
    exact h field hfield
  rw [split, join, String.toList_ofList, List.splitOn_intercalate d hlists (by simpa using hne),
    List.map_map]
  simp [Function.comp_def]

theorem join_injective {fields' : List String} (h : ∀ field ∈ fields, d ∉ field.toList)
    (h' : ∀ field ∈ fields', d ∉ field.toList) (hne : fields ≠ []) (hne' : fields' ≠ [])
    (heq : join d fields = join d fields') : fields = fields' := by
  rw [← split_join h hne, heq, split_join h' hne']

@[simp] theorem join_singleton : join d [s] = s := by simp [join, List.intercalate]

@[simp] theorem toList_join_cons : (join d (s :: t :: fields)).toList =
    s.toList ++ d :: (join d (t :: fields)).toList := by
  simp [join, List.intercalate]

theorem not_mem_join (h : ∀ field ∈ fields, c ∉ field.toList) (hcd : c ≠ d) :
    c ∉ (join d fields).toList := by
  induction fields with
  | nil => simp [join, List.intercalate]
  | cons field fields ih =>
    have hfield := h field List.mem_cons_self
    have hrest := ih fun f hf => h f (List.mem_cons_of_mem _ hf)
    cases fields with
    | nil => simpa using hfield
    | cons next fields =>
      rw [toList_join_cons, List.mem_append, List.mem_cons]
      rintro (hmem | rfl | hmem)
      · exact hfield hmem
      · exact hcd rfl
      · exact hrest hmem

/-- A delimiter-free first field splits off, whatever the other fields are. -/
theorem split_join_cons {field : String} (h : d ∉ field.toList) :
    split d (join d (field :: s :: fields)) = field :: split d (join d (s :: fields)) := by
  rw [split, toList_join_cons, List.splitOn_append_cons_self_of_not_mem h, List.map_cons,
    String.ofList_toList]
  rfl

theorem not_mem_splitOn {piece : List Char} (h : piece ∈ cs.splitOn d) : d ∉ piece := by
  induction cs generalizing piece with
  | nil =>
    obtain rfl : piece = [] := by simpa using h
    exact List.not_mem_nil
  | cons c cs ih =>
    obtain ⟨first, rest, hsplit⟩ := List.exists_cons_of_ne_nil (List.splitOn_ne_nil d cs)
    rw [hsplit] at ih
    rw [List.splitOn_cons_eq_if_modifyHead, hsplit] at h
    split at h
    · rcases List.mem_cons.mp h with rfl | h
      · exact List.not_mem_nil
      · exact ih h
    · rename_i hc
      rcases List.mem_cons.mp h with rfl | h
      · rw [List.mem_cons, not_or]
        exact ⟨fun heq => hc (by simp [heq]), ih List.mem_cons_self⟩
      · exact ih (List.mem_cons_of_mem _ h)

/-- A split leaves no delimiter. -/
theorem not_mem_of_mem_split {field : String} (h : field ∈ split d s) : d ∉ field.toList := by
  obtain ⟨piece, hpiece, rfl⟩ := List.mem_map.mp h
  rw [String.toList_ofList]
  exact not_mem_splitOn hpiece

theorem length_split : (split d s).length = s.toList.count d + 1 := by
  rw [split, List.length_map]
  induction s.toList with
  | nil => rfl
  | cons c cs ih =>
    by_cases hc : c = d
    · subst hc
      have hsplit := List.splitOn_append_cons_self (a := c) [] cs
      rw [List.nil_append] at hsplit
      rw [hsplit, List.length_append, ih, List.count_cons_self]
      simp only [List.splitOn_nil, List.length_singleton]
      omega
    · rw [List.splitOn_cons_eq_if_modifyHead, if_neg (by simpa using hc), List.length_modifyHead,
        ih, List.count_cons_of_ne hc]

/-- A delimiter-free first field can be told from the joined string. -/
theorem upTo_join {field : String} (h : d ∉ field.toList) :
    upTo d (join d (field :: fields)) = field := by
  cases fields with
  | nil => rw [join_singleton, upTo_of_not_mem h]
  | cons field' fields =>
    have hall : ∀ a ∈ field.toList, decide (a ≠ d) = true := by
      intro a ha
      simp only [decide_eq_true_eq]
      rintro rfl
      exact h ha
    rw [upTo, toList_join_cons, List.takeWhile_append_of_pos hall]
    simp

theorem splitFirst_append {pre rest : List Char} (h : d ∉ pre) :
    splitFirst d (n + 1) (pre ++ d :: rest) = pre :: splitFirst d n rest := by
  have hall : ∀ a ∈ pre, decide (a ≠ d) = true := by
    intro a ha
    simp only [decide_eq_true_eq]
    rintro rfl
    exact h ha
  have hdrop : (pre ++ d :: rest).dropWhile (fun a => decide (a ≠ d)) = d :: rest := by
    rw [List.dropWhile_append_of_pos hall]
    simp
  have htake : (pre ++ d :: rest).takeWhile (fun a => decide (a ≠ d)) = pre := by
    rw [List.takeWhile_append_of_pos hall]
    simp
  rw [splitFirst, hdrop, htake]

theorem splitFirst_of_not_mem (h : d ∉ cs) : splitFirst d n cs = [cs] := by
  cases n with
  | zero => rfl
  | succ n =>
    have hdrop : cs.dropWhile (fun a => decide (a ≠ d)) = [] := by
      refine List.dropWhile_eq_nil_iff.mpr fun a ha => ?_
      simp only [decide_eq_true_eq]
      rintro rfl
      exact h ha
    rw [splitFirst, hdrop]

/-- Fields free of the delimiter split again, when as many splits are allowed. -/
theorem splitMax_join (h : ∀ field ∈ fields, d ∉ field.toList) (hne : fields ≠ [])
    (hn : fields.length ≤ n + 1) : splitMax d n (join d fields) = fields := by
  have hlists : splitFirst d n (join d fields).toList = fields.map String.toList := by
    induction fields generalizing n with
    | nil => exact absurd rfl hne
    | cons field fields ih =>
      have hfield := h field List.mem_cons_self
      cases fields with
      | nil => rw [join_singleton, splitFirst_of_not_mem hfield, List.map_singleton]
      | cons field' fields =>
        obtain ⟨n, rfl⟩ : ∃ k, n = k + 1 :=
          Nat.exists_eq_succ_of_ne_zero (by simp at hn; omega)
        have htail := ih (n := n) (fun g hg => h g (List.mem_cons_of_mem _ hg)) (by simp)
          (by simpa using hn)
        rw [toList_join_cons, splitFirst_append hfield, htail]
        rfl
  rw [splitMax, hlists, List.map_map]
  simp [Function.comp_def]

theorem not_isWhitespace (h : c.isDigit = true) : c.isWhitespace = false := by
  simp only [Char.isDigit, Bool.and_eq_true, decide_eq_true_eq] at h
  simp only [Char.isWhitespace, Bool.or_eq_false_iff, decide_eq_false_iff_not]
  refine ⟨⟨⟨?_, ?_⟩, ?_⟩, ?_⟩ <;> rintro rfl <;> exact absurd h (by decide)

theorem dropWhile_digit {rest : List Char} (h : c.isWhitespace = false) :
    (c :: rest).dropWhile Char.isWhitespace = c :: rest :=
  List.dropWhile_cons_of_neg (by simp [h])

/-- A string that neither starts nor ends in a blank is stripped of nothing. -/
theorem strip_eq (hhead : ∀ c, cs.head? = some c → c.isWhitespace = false)
    (hlast : ∀ c, cs.getLast? = some c → c.isWhitespace = false) : strip cs = cs := by
  have hdrop : ∀ l : List Char, (∀ c, l.head? = some c → c.isWhitespace = false) →
      l.dropWhile Char.isWhitespace = l := by
    intro l hl
    cases l with
    | nil => rfl
    | cons c l => exact dropWhile_digit (hl c rfl)
  rw [strip, hdrop cs hhead, hdrop cs.reverse (by simpa using hlast), List.reverse_reverse]

theorem parseNat_digits (h : ∀ c ∈ cs, c.isDigit = true) (hne : cs ≠ []) :
    parseNat cs = some (Nat.ofDigitChars 10 cs 0) := by
  have hgroups : cs.splitOn '_' = [cs] := by
    have hfree : ∀ l ∈ [cs], '_' ∉ l := by
      intro l hl hmem
      obtain rfl := List.mem_singleton.mp hl
      exact absurd (h '_' hmem) (by decide)
    simpa using List.splitOn_intercalate '_' hfree (by simp)
  simp only [parseNat, hgroups, List.all_cons, List.all_nil, Bool.and_true, List.flatten_cons,
    List.flatten_nil, List.append_nil]
  rw [if_pos]
  simpa [hne] using h

theorem parseInt_digits (h : ∀ c ∈ cs, c.isDigit = true) (hne : cs ≠ []) :
    parseInt (String.ofList cs) = some ((Nat.ofDigitChars 10 cs 0 : ℕ) : ℤ) := by
  have hstrip : strip cs = cs := strip_eq
    (fun c hc => not_isWhitespace (h c (List.mem_of_mem_head? hc)))
    (fun c hc => not_isWhitespace (h c (List.mem_of_getLast? hc)))
  have hnat := parseNat_digits h hne
  rw [parseInt, String.toList_ofList, hstrip]
  split
  · exact absurd (h '-' List.mem_cons_self) (by decide)
  · exact absurd (h '+' List.mem_cons_self) (by decide)
  · rw [hnat, Option.map_some]

theorem not_mem_toString_int {a : Char} (z : ℤ) (hsign : a ≠ '-') (hdigit : a.isDigit = false) :
    a ∉ (toString z).toList := by
  rw [Int.toString_eq_repr, Int.repr_eq_if]
  have hnat : ∀ k : ℕ, a ∉ Nat.toDigits 10 k := by
    intro k hmem
    exact absurd (Nat.isDigit_of_mem_toDigits (by omega) (by omega) hmem) (by simp [hdigit])
  split
  · rw [Nat.toList_repr]
    exact hnat _
  · simp [Nat.toList_repr, hnat, hsign]

theorem isDigit_toString {a : Char} (h : a ∈ (toString n).toList) : a.isDigit = true := by
  rw [Nat.toString_eq_repr, Nat.toList_repr] at h
  exact Nat.isDigit_of_mem_toDigits (by omega) (by omega) h

/-- A numeral padded with zeros still reads as its number. -/
theorem parseInt_rjust : parseInt (rjust (toString n) m '0') = some (n : ℤ) := by
  have hlist : rjust (toString n) m '0' =
      String.ofList (List.replicate (m - (toString n).length) '0' ++ Nat.toDigits 10 n) := by
    rw [rjust, String.ofList_append, Nat.toString_eq_repr, Nat.repr_eq_ofList_toDigits]
  rw [hlist, parseInt_digits]
  · rw [Nat.ofDigitChars_append, Nat.ofDigitChars_replicate_zero, Nat.mul_zero,
      Nat.ofDigitChars_ten_toDigits]
  · intro a ha
    rcases List.mem_append.mp ha with hzero | hdigit
    · rw [List.eq_of_mem_replicate hzero]
      rfl
    · exact Nat.isDigit_of_mem_toDigits (by omega) (by omega) hdigit
  · simp [Nat.toDigits_ne_nil]

theorem parseInt_toString_nat : parseInt (toString n) = some (n : ℤ) := by
  have h := parseInt_rjust (n := n) (m := 0)
  rwa [rjust_of_le (Nat.zero_le _)] at h

theorem parseInt_toString (z : ℤ) : parseInt (toString z) = some z := by
  rw [Int.toString_eq_repr, Int.repr_eq_if]
  split
  · rename_i hz
    have h := parseInt_toString_nat (n := z.toNat)
    rw [Nat.toString_eq_repr] at h
    rw [h, Int.toNat_of_nonneg hz]
  · rename_i hz
    have hdigits : ∀ a ∈ Nat.toDigits 10 (-z).toNat, a.isDigit = true :=
      fun a ha => Nat.isDigit_of_mem_toDigits (by omega) (by omega) ha
    have hlist : ("-" ++ (-z).toNat.repr).toList = '-' :: Nat.toDigits 10 (-z).toNat := by
      simp [Nat.toList_repr]
    have hstrip : strip ('-' :: Nat.toDigits 10 (-z).toNat) =
        '-' :: Nat.toDigits 10 (-z).toNat := by
      apply strip_eq
      · intro a ha
        obtain rfl : '-' = a := by simpa using ha
        rfl
      · intro a ha
        rw [List.getLast?_cons_of_ne_nil Nat.toDigits_ne_nil] at ha
        exact not_isWhitespace (hdigits a (List.mem_of_getLast? ha))
    rw [parseInt, hlist, hstrip]
    simp only [parseNat_digits hdigits Nat.toDigits_ne_nil, Nat.ofDigitChars_ten_toDigits,
      Option.map_some, Option.some.injEq]
    omega

theorem fromUTF8_toUTF8 (s : String) : String.fromUTF8? s.toUTF8 = some s := by
  have hvalid : s.toUTF8.IsValidUTF8 := s.isValidUTF8
  rw [String.fromUTF8?, dif_pos hvalid]
  rfl

end Text
