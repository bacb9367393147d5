import Mathlib.Data.List.Basic
import ShimService.Library.Text

/-!
The expressions of DynamoDB over the attributes of an item. This is the fragment of conjunctions
of tests, assignments and projections, with keywords in capitals, attributes named in the text
and values by placeholders.
-/
namespace Expression

inductive Token
  | word (s : String)
  | bind (s : String)
  | symbol (c : Char)
  deriving DecidableEq

def isWordChar (c : Char) : Bool := c.isAlphanum || c = '_'

def isSymbol (c : Char) : Bool := c = '=' || c = ',' || c = '(' || c = ')'

def startsWord : List Char → Bool
  | [] => false
  | c :: _ => isWordChar c

/-- A character of a word, before a text that starts inside the same word or outside of it. -/
def extendWord (c : Char) : Bool → List Token → List Token
  | true, .word s :: tokens => .word (String.ofList (c :: s.toList)) :: tokens
  | _, tokens => .word (String.ofList [c]) :: tokens

/-- A colon makes the word right after it a placeholder. -/
def bindWord : Bool → List Token → Option (List Token)
  | true, .word s :: tokens => some (.bind (String.ofList (':' :: s.toList)) :: tokens)
  | _, _ => none

def push (c : Char) (glued : Bool) (tokens : List Token) : Option (List Token) :=
  if c = ' ' then some tokens
  else if isSymbol c then some (.symbol c :: tokens)
  else if isWordChar c then some (extendWord c glued tokens)
  else if c = ':' then bindWord glued tokens
  else none

def lex : List Char → Option (List Token)
  | [] => some []
  | c :: cs => (lex cs).bind (push c (startsWord cs))

def lower (s : String) : String := String.ofList (s.toList.map Char.toLower)

def keywords : List String := ["and", "set"]

/-- The words that may name an attribute, where `reserved` holds the words that may not. -/
def nameable (reserved : List String) (s : String) : Bool :=
  s.toList.head?.any Char.isAlpha && lower s ∉ keywords ++ reserved

/-- The strings that an expression reads as the name of an attribute. -/
def IsName (reserved : List String) (s : String) : Prop :=
  s.toList.all isWordChar ∧ nameable reserved s

instance (reserved : List String) (s : String) : Decidable (IsName reserved s) :=
  inferInstanceAs (Decidable (_ ∧ _))

/-- A test of one attribute; an operand is a placeholder at first, then the value bound to it. -/
inductive Test (β : Type*)
  | attributeExists (name : String)
  | equals (name : String) (operand : β)
  deriving DecidableEq

variable (reserved : List String)

def parseTest : List Token → Option (Test String)
  | [.word f, .symbol '(', .word name, .symbol ')'] =>
    if f = "attribute_exists" ∧ nameable reserved name then some (.attributeExists name) else none
  | [.word name, .symbol '=', .bind b] =>
    if nameable reserved name then some (.equals name b) else none
  | _ => none

def parseCondition (s : String) : Option (List (Test String)) :=
  (lex s.toList).bind fun tokens => (tokens.splitOn (.word "AND")).mapM (parseTest reserved)

def parseAssignment : List Token → Option (String × String)
  | [.word name, .symbol '=', .bind b] => if nameable reserved name then some (name, b) else none
  | _ => none

def parseUpdate (s : String) : Option (List (String × String)) :=
  (lex s.toList).bind fun tokens =>
    match tokens with
    | .word keyword :: tokens =>
      if keyword = "SET" then (tokens.splitOn (.symbol ',')).mapM (parseAssignment reserved)
      else none
    | _ => none

def parseName : List Token → Option String
  | [.word name] => if nameable reserved name then some name else none
  | _ => none

def parseProjection (s : String) : Option (List String) :=
  (lex s.toList).bind fun tokens => (tokens.splitOn (.symbol ',')).mapM (parseName reserved)

/-- What stands for a value: a colon and a word. -/
def IsPlaceholder (b : String) : Prop :=
  ∃ w : List Char, w ≠ [] ∧ (∀ c ∈ w, isWordChar c = true) ∧ b.toList = ':' :: w

def Token.placeholder? : Token → Option String
  | .bind b => some b
  | _ => none

/-- The placeholders of an expression, each as often as it occurs. -/
def placeholders (s : String) : List String :=
  ((lex s.toList).getD []).filterMap Token.placeholder?

def Test.name {β : Type*} : Test β → String
  | .attributeExists name => name
  | .equals name _ => name

def Test.tokens : Test String → List Token
  | .attributeExists name => [.word "attribute_exists", .symbol '(', .word name, .symbol ')']
  | .equals name b => [.word name, .symbol '=', .bind b]

def Test.operands {β : Type*} : Test β → List β
  | .attributeExists _ => []
  | .equals _ b => [b]

def assignmentTokens (assignment : String × String) : List Token :=
  [.word assignment.1, .symbol '=', .bind assignment.2]

/-- What the text of a conjunction is read as. The empty text is not an expression, and it stands
for no tests. -/
def Conjunction (s : String) (tests : List (Test String)) : Prop :=
  (s = "" ∧ tests = []) ∨ (s ≠ "" ∧ tests ≠ [] ∧
    lex s.toList = some ([Token.word "AND"].intercalate (tests.map Test.tokens)))

/-- What the text of an update is read as. -/
def Assignments (s : String) (assignments : List (String × String)) : Prop :=
  assignments ≠ [] ∧ lex s.toList =
    some (.word "SET" :: [Token.symbol ','].intercalate (assignments.map assignmentTokens))

variable {reserved} {c : Char} {w cs cs' : List Char} {tokens tokens' : List Token}
  {s name b : String} {test : Test String} {tests : List (Test String)}
  {assignments : List (String × String)}

theorem IsName.nameable (h : IsName reserved s) : nameable reserved s = true := h.2

theorem IsName.wordChars (h : IsName reserved s) : ∀ c ∈ s.toList, isWordChar c = true :=
  List.all_eq_true.mp h.1

theorem IsName.ne_nil (h : IsName reserved s) : s.toList ≠ [] := by
  intro hnil
  have hn := h.nameable
  simp [Expression.nameable, hnil] at hn

theorem IsName.ne_and (h : IsName reserved s) : s ≠ "AND" := by
  rintro rfl
  have hn := h.nameable
  simp [Expression.nameable, keywords, lower] at hn

theorem wordChar_ne_space (h : isWordChar c = true) : c ≠ ' ' := by
  rintro rfl
  exact absurd h (by decide)

theorem wordChar_not_symbol (h : isWordChar c = true) : isSymbol c = false := by
  rw [Bool.eq_false_iff]
  intro hs
  simp only [isSymbol, Bool.or_eq_true, decide_eq_true_eq] at hs
  obtain ((rfl | rfl) | rfl) | rfl := hs <;> exact absurd h (by decide)

theorem push_wordChar (h : isWordChar c = true) (glued : Bool) :
    push c glued tokens = some (extendWord c glued tokens) := by
  simp [push, wordChar_ne_space h, wordChar_not_symbol h, h]

@[simp] theorem lex_space : lex (' ' :: cs) = lex cs := by
  rw [lex]
  cases lex cs <;> rfl

theorem lex_symbol (h : isSymbol c = true) : lex (c :: cs) = (lex cs).map (.symbol c :: ·) := by
  have hspace : c ≠ ' ' := by
    rintro rfl
    exact absurd h (by decide)
  rw [lex]
  cases lex cs with
  | none => rfl
  | some tokens => simp [push, hspace, h]

/-- By induction on the word: its last character starts the token and each one before extends
it. -/
theorem lex_word (hw : ∀ c ∈ w, isWordChar c = true) (hne : w ≠ [])
    (hcs : startsWord cs = false) :
    lex (w ++ cs) = (lex cs).map (.word (String.ofList w) :: ·) := by
  induction w with
  | nil => exact absurd rfl hne
  | cons c w ih =>
    have hc := hw c (by simp)
    rw [List.cons_append, lex]
    by_cases hlast : w = []
    · subst hlast
      rw [List.nil_append, hcs]
      cases lex cs with
      | none => rfl
      | some tokens => simp [push_wordChar hc, extendWord]
    · have hstart : startsWord (w ++ cs) = true := by
        obtain ⟨d, w, rfl⟩ := List.exists_cons_of_ne_nil hlast
        exact hw d (by simp)
      rw [ih (fun d hd => hw d (by simp [hd])) hlast, hstart]
      cases lex cs with
      | none => rfl
      | some tokens => simp [push_wordChar hc, extendWord]

/-- A word before a text that is read already. -/
theorem lex_word_before (hw : ∀ c ∈ w, isWordChar c = true) (hne : w ≠ [])
    (hcs : startsWord cs = false) (hlex : lex cs = some tokens) :
    lex (w ++ cs) = some (.word (String.ofList w) :: tokens) := by
  rw [lex_word hw hne hcs, hlex]
  rfl

theorem lex_bind (hw : ∀ c ∈ w, isWordChar c = true) (hne : w ≠ [])
    (hcs : startsWord cs = false) :
    lex (':' :: (w ++ cs)) = (lex cs).map (.bind (String.ofList (':' :: w)) :: ·) := by
  have hstart : startsWord (w ++ cs) = true := by
    obtain ⟨d, w, rfl⟩ := List.exists_cons_of_ne_nil hne
    exact hw d (by simp)
  rw [lex, lex_word hw hne hcs, hstart]
  cases lex cs with
  | none => rfl
  | some tokens => simp [push, isSymbol, show isWordChar ':' = false by decide, bindWord]

theorem lex_ne_nil (hlex : lex cs = some tokens) (hstart : startsWord cs = true) :
    tokens ≠ [] := by
  cases cs with
  | nil => exact absurd hstart (by decide)
  | cons c cs =>
    obtain ⟨rest, -, hpush⟩ := Option.bind_eq_some_iff.mp hlex
    rw [push_wordChar hstart] at hpush
    rintro rfl
    unfold extendWord at hpush
    split at hpush <;> simp at hpush

theorem push_append {glued : Bool} (hpush : push c glued tokens = some tokens')
    (hglued : glued = true → tokens ≠ []) (more : List Token) :
    push c glued (tokens ++ more) = some (tokens' ++ more) := by
  cases tokens with
  | nil =>
    obtain rfl : glued = false := by simpa using hglued
    simp only [push, extendWord, bindWord, List.nil_append] at hpush ⊢
    split_ifs at hpush ⊢ <;> cases hpush <;> rfl
  | cons token tokens =>
    simp only [push, List.cons_append] at hpush ⊢
    split_ifs at hpush ⊢
    · cases hpush
      rfl
    · cases hpush
      rfl
    · cases hpush
      cases glued <;> cases token <;> rfl
    · cases glued <;> cases token <;> cases hpush
      rfl

/-- A text can be read by itself where the text after it does not start inside a word. -/
theorem lex_append (hcs : lex cs = some tokens) (hcs' : lex cs' = some tokens')
    (hstart : startsWord cs' = false) : lex (cs ++ cs') = some (tokens ++ tokens') := by
  induction cs generalizing tokens with
  | nil =>
    cases hcs
    simpa using hcs'
  | cons c cs ih =>
    obtain ⟨rest, hrest, hpush⟩ := Option.bind_eq_some_iff.mp hcs
    have hsame : startsWord (cs ++ cs') = startsWord cs := by
      cases cs with
      | nil => simpa [startsWord] using hstart
      | cons => rfl
    rw [List.cons_append, lex, ih hrest, hsame, Option.bind_some]
    exact push_append hpush (lex_ne_nil hrest) tokens'

theorem lex_name (h : IsName reserved name) (hcs : startsWord cs = false) :
    lex (name.toList ++ cs) = (lex cs).map (.word name :: ·) := by
  rw [lex_word h.wordChars h.ne_nil hcs, String.ofList_toList]

theorem lex_placeholder (h : IsPlaceholder b) (hcs : startsWord cs = false) :
    lex (b.toList ++ cs) = (lex cs).map (.bind b :: ·) := by
  obtain ⟨w, hne, hw, hb⟩ := h
  rw [hb, List.cons_append, lex_bind hw hne hcs, ← hb, String.ofList_toList]

theorem lex_equals (hname : IsName reserved name) (hb : IsPlaceholder b) :
    lex (name ++ " = " ++ b).toList = some (Test.equals name b).tokens := by
  have hlex := lex_placeholder hb (show startsWord [] = false from rfl)
  have hrest : lex (" = ".toList ++ b.toList) = some [.symbol '=', .bind b] := by
    change lex (' ' :: '=' :: ' ' :: b.toList) = _
    rw [lex_space, lex_symbol (by decide), lex_space, ← List.append_nil b.toList, hlex]
    rfl
  rw [String.toList_append, String.toList_append, List.append_assoc, lex_name hname rfl, hrest]
  rfl

theorem lex_attributeExists (hname : IsName reserved name) :
    lex ("attribute_exists(" ++ name ++ ")").toList =
      some (Test.attributeExists name).tokens := by
  have hname : lex (name.toList ++ [')']) = some [.word name, .symbol ')'] :=
    lex_name hname rfl
  have hcall : lex ('(' :: (name.toList ++ [')'])) =
      some [.symbol '(', .word name, .symbol ')'] := by
    rw [lex_symbol (by decide), hname]
    rfl
  have hf := lex_word_before (w := "attribute_exists".toList) (List.all_eq_true.mp rfl)
    (by decide) rfl hcall
  simpa [Test.tokens] using hf

theorem intercalate_concat {sep clause : List Token} {clauses : List (List Token)}
    (hne : clauses ≠ []) :
    sep.intercalate (clauses ++ [clause]) = sep.intercalate clauses ++ (sep ++ clause) := by
  induction clauses with
  | nil => exact absurd rfl hne
  | cons first clauses ih =>
    by_cases hlast : clauses = []
    · subst hlast
      simp [List.intercalate_cons_cons]
    · rw [List.cons_append, List.intercalate_cons_of_ne_nil (by simp), ih hlast,
        List.intercalate_cons_of_ne_nil hlast]
      simp

theorem Conjunction.nil : Conjunction "" [] := Or.inl ⟨rfl, rfl⟩

/-- A conjunction grows by one test at its end; the first one stands without the keyword. -/
theorem Conjunction.concat (h : Conjunction s tests) {text : String} (hne : text ≠ "")
    (htext : lex text.toList = some test.tokens) :
    Conjunction ((if s.length > 0 then s ++ " AND " else s) ++ text) (tests ++ [test]) := by
  right
  obtain ⟨rfl, rfl⟩ | ⟨hs, htests, hlex⟩ := h
  · refine ⟨by simpa using hne, by simp, ?_⟩
    simpa using htext
  · have hlength : s.length > 0 := by
      rw [gt_iff_lt, Nat.pos_iff_ne_zero]
      simpa [String.length_eq_zero_iff] using hs
    rw [if_pos hlength]
    refine ⟨by simp [hs], by simp, ?_⟩
    have hand := lex_word_before (w := "AND".toList) (List.all_eq_true.mp rfl) (by decide) rfl
      (lex_space.trans htext)
    have hmore : lex (" AND ".toList ++ text.toList) =
        some (.word "AND" :: test.tokens) := by simpa using hand
    rw [String.toList_append, String.toList_append, List.append_assoc,
      lex_append hlex hmore rfl, List.map_append,
      List.map_singleton, intercalate_concat (by simpa using htests)]
    rfl

theorem Assignments.first (hname : IsName reserved name) (hb : IsPlaceholder b) :
    Assignments ("SET " ++ (name ++ " = " ++ b)) [(name, b)] := by
  have hset := lex_word_before (w := "SET".toList) (List.all_eq_true.mp rfl) (by decide) rfl
    (lex_space.trans (lex_equals hname hb))
  refine ⟨by simp, ?_⟩
  rw [String.toList_append]
  simpa [assignmentTokens, Test.tokens] using hset

theorem Assignments.concat (h : Assignments s assignments) (hname : IsName reserved name)
    (hb : IsPlaceholder b) :
    Assignments (s ++ ", " ++ (name ++ " = " ++ b)) (assignments ++ [(name, b)]) := by
  obtain ⟨hne, hlex⟩ := h
  have hmore : lex (", ".toList ++ (name ++ " = " ++ b).toList) =
      some (.symbol ',' :: assignmentTokens (name, b)) := by
    change lex (',' :: ' ' :: (name ++ " = " ++ b).toList) = _
    rw [lex_symbol (by decide), lex_space, lex_equals hname hb]
    rfl
  refine ⟨by simp, ?_⟩
  rw [String.toList_append, String.toList_append, List.append_assoc, lex_append hlex hmore rfl,
    List.map_append, List.map_singleton, intercalate_concat (by simpa using hne)]
  rfl

theorem mapM_map_eq_some {β γ : Type*} {f : γ → Option β} {g : β → γ} {xs : List β}
    (h : ∀ x ∈ xs, f (g x) = some x) : (xs.map g).mapM f = some xs := by
  induction xs with
  | nil => rfl
  | cons x xs ih =>
    rw [List.map_cons, List.mapM_cons, h x (by simp), ih fun y hy => h y (by simp [hy])]
    rfl

theorem parseTest_tokens (h : IsName reserved test.name) :
    parseTest reserved test.tokens = some test := by
  cases test with
  | attributeExists name => exact if_pos ⟨rfl, h.nameable⟩
  | equals name b => exact if_pos h.nameable

theorem and_not_mem_tokens (h : IsName reserved test.name) :
    Token.word "AND" ∉ test.tokens := by
  have hne := h.ne_and.symm
  cases test <;> simpa [Test.tokens, Test.name] using hne

theorem Conjunction.parseCondition_eq (h : Conjunction s tests) (hne : tests ≠ [])
    (hnames : ∀ test ∈ tests, IsName reserved test.name) :
    parseCondition reserved s = some tests := by
  obtain ⟨-, htests⟩ | ⟨-, -, hlex⟩ := h
  · exact absurd htests hne
  · have hsep : ∀ clause ∈ tests.map Test.tokens, Token.word "AND" ∉ clause := by
      intro clause hclause
      obtain ⟨test, htest, rfl⟩ := List.mem_map.mp hclause
      exact and_not_mem_tokens (hnames test htest)
    rw [parseCondition, hlex, Option.bind_some,
      List.splitOn_intercalate _ hsep (by simpa using hne)]
    exact mapM_map_eq_some fun test htest => parseTest_tokens (hnames test htest)

theorem Assignments.parseUpdate_eq (h : Assignments s assignments)
    (hnames : ∀ a ∈ assignments, IsName reserved a.1) :
    parseUpdate reserved s = some assignments := by
  obtain ⟨hne, hlex⟩ := h
  have hsep : ∀ clause ∈ assignments.map assignmentTokens, Token.symbol ',' ∉ clause := by
    intro clause hclause
    obtain ⟨a, -, rfl⟩ := List.mem_map.mp hclause
    simp [assignmentTokens]
  rw [parseUpdate, hlex, Option.bind_some]
  simp only [if_true]
  rw [List.splitOn_intercalate _ hsep (by simpa using hne)]
  exact mapM_map_eq_some fun a ha => if_pos (hnames a ha).nameable

theorem filterMap_intercalate {β γ : Type*} {f : β → Option γ} {sep : List β}
    (hsep : sep.filterMap f = []) (clauses : List (List β)) :
    (sep.intercalate clauses).filterMap f = clauses.flatMap (List.filterMap f) := by
  induction clauses with
  | nil => rfl
  | cons clause clauses ih =>
    by_cases hlast : clauses = []
    · simp [hlast]
    · rw [List.intercalate_cons_of_ne_nil hlast, List.filterMap_append, List.filterMap_append, ih,
        hsep]
      simp

theorem Conjunction.placeholders_eq (h : Conjunction s tests) :
    placeholders s = tests.flatMap Test.operands := by
  obtain ⟨rfl, rfl⟩ | ⟨-, -, hlex⟩ := h
  · rfl
  · have htest : ∀ test : Test String,
        test.tokens.filterMap Token.placeholder? = test.operands := by
      intro test
      cases test <;> rfl
    rw [placeholders, hlex, Option.getD_some, filterMap_intercalate rfl, List.flatMap_map]
    simp only [htest]

theorem Assignments.placeholders_eq (h : Assignments s assignments) :
    placeholders s = assignments.map Prod.snd := by
  rw [placeholders, h.2, Option.getD_some, List.filterMap_cons_none rfl,
    filterMap_intercalate rfl, List.flatMap_map]
  exact List.flatMap_pure_eq_map _ _

theorem lex_join {names : List String} (hne : names ≠ [])
    (hnames : ∀ name ∈ names, IsName reserved name) :
    lex (Text.join ',' names).toList =
      some ([Token.symbol ','].intercalate (names.map fun name => [.word name])) := by
  induction names with
  | nil => exact absurd rfl hne
  | cons first names ih =>
    have hfirst := hnames first (by simp)
    cases names with
    | nil =>
      have hlex := lex_name hfirst (show startsWord [] = false from rfl)
      rw [List.append_nil] at hlex
      rw [Text.join_singleton, hlex]
      rfl
    | cons second names =>
      rw [Text.toList_join_cons, lex_name hfirst rfl, lex_symbol (by decide),
        ih (by simp) fun name hname => hnames name (by simp [hname])]
      rfl

theorem parseProjection_join {names : List String} (hne : names ≠ [])
    (hnames : ∀ name ∈ names, IsName reserved name) :
    parseProjection reserved (Text.join ',' names) = some names := by
  have hsep : ∀ clause ∈ names.map fun name => [Token.word name],
      Token.symbol ',' ∉ clause := by
    intro clause hclause
    obtain ⟨name, -, rfl⟩ := List.mem_map.mp hclause
    simp
  rw [parseProjection, lex_join hne hnames, Option.bind_some,
    List.splitOn_intercalate _ hsep (by simpa using hne)]
  exact mapM_map_eq_some fun name hname => if_pos (hnames name hname).nameable

end Expression
