import Mathlib.Data.List.SplitBy
import ShimService.Library.Text

/-! URL quoting: the bytes of a text in UTF-8, the unreserved ones as they are and the others as
`%XX`. -/
namespace Percent

def hexChar (n : ℕ) : Char := "0123456789ABCDEF".toList.getD n '0'

def hexValue (c : Char) : Option ℕ :=
  if c.isDigit then some (c.toNat - 48)
  else if 'A'.toNat ≤ c.toNat ∧ c.toNat ≤ 'F'.toNat then some (c.toNat - 55)
  else if 'a'.toNat ≤ c.toNat ∧ c.toNat ≤ 'f'.toNat then some (c.toNat - 87)
  else none

def isUnreserved (c : Char) : Bool := c.isAlphanum || c = '_' || c = '.' || c = '-' || c = '~'

def quoteByte (b : UInt8) : List Char :=
  if isUnreserved (Char.ofNat b.toNat) then [Char.ofNat b.toNat]
  else ['%', hexChar (b.toNat / 16), hexChar (b.toNat % 16)]

/-- `quote` with no safe characters beside the unreserved ones. -/
def quote (s : String) : String := String.ofList (s.toUTF8.data.toList.flatMap quoteByte)

/-- The bytes of a text in ASCII; a `%` without two digits behind it stands for itself. -/
def unquoteToBytes : List Char → List UInt8
  | [] => []
  | '%' :: a :: b :: rest =>
    match hexValue a, hexValue b with
    | some x, some y => UInt8.ofNat (16 * x + y) :: unquoteToBytes rest
    | _, _ => UInt8.ofNat '%'.toNat :: unquoteToBytes (a :: b :: rest)
  | c :: rest => UInt8.ofNat c.toNat :: unquoteToBytes rest

def isAscii (c : Char) : Bool := c.toNat < 128

/-- A text in UTF-8, where `replace` says what is read instead of malformed bytes. -/
def decode (replace : List UInt8 → String) (bytes : List UInt8) : String :=
  (String.fromUTF8? ⟨bytes.toArray⟩).getD (replace bytes)

/-- `unquote`, which leaves alone what is not in ASCII. -/
def unquote (replace : List UInt8 → String) (s : String) : String :=
  if '%' ∈ s.toList then
    String.join <| (s.toList.splitBy fun a b => isAscii a == isAscii b).map fun run =>
      if run.all isAscii then decode replace (unquoteToBytes run) else String.ofList run
  else s

variable {s : String} {c : Char} {n : ℕ} {b : UInt8} {bytes : List UInt8} {cs : List Char}
  {replace : List UInt8 → String}

theorem hexValue_hexChar (h : n < 16) : hexValue (hexChar n) = some n := by
  have hall : ∀ m < 16, hexValue (hexChar m) = some m := by decide
  exact hall n h

theorem hexChar_isAlphanum (h : n < 16) : (hexChar n).isAlphanum = true := by
  have hall : ∀ m < 16, (hexChar m).isAlphanum = true := by decide
  exact hall n h

theorem isAscii_of_isAlphanum (h : c.isAlphanum = true) : isAscii c = true := by
  have hle {d : Char} (hcd : c.val ≤ d.val) (hd : d.toNat < 128) : isAscii c = true :=
    decide_eq_true (Nat.lt_of_le_of_lt (UInt32.le_iff_toNat_le.mp hcd) hd)
  rcases Bool.or_eq_true_iff.mp h with halpha | hdigit
  · rcases Bool.or_eq_true_iff.mp halpha with hupper | hlower
    · have hrange : 'A'.val ≤ c.val ∧ c.val ≤ 'Z'.val := of_decide_eq_true hupper
      exact hle hrange.2 (by decide)
    · have hhigh : c.val ≤ 'z'.val := of_decide_eq_true (Bool.and_eq_true_iff.mp hlower).2
      exact hle hhigh (by decide)
  · have hhigh : c.val ≤ '9'.val := of_decide_eq_true (Bool.and_eq_true_iff.mp hdigit).2
    exact hle hhigh (by decide)

theorem isAscii_of_isUnreserved (h : isUnreserved c = true) : isAscii c = true := by
  simp only [isUnreserved, Bool.or_eq_true, decide_eq_true_eq] at h
  rcases h with (((h | rfl) | rfl) | rfl) | rfl
  · exact isAscii_of_isAlphanum h
  all_goals decide

theorem mem_quoteByte (h : c ∈ quoteByte b) : c = '%' ∨ isUnreserved c = true := by
  have hb := b.toNat_lt
  unfold quoteByte at h
  split at h
  · rename_i hsafe
    obtain rfl : c = Char.ofNat b.toNat := by simpa using h
    exact .inr hsafe
  · have hdigit : ∀ n < 16, isUnreserved (hexChar n) = true := fun n hn => by
      simp [isUnreserved, hexChar_isAlphanum hn]
    rcases List.mem_cons.mp h with rfl | h
    · exact .inl rfl
    · rcases List.mem_cons.mp h with rfl | h
      · exact .inr (hdigit _ (by omega))
      · obtain rfl : c = hexChar (b.toNat % 16) := by simpa using h
        exact .inr (hdigit _ (by omega))

theorem mem_quote (h : c ∈ (quote s).toList) : c = '%' ∨ isUnreserved c = true := by
  rw [quote, String.toList_ofList] at h
  obtain ⟨b, _, hc⟩ := List.mem_flatMap.mp h
  exact mem_quoteByte hc

theorem unquoteToBytes_cons (h : c ≠ '%') :
    unquoteToBytes (c :: cs) = UInt8.ofNat c.toNat :: unquoteToBytes cs := by
  rw [unquoteToBytes]
  intro _ _ _ heq
  exact absurd heq h

theorem unquoteToBytes_quoteByte (rest : List Char) :
    unquoteToBytes (quoteByte b ++ rest) = b :: unquoteToBytes rest := by
  have hb := b.toNat_lt
  unfold quoteByte
  split
  · rename_i hsafe
    have hne : Char.ofNat b.toNat ≠ '%' := by
      intro heq
      rw [heq] at hsafe
      cases hsafe
    have hvalid : b.toNat.isValidChar := .inl (by omega)
    have hnat : (Char.ofNat b.toNat).toNat = b.toNat := by
      rw [Char.ofNat, dif_pos hvalid]
      rfl
    rw [List.singleton_append, unquoteToBytes_cons hne, hnat, UInt8.ofNat_toNat]
  · simp only [List.cons_append, List.nil_append, unquoteToBytes,
      hexValue_hexChar (n := b.toNat / 16) (by omega),
      hexValue_hexChar (n := b.toNat % 16) (by omega)]
    rw [Nat.div_add_mod, UInt8.ofNat_toNat]

theorem unquoteToBytes_quote (bytes : List UInt8) :
    unquoteToBytes (bytes.flatMap quoteByte) = bytes := by
  induction bytes with
  | nil => rfl
  | cons b bytes ih => rw [List.flatMap_cons, unquoteToBytes_quoteByte, ih]

theorem decode_toUTF8 : decode replace s.toUTF8.data.toList = s := by
  rw [decode, Array.toArray_toList, Text.fromUTF8_toUTF8, Option.getD_some]

theorem flatMap_utf8EncodeChar (h : ∀ c ∈ cs, isAscii c = true) :
    cs.flatMap String.utf8EncodeChar = cs.map fun c => UInt8.ofNat c.toNat := by
  induction cs with
  | nil => rfl
  | cons c cs ih =>
    have hc : c.val.toNat ≤ 0x7f :=
      Nat.le_of_lt_succ (of_decide_eq_true (h c List.mem_cons_self))
    have hchar : String.utf8EncodeChar c = [UInt8.ofNat c.toNat] := if_pos hc
    rw [List.flatMap_cons, hchar, ih fun c hmem => h c (List.mem_cons_of_mem _ hmem),
      List.map_cons, List.singleton_append]

/-- A text in ASCII is its own UTF-8 form. -/
theorem toUTF8_of_ascii (h : ∀ c ∈ cs, isAscii c = true) :
    (String.ofList cs).toUTF8.data.toList = cs.map fun c => UInt8.ofNat c.toNat := by
  have hbytes : (String.ofList cs).toUTF8 = (cs.flatMap String.utf8EncodeChar).toByteArray :=
    String.toByteArray_ofList
  rw [hbytes, flatMap_utf8EncodeChar h, List.toList_data_toByteArray]

theorem unquoteToBytes_of_not_mem (h : '%' ∉ cs) :
    unquoteToBytes cs = cs.map fun c => UInt8.ofNat c.toNat := by
  induction cs with
  | nil => rfl
  | cons c cs ih =>
    have hc : c ≠ '%' := fun heq => h (heq ▸ List.mem_cons_self)
    rw [unquoteToBytes_cons hc, ih fun hmem => h (List.mem_cons_of_mem _ hmem), List.map_cons]

theorem unquote_quote : unquote replace (quote s) = s := by
  have hascii : ∀ c ∈ (quote s).toList, isAscii c = true := by
    intro c hc
    rcases mem_quote hc with rfl | hsafe
    · rfl
    · exact isAscii_of_isUnreserved hsafe
  have hbytes : unquoteToBytes (quote s).toList = s.toUTF8.data.toList := by
    rw [quote, String.toList_ofList, unquoteToBytes_quote]
  unfold unquote
  split
  · rename_i hmem
    have hrun : (quote s).toList.splitBy (fun a b => isAscii a == isAscii b) =
        [(quote s).toList] := by
      refine List.splitBy_of_isChain (List.ne_nil_of_mem hmem) (List.Pairwise.isChain ?_)
      refine List.pairwise_of_forall_mem_list fun a ha b hb => ?_
      rw [hascii a ha, hascii b hb]
      rfl
    rw [hrun, List.map_singleton, if_pos (List.all_eq_true.mpr hascii), hbytes, decode_toUTF8,
      String.join_cons, String.join_nil, String.append_empty]
  · rename_i hmem
    have hsame := toUTF8_of_ascii hascii
    rw [← unquoteToBytes_of_not_mem hmem, hbytes, String.ofList_toList] at hsame
    exact String.toByteArray_inj.mp (ByteArray.ext (Array.toList_inj.mp hsame))

theorem quote_ne_empty (h : s ≠ "") : quote s ≠ "" := by
  intro heq
  have hunquoted : unquote (fun _ => "") (quote s) = s := unquote_quote
  rw [heq] at hunquoted
  exact h hunquoted.symm

theorem not_mem_quote (hc : c ≠ '%') (h : isUnreserved c = false) : c ∉ (quote s).toList := by
  intro hmem
  rcases mem_quote hmem with rfl | hsafe
  · exact hc rfl
  · rw [h] at hsafe
    cases hsafe

end Percent
