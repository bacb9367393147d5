import Mathlib.Data.List.Basic

/-! Bytes as base64 text: six bits a character, and `=` for what the last group lacks. -/
namespace Base64

def alphabet : List Char :=
  "ABCDEFGHIJKLMNOPQRSTUVWXYZabcdefghijklmnopqrstuvwxyz0123456789+/".toList

def char (n : ℕ) : Char := alphabet.getD n '='

def digit (c : Char) : Option ℕ :=
  if alphabet.idxOf c < 64 then some (alphabet.idxOf c) else none

def encodeList : List UInt8 → List Char
  | [] => []
  | [a] => [char (a.toNat / 4), char (a.toNat % 4 * 16), '=', '=']
  | [a, b] =>
    [char (a.toNat / 4), char (a.toNat % 4 * 16 + b.toNat / 16), char (b.toNat % 16 * 4), '=']
  | a :: b :: c :: rest =>
    char (a.toNat / 4) :: char (a.toNat % 4 * 16 + b.toNat / 16) ::
      char (b.toNat % 16 * 4 + c.toNat / 64) :: char (c.toNat % 64) :: encodeList rest

def decodeList : List Char → Option (List UInt8)
  | [] => some []
  | [w, x, '=', '='] => do
    let w ← digit w
    let x ← digit x
    return [UInt8.ofNat (w * 4 + x / 16)]
  | [w, x, y, '='] => do
    let w ← digit w
    let x ← digit x
    let y ← digit y
    return [UInt8.ofNat (w * 4 + x / 16), UInt8.ofNat (x % 16 * 16 + y / 4)]
  | w :: x :: y :: z :: rest => do
    let w ← digit w
    let x ← digit x
    let y ← digit y
    let z ← digit z
    let bytes ← decodeList rest
    return UInt8.ofNat (w * 4 + x / 16) :: UInt8.ofNat (x % 16 * 16 + y / 4) ::
      UInt8.ofNat (y % 4 * 64 + z) :: bytes
  | _ => none

def encode (data : ByteArray) : String := String.ofList (encodeList data.data.toList)

def decode (s : String) : Option ByteArray :=
  (decodeList s.toList).map fun bytes => ⟨bytes.toArray⟩

variable {n : ℕ} {a b c : UInt8}

theorem digit_char (h : n < 64) : digit (char n) = some n := by
  have hall : ∀ m < 64, digit (char m) = some m := by decide +kernel
  exact hall n h

theorem char_ne_pad (h : n < 64) : char n ≠ '=' := by
  intro heq
  have hdigit := digit_char h
  rw [heq] at hdigit
  cases hdigit

theorem ofNat_eq (h : n = a.toNat) : UInt8.ofNat n = a := by
  rw [h, UInt8.ofNat_toNat]

theorem decodeList_encodeList (bytes : List UInt8) :
    decodeList (encodeList bytes) = some bytes := by
  induction bytes using encodeList.induct with
  | case1 => rfl
  | case2 a =>
    have ha := a.toNat_lt
    have h₁ := digit_char (n := a.toNat / 4) (by omega)
    have h₂ := digit_char (n := a.toNat % 4 * 16) (by omega)
    simp only [encodeList, decodeList, h₁, h₂, Option.bind_eq_bind, Option.bind_some,
      Option.pure_def]
    rw [ofNat_eq (a := a) (by omega)]
  | case3 a b =>
    have ha := a.toNat_lt
    have hb := b.toNat_lt
    have h₁ := digit_char (n := a.toNat / 4) (by omega)
    have h₂ := digit_char (n := a.toNat % 4 * 16 + b.toNat / 16) (by omega)
    have h₃ := digit_char (n := b.toNat % 16 * 4) (by omega)
    have hpad := char_ne_pad (n := b.toNat % 16 * 4) (by omega)
    simp only [encodeList, decodeList, h₁, h₂, h₃, Option.bind_eq_bind, Option.bind_some,
      Option.pure_def]
    rw [ofNat_eq (a := a) (by omega), ofNat_eq (a := b) (by omega)]
  | case4 a b c rest ih =>
    have ha := a.toNat_lt
    have hb := b.toNat_lt
    have hc := c.toNat_lt
    have h₁ := digit_char (n := a.toNat / 4) (by omega)
    have h₂ := digit_char (n := a.toNat % 4 * 16 + b.toNat / 16) (by omega)
    have h₃ := digit_char (n := b.toNat % 16 * 4 + c.toNat / 64) (by omega)
    have h₄ := digit_char (n := c.toNat % 64) (by omega)
    have hpad := char_ne_pad (n := c.toNat % 64) (by omega)
    simp only [encodeList]
    rw [decodeList]
    · simp only [h₁, h₂, h₃, h₄, ih, Option.bind_eq_bind, Option.bind_some, Option.pure_def]
      rw [ofNat_eq (a := a) (by omega), ofNat_eq (a := b) (by omega),
        ofNat_eq (a := c) (by omega)]
    · intro _ heq _
      exact hpad heq
    · intro heq _
      exact hpad heq

theorem decode_encode (data : ByteArray) : decode (encode data) = some data := by
  simp only [decode, encode, String.toList_ofList, decodeList_encodeList, Option.map_some,
    Array.toArray_toList]

end Base64
