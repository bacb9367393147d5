import Mathlib.Algebra.Group.Int.Defs
import Mathlib.Algebra.Group.Nat.Defs
import Mathlib.Data.List.Basic
import ShimService.Library.Program
import ShimService.Library.Text

/-!
`DataOutputBuffer` and `DataInputBuffer` of the command line client: big-endian integers of four
bytes, single bytes, and strings and byte arrays behind their length.
-/
namespace ShimService.Cli

/-- `dart:convert`'s `utf8`; decoding raises on malformed bytes. `σ` is a string. -/
structure Utf8 (σ : Type) where
  encode : σ → List UInt8
  decode : List UInt8 → Option σ

/-- The bytes of the `BytesBuilder`. -/
structure DataOutputBuffer where
  bytes : List UInt8

namespace DataOutputBuffer

def empty : DataOutputBuffer := ⟨[]⟩

/-- `_builder.addByte`, which keeps the low byte. -/
def addByte (out : DataOutputBuffer) (byte : ℤ) : DataOutputBuffer :=
  ⟨out.bytes ++ [UInt8.ofInt byte]⟩

/-- `_setInt`: the loop goes from the highest byte down. -/
def setInt (v : ℤ) : ℕ → DataOutputBuffer → DataOutputBuffer
  | 0, out => out
  | size + 1, out => setInt v size (out.addByte ((v >>> (size * 8)) % 256))

def writeInt (out : DataOutputBuffer) (value : ℤ) : DataOutputBuffer := setInt value 4 out

def writeByte (out : DataOutputBuffer) (value : ℤ) : DataOutputBuffer := out.addByte value

def writeBytes (out : DataOutputBuffer) (bytes : List UInt8) (includeSize : Bool) :
    DataOutputBuffer :=
  let out := if includeSize then out.writeInt bytes.length else out
  ⟨out.bytes ++ bytes⟩

def writeString {σ : Type} (utf8 : Utf8 σ) (out : DataOutputBuffer) (value : σ) :
    DataOutputBuffer :=
  let encoded := utf8.encode value
  let out := out.writeInt encoded.length
  ⟨out.bytes ++ encoded⟩

def toByteArray (out : DataOutputBuffer) : List UInt8 := out.bytes

end DataOutputBuffer

inductive ReadError where
  | rangeError
  | formatException
  deriving DecidableEq

/-- The byte view `_data` has the same bytes. -/
structure DataInputBuffer where
  bytes : List UInt8
  offset : ℕ
  deriving DecidableEq

namespace DataInputBuffer

open Program (raise read modify)

abbrev Reader (α : Type) := Program DataInputBuffer ReadError α

def skip (size : ℕ) : Reader Unit := modify fun s => { s with offset := s.offset + size }

/-- `getInt32`, big-endian. -/
def getInt32 (b₀ b₁ b₂ b₃ : UInt8) : ℤ :=
  let unsigned : ℤ := ((b₀.toNat * 256 + b₁.toNat) * 256 + b₂.toNat) * 256 + b₃.toNat
  if unsigned < 2 ^ 31 then unsigned else unsigned - 2 ^ 32

def readInt : Reader ℤ := do
  match ← read fun s => s.bytes.drop s.offset with
  | b₀ :: b₁ :: b₂ :: b₃ :: _ =>
    skip 4
    return getInt32 b₀ b₁ b₂ b₃
  | _ => raise .rangeError

def readByte : Reader ℕ := do
  match ← read fun s => s.bytes.drop s.offset with
  | b :: _ =>
    skip 1
    return b.toNat
  | [] => raise .rangeError

def readSize (zeroOk : Bool) : Reader ℤ := do
  let size ← readInt
  if size < 0 ∨ (size = 0 ∧ !zeroOk) then raise .rangeError
  else return size

/-- Without a size, the size comes first. -/
def readBytes (size : Option ℤ) : Reader (List UInt8) := do
  let size ← match size with
    | some size => pure size
    | none => readSize true
  if size < 1 then
    if size = 0 then return [] else raise .rangeError
  else
    let rest ← read fun s => s.bytes.drop s.offset
    if size.toNat ≤ rest.length then
      skip size.toNat
      return rest.take size.toNat
    else raise .rangeError

def readString {σ : Type} (utf8 : Utf8 σ) : Reader σ := do
  let bytes ← readBytes none
  match utf8.decode bytes with
  | some value => return value
  | none => raise .formatException

end DataInputBuffer

/-- A value with the type that it is written and read as. -/
inductive TypedValue (σ : Type) where
  | int (value : Int32)
  | byte (value : UInt8)
  | string (value : σ)
  | bytes (value : List UInt8)
  deriving DecidableEq

inductive ValueType where
  | int
  | byte
  | string
  | bytes
  deriving DecidableEq

variable {σ : Type}

def TypedValue.type : TypedValue σ → ValueType
  | int _ => .int
  | byte _ => .byte
  | string _ => .string
  | bytes _ => .bytes

/-- The write for a value of its type; a byte array is written with its size. -/
def TypedValue.write (utf8 : Utf8 σ) (out : DataOutputBuffer) : TypedValue σ → DataOutputBuffer
  | int value => out.writeInt value.toInt
  | byte value => out.writeByte value.toNat
  | string value => out.writeString utf8 value
  | bytes value => out.writeBytes value true

open DataInputBuffer in
/-- The read for a type. -/
def ValueType.read (utf8 : Utf8 σ) : ValueType → Reader (TypedValue σ)
  | int => do return .int (Int32.ofInt (← readInt))
  | byte => do return .byte (UInt8.ofNat (← readByte))
  | string => do return .string (← readString utf8)
  | bytes => do return .bytes (← readBytes none)

def writeAll (utf8 : Utf8 σ) (values : List (TypedValue σ)) : DataOutputBuffer :=
  values.foldl (TypedValue.write utf8) .empty

def readAll (utf8 : Utf8 σ) : List ValueType → DataInputBuffer.Reader (List (TypedValue σ))
  | [] => return []
  | type :: types => do
    let value ← type.read utf8
    let values ← readAll utf8 types
    return value :: values

/-- Reading what was written gives the same values, at the end of the bytes. -/
def RoundTrips (utf8 : Utf8 σ) (values : List (TypedValue σ)) : Prop :=
  readAll utf8 (values.map TypedValue.type) ⟨(writeAll utf8 values).toByteArray, 0⟩ =
    (.ok values,
      ⟨(writeAll utf8 values).toByteArray, (writeAll utf8 values).toByteArray.length⟩)

/-! What a write adds to the bytes. -/

section

variable {utf8 : Utf8 σ} {out : DataOutputBuffer} {v : ℤ}

/-- The four bytes of an integer. -/
def intBytes (v : ℤ) : List UInt8 :=
  [UInt8.ofInt (v >>> (24 : ℕ) % 256), UInt8.ofInt (v >>> (16 : ℕ) % 256),
    UInt8.ofInt (v >>> (8 : ℕ) % 256), UInt8.ofInt (v >>> (0 : ℕ) % 256)]

/-- The bytes of a value. -/
def TypedValue.encoded (utf8 : Utf8 σ) : TypedValue σ → List UInt8
  | int value => intBytes value.toInt
  | byte value => [value]
  | string value => intBytes (utf8.encode value).length ++ utf8.encode value
  | bytes value => intBytes value.length ++ value

theorem writeInt_bytes : (out.writeInt v).bytes = out.bytes ++ intBytes v := by
  simp [DataOutputBuffer.writeInt, DataOutputBuffer.setInt, DataOutputBuffer.addByte, intBytes]

theorem ofInt_toNat (b : UInt8) : UInt8.ofInt b.toNat = b := by
  have hnat : (UInt8.ofInt b.toNat).toNat = ((b.toNat : ℤ) % 256).toNat % 256 := rfl
  have hlt := b.toNat_lt
  apply UInt8.toNat_inj.mp
  omega

theorem write_bytes (value : TypedValue σ) :
    (value.write utf8 out).bytes = out.bytes ++ value.encoded utf8 := by
  cases value with
  | int value => exact writeInt_bytes
  | byte value =>
    simp only [TypedValue.write, DataOutputBuffer.writeByte, DataOutputBuffer.addByte, ofInt_toNat,
      TypedValue.encoded]
  | string value =>
    simp only [TypedValue.write, DataOutputBuffer.writeString, writeInt_bytes, TypedValue.encoded,
      List.append_assoc]
  | bytes value =>
    simp only [TypedValue.write, DataOutputBuffer.writeBytes, if_true, writeInt_bytes,
      TypedValue.encoded, List.append_assoc]

theorem writeAll_bytes (values : List (TypedValue σ)) :
    (writeAll utf8 values).toByteArray = values.flatMap (TypedValue.encoded utf8) := by
  have hfold : ∀ (values : List (TypedValue σ)) (out : DataOutputBuffer),
      (values.foldl (TypedValue.write utf8) out).bytes =
        out.bytes ++ values.flatMap (TypedValue.encoded utf8) := by
    intro values
    induction values with
    | nil => simp
    | cons value values ih =>
      intro out
      rw [List.foldl_cons, ih, write_bytes, List.flatMap_cons, List.append_assoc]
  exact hfold values .empty

end

/-! Each read takes exactly the bytes that the write of its type has added. -/

namespace DataInputBuffer

open Program (bind_of_ok)

/-- The reader takes these bytes from the offset and gives the value, whatever stands around
them. -/
def Takes {α : Type} (reader : Reader α) (taken : List UInt8) (value : α) : Prop :=
  ∀ pre rest, reader ⟨pre ++ taken ++ rest, pre.length⟩ =
    (.ok value, ⟨pre ++ taken ++ rest, (pre ++ taken).length⟩)

section

variable {α β : Type} {reader : Reader α} {k : α → Reader β} {taken taken' : List UInt8}
  {a : α} {b : β} {v : ℤ} {utf8 : Utf8 σ}

theorem takes_pure : Takes (pure a) [] a := by
  intro pre rest
  rw [List.append_nil]
  rfl

theorem Takes.bind (h : Takes reader taken a) (hk : Takes (k a) taken' b) :
    Takes (reader >>= k) (taken ++ taken') b := by
  intro pre rest
  have hfirst := h pre (taken' ++ rest)
  have hsecond := hk (pre ++ taken) rest
  simp only [List.append_assoc] at hfirst hsecond ⊢
  rw [bind_of_ok hfirst, hsecond]

theorem Takes.map (h : Takes reader taken a) {f : α → β} :
    Takes (reader >>= fun a => pure (f a)) taken (f a) := by
  have htakes := h.bind (k := fun a => pure (f a)) takes_pure
  rwa [List.append_nil] at htakes

theorem toNat_ofInt (v : ℤ) : ((UInt8.ofInt v).toNat : ℤ) = v % 256 := by
  have hnat : (UInt8.ofInt v).toNat = (v % 256).toNat % 256 := rfl
  rw [hnat]
  omega

theorem getInt32_eq {b₀ b₁ b₂ b₃ : UInt8} (hlow : -2147483648 ≤ v) (hhigh : v < 4294967296)
    (h₀ : b₀.toNat = v / 16777216 % 256) (h₁ : b₁.toNat = v / 65536 % 256)
    (h₂ : b₂.toNat = v / 256 % 256) (h₃ : b₃.toNat = v % 256) :
    getInt32 b₀ b₁ b₂ b₃ = if v < 2147483648 then v else v - 4294967296 := by
  have hsum : ((v / 16777216 % 256 * 256 + v / 65536 % 256) * 256 + v / 256 % 256) * 256 +
      v % 256 = v % 4294967296 := by omega
  unfold getInt32
  dsimp only
  rw [h₀, h₁, h₂, h₃, hsum]
  split <;> split <;> omega

/-- A size of `2 ^ 31` or more is read as a negative one. -/
theorem takes_readInt (hlow : -2147483648 ≤ v) (hhigh : v < 4294967296) :
    Takes readInt (intBytes v) (if v < 2147483648 then v else v - 4294967296) := by
  intro pre rest
  have hvalue : getInt32 (UInt8.ofInt (v >>> (24 : ℕ) % 256)) (UInt8.ofInt (v >>> (16 : ℕ) % 256))
      (UInt8.ofInt (v >>> (8 : ℕ) % 256)) (UInt8.ofInt (v >>> (0 : ℕ) % 256)) =
      if v < 2147483648 then v else v - 4294967296 := by
    apply getInt32_eq hlow hhigh <;> simp [toNat_ofInt, Int.shiftRight_eq_div_pow]
  rw [← hvalue]
  have hdrop : (pre ++ intBytes v ++ rest).drop pre.length = intBytes v ++ rest := by simp
  simp only [readInt, Program.bind_read, hdrop]
  rw [List.length_append]
  rfl

theorem takes_readByte (b : UInt8) : Takes readByte [b] b.toNat := by
  intro pre rest
  have hdrop : (pre ++ [b] ++ rest).drop pre.length = b :: rest := by simp
  simp only [readByte, Program.bind_read, hdrop]
  rw [List.length_append]
  rfl

theorem takes_readSize {n : ℕ} (h : n < 2 ^ 31) : Takes (readSize true) (intBytes n) (n : ℤ) := by
  have hint : Takes readInt (intBytes n) (n : ℤ) := by
    have hread := takes_readInt (v := n) (by omega) (by omega)
    rwa [if_pos (by omega)] at hread
  have htakes := hint.bind (k := fun size =>
    if size < 0 ∨ (size = 0 ∧ !true) then Program.raise .rangeError else pure size) (by
      rw [if_neg (by simp)]
      exact takes_pure)
  rwa [List.append_nil] at htakes

theorem readBytes_none : readBytes none = readSize true >>= fun size => readBytes (some size) := by
  rfl

theorem readBytes_some (size : ℤ) : readBytes (some size) =
    if size < 1 then if size = 0 then pure [] else Program.raise .rangeError
    else Program.read (fun s => s.bytes.drop s.offset) >>= fun rest =>
      if size.toNat ≤ rest.length then skip size.toNat >>= fun _ => pure (rest.take size.toNat)
      else Program.raise .rangeError := rfl

theorem takes_readBytes_some (bytes : List UInt8) :
    Takes (readBytes (some bytes.length)) bytes bytes := by
  intro pre rest
  rw [readBytes_some]
  by_cases hempty : bytes = []
  · rw [hempty]
    simp [Program.pure_apply]
  · have hpos : ¬ (bytes.length : ℤ) < 1 := by
      have := List.length_pos_iff.mpr hempty
      omega
    have hdrop : (pre ++ bytes ++ rest).drop pre.length = bytes ++ rest := by simp
    have hfits : (bytes.length : ℤ).toNat ≤ (bytes ++ rest).length := by simp
    have htake : (bytes ++ rest).take (bytes.length : ℤ).toNat = bytes := by simp
    rw [if_neg hpos, Program.bind_read, hdrop, if_pos hfits, htake, List.length_append]
    rfl

/-- A byte array of `2 ^ 31` bytes or more has a size that no signed integer of four bytes can
say. -/
theorem takes_readBytes {bytes : List UInt8} (h : bytes.length < 2 ^ 31) :
    Takes (readBytes none) (intBytes bytes.length ++ bytes) bytes := by
  rw [readBytes_none]
  exact (takes_readSize h).bind (takes_readBytes_some bytes)

theorem takes_readString {value : σ} (hdecode : utf8.decode (utf8.encode value) = some value)
    (h : (utf8.encode value).length < 2 ^ 31) :
    Takes (readString utf8) (intBytes (utf8.encode value).length ++ utf8.encode value) value := by
  have htakes := (takes_readBytes h).bind (k := fun bytes => match utf8.decode bytes with
    | some value => pure value
    | none => Program.raise .formatException) (by
      rw [hdecode]
      exact takes_pure)
  rwa [List.append_nil] at htakes

end

end DataInputBuffer

section

open DataInputBuffer

variable {utf8 : Utf8 σ}

/-- The length in front of a string or of a byte array is at most what a signed integer of four
bytes can say. -/
def TypedValue.Fits (utf8 : Utf8 σ) : TypedValue σ → Prop
  | int _ => True
  | byte _ => True
  | string value => (utf8.encode value).length < 2 ^ 31
  | bytes value => value.length < 2 ^ 31

theorem takes_read {value : TypedValue σ} (hfits : value.Fits utf8)
    (hdecode : ∀ text, value = .string text → utf8.decode (utf8.encode text) = some text) :
    Takes (value.type.read utf8) (value.encoded utf8) value := by
  cases value with
  | int value =>
    have hlow := Int32.le_toInt value
    have hhigh := Int32.toInt_lt value
    have hread := takes_readInt (v := value.toInt) (by omega) (by omega)
    rw [if_pos (by omega)] at hread
    have hmap := hread.map (f := fun v => (TypedValue.int (Int32.ofInt v) : TypedValue σ))
    rwa [Int32.ofInt_toInt] at hmap
  | byte value =>
    have hmap := (takes_readByte value).map
      (f := fun b => (TypedValue.byte (UInt8.ofNat b) : TypedValue σ))
    rwa [UInt8.ofNat_toNat] at hmap
  | string value => exact (takes_readString (hdecode value rfl) hfits).map
  | bytes value => exact (takes_readBytes hfits).map

theorem takes_readAll {values : List (TypedValue σ)} (hfits : ∀ value ∈ values, value.Fits utf8)
    (hdecode : ∀ text, .string text ∈ values → utf8.decode (utf8.encode text) = some text) :
    Takes (readAll utf8 (values.map TypedValue.type))
      (values.flatMap (TypedValue.encoded utf8)) values := by
  induction values with
  | nil => exact takes_pure
  | cons value values ih =>
    have hvalue : Takes (value.type.read utf8) (value.encoded utf8) value := by
      apply takes_read (hfits value List.mem_cons_self)
      rintro text rfl
      exact hdecode text List.mem_cons_self
    have hvalues := ih (fun v hv => hfits v (List.mem_cons_of_mem _ hv))
      (fun text htext => hdecode text (List.mem_cons_of_mem _ htext))
    rw [List.flatMap_cons]
    exact hvalue.bind hvalues.map

/-- What has been written is read back with the same types, up to the last byte. -/
theorem roundTrips {values : List (TypedValue σ)}
    (hdecode : ∀ text, .string text ∈ values → utf8.decode (utf8.encode text) = some text)
    (hfits : ∀ value ∈ values, value.Fits utf8) : RoundTrips utf8 values := by
  have htakes := takes_readAll hfits hdecode [] []
  rw [List.nil_append, List.append_nil, ← writeAll_bytes] at htakes
  exact htakes

/-- The codec of the strings that have no lone surrogate. -/
def standardUtf8 : Utf8 String where
  encode text := text.toUTF8.data.toList
  decode bytes := String.fromUTF8? ⟨bytes.toArray⟩

theorem standardUtf8_decode_encode (text : String) :
    standardUtf8.decode (standardUtf8.encode text) = some text := by
  simp only [standardUtf8, Array.toArray_toList]
  exact Text.fromUTF8_toUTF8 text

theorem roundTrips_mixed :
    RoundTrips standardUtf8 [.int (-2), .byte 200, .string "ok", .bytes [], .int 5] :=
  roundTrips (fun text _ => standardUtf8_decode_encode text) (by
    intro value hvalue
    simp only [List.mem_cons, List.not_mem_nil, or_false] at hvalue
    rcases hvalue with rfl | rfl | rfl | rfl | rfl <;> simp +decide [TypedValue.Fits])

theorem readSize_too_long (rest : List UInt8) {n : ℕ} (hlow : 2 ^ 31 ≤ n) (hhigh : n < 2 ^ 32) :
    ∃ s, readSize true ⟨intBytes n ++ rest, 0⟩ = (.error .rangeError, s) := by
  have hread := takes_readInt (v := n) (by omega) (by omega) [] rest
  rw [if_neg (by omega)] at hread
  have hend : readSize true ⟨intBytes n ++ rest, 0⟩ = _ := Program.bind_of_ok hread
  rw [if_pos (.inl (by omega))] at hend
  exact ⟨_, hend⟩

/-- The size is written as a negative one, which the reader refuses. -/
theorem not_roundTrips_of_length {bytes : List UInt8} (hlow : 2 ^ 31 ≤ bytes.length)
    (hhigh : bytes.length < 2 ^ 32) : ¬ RoundTrips utf8 [.bytes bytes] := by
  intro htrips
  obtain ⟨s, hsize⟩ := readSize_too_long bytes hlow hhigh
  have hbytes : readBytes none ⟨intBytes bytes.length ++ bytes, 0⟩ = (.error .rangeError, s) := by
    rw [readBytes_none]
    rw [Program.bind_of_error hsize]
  have hvalue : ValueType.bytes.read utf8 ⟨intBytes bytes.length ++ bytes, 0⟩ =
      (.error .rangeError, s) := by
    rw [ValueType.read, Program.bind_of_error hbytes]
  have hall : readAll utf8 [.bytes] ⟨intBytes bytes.length ++ bytes, 0⟩ =
      (.error .rangeError, s) := by
    rw [readAll, Program.bind_of_error hvalue]
  have hwritten : (writeAll utf8 [.bytes bytes]).toByteArray =
      intBytes bytes.length ++ bytes := by
    rw [writeAll_bytes, List.flatMap_singleton]
    rfl
  rw [RoundTrips, hwritten] at htrips
  cases hall.symm.trans htrips

theorem not_roundTrips_two_gigabytes :
    (∀ text, standardUtf8.decode (standardUtf8.encode text) = some text) ∧
      ¬ RoundTrips standardUtf8 [.bytes (List.replicate (2 ^ 31) 0)] :=
  ⟨standardUtf8_decode_encode, not_roundTrips_of_length (by rw [List.length_replicate])
    (by rw [List.length_replicate]; decide)⟩

end

end ShimService.Cli
