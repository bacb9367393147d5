import ShimService.Auth.Accepted

/-! No two requests are signed as the same string, although a path may hold the delimiter. -/
namespace ShimService.Auth

variable {d : Char} {s t field field' name clientId path path' method method' : String}
  {fields : List String} {time time' : ℕ}

/-- The last field of a joined string is the part behind the last delimiter. -/
theorem append_field_inj (h : d ∉ field.toList) (h' : d ∉ field'.toList)
    (heq : s.toList ++ d :: field.toList = t.toList ++ d :: field'.toList) :
    s = t ∧ field = field' := by
  have hreverse := congrArg List.reverse heq
  simp only [List.reverse_append, List.reverse_cons, List.append_assoc,
    List.singleton_append] at hreverse
  have hsplit := congrArg (List.splitOn d) hreverse
  rw [List.splitOn_append_cons_self_of_not_mem (by simpa using h),
    List.splitOn_append_cons_self_of_not_mem (by simpa using h')] at hsplit
  have hfield : field.toList = field'.toList := List.reverse_injective (List.cons.inj hsplit).1
  rw [hfield] at heq
  exact ⟨String.toList_inj.mp (List.append_cancel_right heq), String.toList_inj.mp hfield⟩

/-- What the fields are joined to, with the last one apart. -/
theorem toList_join_append (fields : List String) (hne : fields ≠ []) :
    (Text.join d (fields ++ [field])).toList =
      (Text.join d fields).toList ++ d :: field.toList := by
  induction fields with
  | nil => exact absurd rfl hne
  | cons s fields ih =>
    cases fields with
    | nil => simp
    | cons t fields =>
      rw [List.cons_append, List.cons_append, Text.toList_join_cons, Text.toList_join_cons,
        ← List.cons_append, ih (by simp), List.append_assoc, List.cons_append]

theorem length_hex (data : ByteArray) : (hex data).length = 2 * data.size := by
  rw [hex, String.length_ofList, ← ByteArray.size_data, ← Array.length_toList]
  induction data.data.toList with
  | nil => rfl
  | cons byte bytes ih =>
    rw [List.flatMap_cons, List.length_append, ih]
    simp only [List.length_cons, List.length_nil]
    omega

/-- From the back: the time, the method, and then the path, which is what is left. -/
theorem fields_inj (hmethod : ':' ∉ method.toList) (hmethod' : ':' ∉ method'.toList)
    (h : Text.join ':' [name, clientId, path, method, toString (time : ℤ)] =
      Text.join ':' [name, clientId, path', method', toString (time' : ℤ)]) :
    path = path' ∧ method = method' ∧ time = time' := by
  have hdigits : ∀ n : ℕ, ':' ∉ (toString (n : ℤ)).toList :=
    fun n => Text.not_mem_toString_int n (by decide) (by decide)
  have hlast : ∀ (path method : String) (n : ℕ),
      (Text.join ':' [name, clientId, path, method, toString (n : ℤ)]).toList =
        (Text.join ':' [name, clientId, path, method]).toList ++
          ':' :: (toString (n : ℤ)).toList :=
    fun path method n => toList_join_append [name, clientId, path, method] (by simp)
  have hmiddle : ∀ path method : String,
      (Text.join ':' [name, clientId, path, method]).toList =
        (Text.join ':' [name, clientId, path]).toList ++ ':' :: method.toList :=
    fun path method => toList_join_append [name, clientId, path] (by simp)
  have hlist := congrArg String.toList h
  rw [hlast, hlast] at hlist
  obtain ⟨hfront, htime⟩ := append_field_inj (hdigits time) (hdigits time') hlist
  have hlist := congrArg String.toList hfront
  rw [hmiddle, hmiddle] at hlist
  obtain ⟨hfront, hmethods⟩ := append_field_inj hmethod hmethod' hlist
  have hlist := congrArg String.toList hfront
  simp only [Text.toList_join_cons, Text.join_singleton, List.append_cancel_left_eq,
    List.cons.injEq, true_and] at hlist
  refine ⟨String.toList_inj.mp hlist, hmethods, ?_⟩
  have hparse := congrArg Text.parseInt htime
  rw [Text.parseInt_toString, Text.parseInt_toString] at hparse
  exact Int.ofNat_inj.mp (Option.some.inj hparse)

/-- A time is shorter than a hash. -/
theorem toString_ne_hex {data : ByteArray} (htime : time < 10 ^ 20) (hdata : data.size = 64) :
    toString (time : ℤ) ≠ hex data := by
  intro heq
  have hlen := length_hex data
  have hshort : (toString time).length ≤ 20 := (Nat.length_repr_le_iff (by decide)).mpr htime
  rw [← heq] at hlen
  have hsame : toString (time : ℤ) = toString time := rfl
  rw [hsame] at hlen
  omega

/-- Requests with one signing string have the same path, method and time, and the same hash of a
body unless neither has a body. -/
theorem signingString_inj (crypto : Crypto) (hsha : ∀ data, (crypto.sha512 data).size = 64)
    (creds : ConfigServiceCredentials) (method method' path path' : String) (time time' : ℕ)
    (body body' : Option String) (hmethod : ':' ∉ method.toList)
    (hmethod' : ':' ∉ method'.toList) (htime : time < 10 ^ 20) (htime' : time' < 10 ^ 20)
    (h : (creds.sign crypto method path time body).signingString =
      (creds.sign crypto method' path' time' body').signingString) :
    path = path' ∧ method = method' ∧ time = time' ∧
      body.map (fun body => hex (crypto.sha512 body.toUTF8)) =
        body'.map fun body => hex (crypto.sha512 body.toUTF8) := by
  have hhash : ∀ body : String, ':' ∉ (hex (crypto.sha512 body.toUTF8)).toList :=
    fun body => not_mem_hex _
  have hdigits : ∀ n : ℕ, ':' ∉ (toString (n : ℤ)).toList :=
    fun n => Text.not_mem_toString_int n (by decide) (by decide)
  have hplain : ∀ (path method : String) (n : ℕ),
      (creds.sign crypto method path n none).signingString.toList =
        (Text.join ':' [creds.name, creds.clientId, path, method]).toList ++
          ':' :: (toString (n : ℤ)).toList :=
    fun path method n =>
      toList_join_append [creds.name, creds.clientId, path, method] (by simp)
  have hbody : ∀ (path method body : String) (n : ℕ),
      (creds.sign crypto method path n (some body)).signingString.toList =
        (Text.join ':' [creds.name, creds.clientId, path, method, toString (n : ℤ)]).toList ++
          ':' :: (hex (crypto.sha512 body.toUTF8)).toList := by
    intro path method body n
    simp [ConfigServiceCredentials.sign]
  have hlist := congrArg String.toList h
  cases body with
  | none =>
    cases body' with
    | none =>
      obtain ⟨hpath, hmethods, htimes⟩ := fields_inj hmethod hmethod' h
      exact ⟨hpath, hmethods, htimes, rfl⟩
    | some body' =>
      rw [hplain, hbody] at hlist
      obtain ⟨-, hlast⟩ := append_field_inj (hdigits time) (hhash body') hlist
      exact absurd hlast (toString_ne_hex htime (hsha _))
  | some body =>
    rw [hbody] at hlist
    cases body' with
    | none =>
      rw [hplain] at hlist
      obtain ⟨-, hlast⟩ := append_field_inj (hhash body) (hdigits time') hlist
      exact absurd hlast.symm (toString_ne_hex htime' (hsha _))
    | some body' =>
      rw [hbody] at hlist
      obtain ⟨hfront, hlast⟩ := append_field_inj (hhash body) (hhash body') hlist
      obtain ⟨hpath, hmethods, htimes⟩ := fields_inj hmethod hmethod' hfront
      exact ⟨hpath, hmethods, htimes, congrArg some hlast⟩

/-! ### Two bodies recorded with their digests -/

/-- The SHA-512 of the body `a`. -/
def digestA : ByteArray := ⟨#[
  0x1f, 0x40, 0xfc, 0x92, 0xda, 0x24, 0x16, 0x94, 0x75, 0x09, 0x79, 0xee, 0x6c, 0xf5, 0x82,
  0xf2, 0xd5, 0xd7, 0xd2, 0x8e, 0x18, 0x33, 0x5d, 0xe0, 0x5a, 0xbc, 0x54, 0xd0, 0x56, 0x0e,
  0x0f, 0x53, 0x02, 0x86, 0x0c, 0x65, 0x2b, 0xf0, 0x8d, 0x56, 0x02, 0x52, 0xaa, 0x5e, 0x74,
  0x21, 0x05, 0x46, 0xf3, 0x69, 0xfb, 0xbb, 0xce, 0x8c, 0x12, 0xcf, 0xc7, 0x95, 0x7b, 0x26,
  0x52, 0xfe, 0x9a, 0x75]⟩

/-- The SHA-512 of the body `b`. -/
def digestB : ByteArray := ⟨#[
  0x52, 0x67, 0x76, 0x88, 0x22, 0xee, 0x62, 0x4d, 0x48, 0xfc, 0xe1, 0x5e, 0xc5, 0xca, 0x79,
  0xcb, 0xd6, 0x02, 0xcb, 0x7f, 0x4c, 0x21, 0x57, 0xa5, 0x16, 0x55, 0x69, 0x91, 0xf2, 0x2e,
  0xf8, 0xc7, 0xb5, 0xef, 0x7b, 0x18, 0xd1, 0xff, 0x41, 0xc5, 0x93, 0x70, 0xef, 0xb0, 0x85,
  0x86, 0x51, 0xd4, 0x4a, 0x93, 0x6c, 0x11, 0xb7, 0xb1, 0x44, 0xc4, 0x8f, 0xe0, 0x4d, 0xf3,
  0xc6, 0xa3, 0xe8, 0xda]⟩

def recordedBodies : Crypto :=
  { recordedCrypto with
    sha512 := fun data =>
      if data = "a".toUTF8 then digestA else if data = "b".toUTF8 then digestB else emptyDigest }

theorem recordedBodies_size (data : ByteArray) : (recordedBodies.sha512 data).size = 64 := by
  simp only [recordedBodies]
  split
  · rfl
  · split <;> rfl

theorem sha512_a : recordedBodies.sha512 "a".toUTF8 = digestA := by
  simp only [recordedBodies, if_true]

theorem sha512_b : recordedBodies.sha512 "b".toUTF8 = digestB := by
  have hne : "b".toUTF8 ≠ "a".toUTF8 := fun heq =>
    absurd (String.toByteArray_inj.mp heq) (by decide)
  simp only [recordedBodies, if_neg hne, if_true]

set_option maxRecDepth 4000 in
/-- One body is signed in one way, and the other in another. -/
theorem recorded_bodies_agree :
    (some "a").map (fun body => hex (recordedBodies.sha512 body.toUTF8)) = some (hex digestA) ∧
    (recordedCreds.registered.sign recordedBodies "POST" "/a:b" 1700000000000
      (some "a")).signingString ≠ (recordedCreds.registered.sign recordedBodies "POST" "/a:b"
        1700000000000 (some "b")).signingString := by
  have hinj := signingString_inj recordedBodies recordedBodies_size recordedCreds.registered
    "POST" "POST" "/a:b" "/a:b" 1700000000000 1700000000000 (some "a")
  constructor
  · have hsame := (hinj (some "a") (by decide) (by decide) (by decide) (by decide) rfl).2.2.2
    rw [hsame, Option.map_some, sha512_a]
  · intro heq
    have hdigest := (hinj (some "b") (by decide) (by decide) (by decide) (by decide) heq).2.2.2
    rw [Option.map_some, Option.map_some, sha512_a, sha512_b] at hdigest
    exact absurd hdigest (by decide)

end ShimService.Auth
