import Mathlib
import ShimService.Auth.Signing
import ShimService.Library.Base64

/-! Which requests signed by the client the service accepts. -/
namespace ShimService.Auth

variable {crypto : Crypto} {creds : Client.Credentials} {now requestTime : ℤ}
  {path method signature : String} {body : Option String}
  {findCreds : String → Option ConfigServiceCredentials}

/-- The service's record of a client's credentials. -/
def Client.Credentials.registered (creds : Client.Credentials) : ConfigServiceCredentials :=
  ⟨creds.name, creds.clientId, creds.secretBytes⟩

/-- The request as the client sends it. -/
def Client.Credentials.request (crypto : Crypto) (creds : Client.Credentials)
    (path method : String) (requestTime : ℤ) (body : Option String) : LambdaHttpRequest :=
  ⟨method, path, body, some (creds.auth crypto path method requestTime body)⟩

theorem not_mem_hex (data : ByteArray) : ':' ∉ (hex data).toList := by
  have hdigits : ∀ n < 16, Nat.digitChar n ≠ ':' := by decide
  rw [hex, String.toList_ofList]
  intro hmem
  obtain ⟨byte, -, hdigit⟩ := List.mem_flatMap.mp hmem
  have hbyte := byte.toNat_lt
  rcases List.mem_cons.mp hdigit with heq | hdigit
  · exact hdigits (byte.toNat / 16) (by omega) heq.symm
  · exact hdigits (byte.toNat % 16) (by omega) (List.mem_singleton.mp hdigit).symm

/-- The token splits back into the name, the time and the signature. -/
theorem parseAuthParts_token (crypto : Crypto) (hname : ':' ∉ creds.name.toList)
    (hsignature : ':' ∉ signature.toList)
    (hgrace : (now - requestTime).natAbs ≤ graceTimeMillis) :
    parseAuthParts crypto now (crypto.base64Encode
      (Text.join ':' [creds.name, toString requestTime, signature]).toUTF8) =
        some ⟨creds.name, requestTime, signature⟩ := by
  have hfields : ∀ field ∈ [creds.name, toString requestTime, signature],
      ':' ∉ field.toList := by
    intro field hfield
    simp only [List.mem_cons, List.not_mem_nil, or_false] at hfield
    rcases hfield with rfl | rfl | rfl
    · exact hname
    · exact Text.not_mem_toString_int _ (by decide) (by decide)
    · exact hsignature
  simp only [parseAuthParts, crypto.decode_encode, Text.fromUTF8_toUTF8, Option.bind_eq_bind,
    Option.bind_some, Text.splitMax_join hfields (by simp) (n := 3) (by simp),
    Text.parseInt_toString, if_pos hgrace]

theorem splitMax_header (token : String) :
    Text.splitMax ' ' 1 (tokenType ++ " " ++ token) = [tokenType, token] := by
  have hlist : (tokenType ++ " " ++ token).toList = tokenType.toList ++ ' ' :: token.toList := by
    simp
  have htype : ' ' ∉ tokenType.toList := by decide
  rw [Text.splitMax, hlist, Text.splitFirst_append htype, Text.splitFirst]
  simp

/-- Whatever the client signs gets as far as the comparison of the signatures. -/
theorem authenticate_auth (hname : ':' ∉ creds.name.toList)
    (hcreds : findCreds creds.name = some creds.registered)
    (hgrace : (now - requestTime).natAbs ≤ graceTimeMillis) :
    authenticate crypto now findCreds (creds.request crypto path method requestTime body) =
      (AuthParts.mk creds.name requestTime
        (creds.sign crypto path method requestTime body)).validate crypto
        (creds.request crypto path method requestTime body) creds.registered := by
  have hsignature : ':' ∉ (creds.sign crypto path method requestTime body).toList :=
    not_mem_hex _
  have hparts := parseAuthParts_token crypto hname hsignature hgrace
  have hheader : getRequiredHeader "Authorization"
      (creds.request crypto path method requestTime body).authorization =
      .ok (creds.auth crypto path method requestTime body) := by
    rw [Client.Credentials.request, getRequiredHeader, if_neg]
    simp [Client.Credentials.auth, Client.Credentials.finishAuth]
  rw [authenticate, hheader]
  simp only [Client.Credentials.auth, Client.Credentials.finishAuth, splitMax_header,
    bind, Except.bind, if_true, hparts, hcreds]

theorem sign_eq (hbody : body ≠ some "") :
    creds.registered.sign crypto method path requestTime body =
      ⟨creds.signingString crypto path method requestTime body,
        creds.sign crypto path method requestTime body⟩ := by
  have hstring : (creds.registered.sign crypto method path requestTime body).signingString =
      creds.signingString crypto path method requestTime body := by
    cases body with
    | none => rfl
    | some body =>
      have hne : body ≠ "" := fun heq => hbody (congrArg some heq)
      simp only [ConfigServiceCredentials.sign, Client.Credentials.signingString, if_pos hne]
      rfl
  rw [Client.Credentials.sign, ← hstring]
  rfl

/-- The service appends a field that the client leaves out. -/
theorem signingString_ne (crypto : Crypto) (creds : Client.Credentials)
    (path method : String) (requestTime : ℤ) :
    (creds.registered.sign crypto method path requestTime (some "")).signingString ≠
      creds.signingString crypto path method requestTime (some "") := by
  intro heq
  have hlength := congrArg String.length heq
  simp only [ConfigServiceCredentials.sign, Client.Credentials.signingString,
    Client.Credentials.registered, ne_eq, not_true_eq_false, if_false,
    String.length_append] at hlength
  have hcolon : ":".length = 1 := rfl
  omega

/-- The two sides agree on a request. -/
structure Agree (crypto : Crypto) (creds : Client.Credentials) (now : ℤ)
    (findCreds : String → Option ConfigServiceCredentials) (path method : String)
    (requestTime : ℤ) (body : Option String) : Prop where
  parsed : ∃ token,
    creds.auth crypto path method requestTime body = tokenType ++ " " ++ token ∧
    parseAuthParts crypto now token =
      some ⟨creds.name, requestTime, creds.sign crypto path method requestTime body⟩
  signed : creds.registered.sign crypto method path requestTime body =
    ⟨creds.signingString crypto path method requestTime body,
      creds.sign crypto path method requestTime body⟩
  accepted : authenticate crypto now findCreds
    (creds.request crypto path method requestTime body) = .ok creds.registered

/-- They do unless the body is there and empty. -/
theorem agree_iff_not_empty (crypto : Crypto) (creds : Client.Credentials) (now : ℤ)
    (findCreds : String → Option ConfigServiceCredentials) (path method : String)
    (requestTime : ℤ) (body : Option String) (hname : ':' ∉ creds.name.toList)
    (hcreds : findCreds creds.name = some creds.registered)
    (hgrace : (now - requestTime).natAbs ≤ graceTimeMillis) :
    Agree crypto creds now findCreds path method requestTime body ↔ body ≠ some "" := by
  constructor
  · rintro h rfl
    exact signingString_ne crypto creds path method requestTime
      (congrArg SignResult.signingString h.signed)
  · intro hbody
    have hsign : creds.registered.sign crypto method path requestTime body =
        ⟨creds.signingString crypto path method requestTime body,
          creds.sign crypto path method requestTime body⟩ := sign_eq hbody
    refine ⟨⟨_, rfl, parseAuthParts_token crypto hname (not_mem_hex _) hgrace⟩, hsign, ?_⟩
    rw [authenticate_auth hname hcreds hgrace, AuthParts.validate]
    simp only [Client.Credentials.request, hsign, if_true]

/-! ### A request recorded with its digests -/

def recordedCreds : Client.Credentials := ⟨"cli", "c1", "secret"⟩

/-- What the client signs when there is no body to hash. -/
def recordedString : String := "cli:c1:/shim-service/start:POST:1700000000000"

/-- The SHA-512 of the empty body. -/
def emptyDigest : ByteArray := ⟨#[
  0xcf, 0x83, 0xe1, 0x35, 0x7e, 0xef, 0xb8, 0xbd, 0xf1, 0x54, 0x28, 0x50, 0xd6, 0x6d, 0x80,
  0x07, 0xd6, 0x20, 0xe4, 0x05, 0x0b, 0x57, 0x15, 0xdc, 0x83, 0xf4, 0xa9, 0x21, 0xd3, 0x6c,
  0xe9, 0xce, 0x47, 0xd0, 0xd1, 0x3c, 0x5d, 0x85, 0xf2, 0xb0, 0xff, 0x83, 0x18, 0xd2, 0x87,
  0x7e, 0xec, 0x2f, 0x63, 0xb9, 0x31, 0xbd, 0x47, 0x41, 0x7a, 0x81, 0xa5, 0x38, 0x32, 0x7a,
  0xf9, 0x27, 0xda, 0x3e]⟩

/-- The HMAC of the recorded string. -/
def clientDigest : ByteArray := ⟨#[
  0x98, 0x40, 0x3f, 0xe6, 0xa7, 0x3a, 0x57, 0x84, 0xef, 0xc4, 0xeb, 0x8c, 0xfb, 0xbb, 0xe0,
  0x83, 0x54, 0x70, 0x7a, 0xcf, 0x1f, 0xe7, 0x65, 0x3f, 0x7a, 0x93, 0x9d, 0xd4, 0xc7, 0x64,
  0x37, 0x03]⟩

/-- The HMAC of the recorded string with the hash of the empty body. -/
def serviceDigest : ByteArray := ⟨#[
  0x44, 0xc3, 0x7b, 0x2f, 0x64, 0x76, 0x42, 0x0b, 0x7a, 0x88, 0x3c, 0xeb, 0x95, 0xd5, 0x7f,
  0x5e, 0x8b, 0x3b, 0x51, 0x53, 0x53, 0x5d, 0x27, 0x60, 0x79, 0xd8, 0x2b, 0x14, 0x00, 0xfc,
  0xb7, 0xc6]⟩

def recordedCrypto : Crypto where
  sha512 _ := emptyDigest
  hmacSha256 _ data := if data = recordedString.toUTF8 then clientDigest else serviceDigest
  base64Encode := Base64.encode
  base64Decode := Base64.decode
  decode_encode := Base64.decode_encode

theorem hmacSha256_client {key : ByteArray} :
    recordedCrypto.hmacSha256 key recordedString.toUTF8 = clientDigest := by
  simp only [recordedCrypto, if_true]

theorem hmacSha256_service {key data : ByteArray} (h : data ≠ recordedString.toUTF8) :
    recordedCrypto.hmacSha256 key data = serviceDigest := by
  simp only [recordedCrypto, if_neg h]

def recordedFind (name : String) : Option ConfigServiceCredentials :=
  if name = "cli" then some recordedCreds.registered else none

theorem recorded_without_body : Agree recordedCrypto recordedCreds 1700000004000 recordedFind
    "/shim-service/start" "POST" 1700000000000 none :=
  (agree_iff_not_empty recordedCrypto recordedCreds 1700000004000 recordedFind
    "/shim-service/start" "POST" 1700000000000 none (by decide) rfl (by decide)).mpr (by decide)

set_option maxRecDepth 4000 in
/-- With an empty body the client is locked out. -/
theorem recorded_empty_body_rejected :
    authenticate recordedCrypto 1700000000000 recordedFind
      (recordedCreds.request recordedCrypto "/shim-service/start" "POST" 1700000000000
        (some "")) = .error (notAuthorizedException "Signature mismatch.") := by
  have hclient : recordedCreds.signingString recordedCrypto "/shim-service/start" "POST"
      1700000000000 (some "") = recordedString := by
    decide
  have hservice : (recordedCreds.registered.sign recordedCrypto "POST" "/shim-service/start"
      1700000000000 (some "")).signature = hex serviceDigest := by
    have hne := signingString_ne recordedCrypto recordedCreds "/shim-service/start" "POST"
      1700000000000
    rw [hclient] at hne
    exact congrArg hex (hmacSha256_service fun heq => hne (String.toByteArray_inj.mp heq))
  have hsigned : recordedCreds.sign recordedCrypto "/shim-service/start" "POST" 1700000000000
      (some "") = hex clientDigest := by
    rw [Client.Credentials.sign, hclient, hmacSha256_client]
  have hdigests : hex serviceDigest ≠ hex clientDigest := by decide
  rw [authenticate_auth (by decide) rfl (by decide), AuthParts.validate]
  simp only [Client.Credentials.request, hservice, hsigned, if_neg hdigests]

end ShimService.Auth
