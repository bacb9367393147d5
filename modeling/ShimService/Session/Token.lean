import ShimService.Web.Parameters

/-! `SessionToken`: the text that names a session to its client, and when it is read back. -/
namespace ShimService

open Auth (LambdaHttpException notAuthorizedException)
open PyValue Web

/-- What `Credentials` does with a text and undoes again. -/
structure Obfuscator where
  obfuscateData : String → String
  clarifyData : String → Option String
  clarify_obfuscate : ∀ data, clarifyData (obfuscateData data) = some data

/-- The digits of a UUID. -/
structure Uuid where
  digits : List (Fin 16)
  length_eq : digits.length = 32

/-- The digits in groups of 8, 4, 4, 4 and 12. -/
def Uuid.toString (uuid : Uuid) : String :=
  let hex := uuid.digits.map fun digit => digit.val.digitChar
  Text.join '-' ([hex.take 8, (hex.drop 8).take 4, (hex.drop 12).take 4, (hex.drop 16).take 4,
    hex.drop 20].map String.ofList)

structure SessionToken where
  tenantId : ℤ
  sessionId : String
  userId : String
  deriving DecidableEq

namespace SessionToken

def serialize (creds : Obfuscator) (token : SessionToken) : String :=
  creds.obfuscateData (Text.join '~' ["e40", toString token.tenantId, token.sessionId,
    token.userId])

/-- Whatever goes wrong, the token is refused. -/
def deserialize (creds : Obfuscator) (token : String) :
    Except LambdaHttpException SessionToken :=
  let read := do
    let data ← creds.clarifyData token
    match Text.split '~' data with
    | [kind, tenantId, sessionId, userId] =>
      if kind = "e40" then
        (Text.parseInt tenantId).map fun tenantId => ⟨tenantId, sessionId, userId⟩
      else none
    | _ => none
  match read with
  | some token => .ok token
  | none => .error (notAuthorizedException "Invalid session token.")

theorem not_mem_uuid (uuid : Uuid) : '~' ∉ uuid.toString.toList := by
  have hdigits : ∀ digit : Fin 16, digit.val.digitChar ≠ '~' := by decide
  refine Text.not_mem_join (fun field hfield => ?_) (by decide)
  obtain ⟨group, hgroup, rfl⟩ := List.mem_map.mp hfield
  rw [String.toList_ofList]
  intro hmem
  have hhex : '~' ∈ uuid.digits.map fun digit => digit.val.digitChar := by
    simp only [List.mem_cons, List.not_mem_nil, or_false] at hgroup
    rcases hgroup with rfl | rfl | rfl | rfl | rfl
    · exact List.mem_of_mem_take hmem
    · exact List.mem_of_mem_drop (List.mem_of_mem_take hmem)
    · exact List.mem_of_mem_drop (List.mem_of_mem_take hmem)
    · exact List.mem_of_mem_drop (List.mem_of_mem_take hmem)
    · exact List.mem_of_mem_drop hmem
  obtain ⟨digit, -, heq⟩ := List.mem_map.mp hhex
  exact hdigits digit heq

/-- The parts before the user id split off; the user id splits further where it has the
delimiter. -/
theorem split_token (tenantId : ℤ) (uuid : Uuid) (userId : String) :
    Text.split '~' (Text.join '~' ["e40", toString tenantId, uuid.toString, userId]) =
      "e40" :: toString tenantId :: uuid.toString :: Text.split '~' userId := by
  have htenant : '~' ∉ (toString tenantId).toList :=
    Text.not_mem_toString_int tenantId (by decide) (by decide)
  rw [Text.split_join_cons (by decide), Text.split_join_cons htenant,
    Text.split_join_cons (not_mem_uuid uuid), Text.join_singleton]

theorem deserialize_accepted (creds : Obfuscator) (tenantId : ℤ) (uuid : Uuid)
    {userId : String} (h : '~' ∉ userId.toList) :
    deserialize creds (serialize creds ⟨tenantId, uuid.toString, userId⟩) =
      .ok ⟨tenantId, uuid.toString, userId⟩ := by
  have hsplit : Text.split '~' userId = [userId] := by
    have hfree : ∀ field ∈ [userId], '~' ∉ field.toList := by simpa using h
    simpa using Text.split_join hfree (by simp)
  simp only [deserialize, serialize, creds.clarify_obfuscate, Option.bind_eq_bind,
    Option.bind_some, split_token, hsplit, if_true, Text.parseInt_toString, Option.map_some]

/-- A delimiter too many, and the token has too many parts. -/
theorem deserialize_refused (creds : Obfuscator) (tenantId : ℤ) (uuid : Uuid)
    {userId : String} (h : '~' ∈ userId.toList) :
    deserialize creds (serialize creds ⟨tenantId, uuid.toString, userId⟩) =
      .error (notAuthorizedException "Invalid session token.") := by
  have hlen := Text.length_split (d := '~') (s := userId)
  have hcount := List.count_pos_iff.mpr h
  match hsplit : Text.split '~' userId with
  | [] | [_] =>
    rw [hsplit] at hlen
    simp only [List.length_nil, List.length_singleton] at hlen
    omega
  | _ :: _ :: _ =>
    simp only [deserialize, serialize, creds.clarify_obfuscate, Option.bind_eq_bind,
      Option.bind_some, split_token, hsplit]

/-- What a request may send as its user id is read back from a token unless it has the
delimiter in it. -/
theorem deserialize_serialize_iff {φ : Type} (creds : Obfuscator) (tenantId : ℕ) (uuid : Uuid)
    (body rest : Dict φ) (userId : String) (_ : getUserId body = .ok (userId, rest)) :
    deserialize creds (serialize creds ⟨tenantId, uuid.toString, userId⟩) =
      .ok ⟨tenantId, uuid.toString, userId⟩ ↔ '~' ∉ userId.toList := by
  constructor
  · intro h hmem
    rw [deserialize_refused creds tenantId uuid hmem] at h
    cases h
  · exact deserialize_accepted creds tenantId uuid

/-- Credentials that leave a text as it is. -/
def plainObfuscator : Obfuscator := ⟨id, some, fun _ => rfl⟩

theorem digits_pos : 0 < 16 := by decide

def zeroUuid : Uuid := ⟨List.replicate 32 ⟨0, digits_pos⟩, rfl⟩

def startSessionBody (userId : String) : Dict Empty := [("userId", .str userId)]

theorem deserialize_plain_user : deserialize plainObfuscator
    (serialize plainObfuscator ⟨7, zeroUuid.toString, "005aaaaaaaaaaaaaaa"⟩) =
      .ok ⟨7, zeroUuid.toString, "005aaaaaaaaaaaaaaa"⟩ :=
  (deserialize_serialize_iff plainObfuscator 7 zeroUuid (startSessionBody "005aaaaaaaaaaaaaaa") []
    "005aaaaaaaaaaaaaaa" rfl).mpr (by decide)

/-- The pattern of a user id is not anchored at its end. -/
theorem accepted_user_has_no_token :
    getUserId (startSessionBody "005aaaaaaaaaaaaaaa~x") = .ok ("005aaaaaaaaaaaaaaa~x", []) ∧
      deserialize plainObfuscator
        (serialize plainObfuscator ⟨7, zeroUuid.toString, "005aaaaaaaaaaaaaaa~x"⟩) ≠
          .ok ⟨7, zeroUuid.toString, "005aaaaaaaaaaaaaaa~x"⟩ := by
  refine ⟨rfl, ?_⟩
  have hdelimiter : '~' ∈ "005aaaaaaaaaaaaaaa~x".toList := by decide
  rw [deserialize_refused plainObfuscator 7 zeroUuid hdelimiter]
  exact nofun

end SessionToken

end ShimService
