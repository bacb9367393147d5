import ShimService.Library.Text

/-!
How the command-line client signs a request and how the service checks the signature. The two are
written in different languages, and each builds the string to be signed by itself.
-/
namespace ShimService.Auth

/-- What both sides take from their libraries. -/
structure Crypto where
  sha512 : ByteArray → ByteArray
  hmacSha256 : (key data : ByteArray) → ByteArray
  base64Encode : ByteArray → String
  base64Decode : String → Option ByteArray
  decode_encode : ∀ data, base64Decode (base64Encode data) = some data

/-- Two lower case digits for each byte. -/
def hex (data : ByteArray) : String :=
  String.ofList (data.data.toList.flatMap fun byte =>
    [Nat.digitChar (byte.toNat / 16), Nat.digitChar (byte.toNat % 16)])

def tokenType : String := "1440-HMAC-SHA256-A"

/-! ### The client -/
namespace Client

structure Credentials where
  name : String
  clientId : String
  password : String

namespace Credentials

variable (crypto : Crypto) (creds : Credentials)

def secretBytes : ByteArray := creds.password.toUTF8

/-- The hash of a body that is there and not empty is a field of its own. -/
def signingString (path method : String) (requestTime : ℤ) (body : Option String) : String :=
  let sig := Text.join ':' [creds.name, creds.clientId, path, method, toString requestTime]
  match body with
  | some body => if body ≠ "" then sig ++ ":" ++ hex (crypto.sha512 body.toUTF8) else sig
  | none => sig

def sign (path method : String) (requestTime : ℤ) (body : Option String) : String :=
  hex (crypto.hmacSha256 creds.secretBytes
    (creds.signingString crypto path method requestTime body).toUTF8)

/-- The `Authorization` header. -/
def finishAuth (signature : String) (requestTime : ℤ) : String :=
  let signingString := Text.join ':' [creds.name, toString requestTime, signature]
  tokenType ++ " " ++ crypto.base64Encode signingString.toUTF8

def auth (path method : String) (requestTime : ℤ) (body : Option String) : String :=
  creds.finishAuth crypto (creds.sign crypto path method requestTime body) requestTime

end Credentials
end Client

/-! ### The service -/

structure ConfigServiceCredentials where
  name : String
  clientId : String
  passwordBytes : ByteArray

structure SignResult where
  signingString : String
  signature : String

/-- A body that is there has its hash signed, also when it is empty. -/
def ConfigServiceCredentials.sign (crypto : Crypto) (creds : ConfigServiceCredentials)
    (method path : String) (requestTime : ℤ) (body : Option String) : SignResult :=
  let sig := Text.join ':' [creds.name, creds.clientId, path, method, toString requestTime]
  let sig :=
    match body with
    | some body => sig ++ ":" ++ hex (crypto.sha512 body.toUTF8)
    | none => sig
  ⟨sig, hex (crypto.hmacSha256 creds.passwordBytes sig.toUTF8)⟩

structure LambdaHttpRequest where
  method : String
  path : String
  body : Option String
  authorization : Option String

structure LambdaHttpException where
  statusCode : ℕ
  message : String
  deriving DecidableEq

def badRequestException (message : String) : LambdaHttpException := ⟨400, message⟩

def missingParameterException (parameter parameterType : String) : LambdaHttpException :=
  badRequestException ("Missing " ++ parameterType ++ " '" ++ parameter ++ "'.")

def notAuthorizedException (message : String) : LambdaHttpException :=
  ⟨401, "Not Authorized: " ++ message⟩

def graceTimeMillis : ℕ := 5555

structure AuthParts where
  name : String
  requestTime : ℤ
  signature : String
  deriving DecidableEq

/-- `now` is the service's clock. -/
def parseAuthParts (crypto : Crypto) (now : ℤ) (token : String) : Option AuthParts := do
  let data ← crypto.base64Decode token
  let decoded ← String.fromUTF8? data
  match Text.splitMax ':' 3 decoded with
  | [name, time, signature] =>
    let requestTime ← Text.parseInt time
    if (now - requestTime).natAbs ≤ graceTimeMillis then some ⟨name, requestTime, signature⟩
    else none
  | _ => none

/-- The credentials that the request is given. -/
def AuthParts.validate (crypto : Crypto) (parts : AuthParts) (request : LambdaHttpRequest)
    (creds : ConfigServiceCredentials) : Except LambdaHttpException ConfigServiceCredentials :=
  let result := creds.sign crypto request.method request.path parts.requestTime request.body
  if result.signature = parts.signature then .ok creds
  else .error (notAuthorizedException "Signature mismatch.")

def getRequiredHeader (name : String) (header : Option String) :
    Except LambdaHttpException String :=
  match header with
  | none => .error (missingParameterException name "header")
  | some value =>
    if value = "" then .error (badRequestException ("'" ++ name ++ "' cannot be empty."))
    else .ok value

/-- `authenticate` up to the check of the session, which not every route has; `findCreds` is the
cache of credentials in front of the admin service. -/
def authenticate (crypto : Crypto) (now : ℤ)
    (findCreds : String → Option ConfigServiceCredentials) (request : LambdaHttpRequest) :
    Except LambdaHttpException ConfigServiceCredentials := do
  let header ← getRequiredHeader "Authorization" request.authorization
  match Text.splitMax ' ' 1 header with
  | [type, token] =>
    if type = tokenType then
      match parseAuthParts crypto now token with
      | some parts =>
        match findCreds parts.name with
        | some creds => parts.validate crypto request creds
        | none => .error (notAuthorizedException
            ("Unable to find '" ++ parts.name ++ "' credentials."))
      | none => .error (badRequestException "Invalid Authorization header.")
    else .error (badRequestException "Invalid Authorization header.")
  | _ => .error (badRequestException "Invalid Authorization header.")

end ShimService.Auth
