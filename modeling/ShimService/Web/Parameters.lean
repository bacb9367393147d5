import ShimService.Auth.Signing
import ShimService.Library.PyValue

/-! The parameters of a request's JSON body, and the user id among them. -/
namespace ShimService.Web

open Auth (LambdaHttpException badRequestException missingParameterException)
open PyValue

/-- An exception with the code that `to_response` puts into its body. -/
structure CodedException extends LambdaHttpException where
  errorCode : Option String := none
  deriving DecidableEq

def CodedException.uncoded (ex : LambdaHttpException) : CodedException := { ex with }

def invalidParameterException (parameter message : String) : CodedException :=
  { badRequestException ("'" ++ parameter ++ "' is invalid: " ++ message) with
    errorCode := some "InvalidParameter" }

/-- The types that a parameter is asked to have. -/
inductive ParameterType
  | str
  | list
  deriving DecidableEq

variable {φ : Type}

/-- `type(v) is expected_type`. -/
def ParameterType.isTypeOf : ParameterType → Value φ → Bool
  | .str, .str _ => true
  | .list, .list _ => true
  | _, _ => false

/-- `get_parameter` with `remove`; a parameter that is null is as good as none. -/
def getParameter (event : Dict φ) (parameterName : String) (expectedType : ParameterType)
    (maxLength : Option ℕ) : Except CodedException (Option (Value φ) × Dict φ) :=
  let (v, event) := pop event parameterName
  match v with
  | none | some .none => .ok (none, event)
  | some v =>
    if expectedType.isTypeOf v then
      match v, maxLength with
      | .str s, some maxLength =>
        if maxLength < s.length then
          .error (invalidParameterException parameterName ("length of " ++ toString s.length ++
            " exceeds maximum allowed of " ++ toString maxLength ++ "."))
        else .ok (some v, event)
      | _, _ => .ok (some v, event)
    else .error (invalidParameterException parameterName "invalid type.")

def getRequiredParameter (event : Dict φ) (parameterName : String) (expectedType : ParameterType)
    (maxLength : Option ℕ) : Except CodedException (Value φ × Dict φ) := do
  let (v, event) ← getParameter event parameterName expectedType maxLength
  match v with
  | none => .error (.uncoded (missingParameterException parameterName "parameter"))
  | some (.str "") =>
    .error (.uncoded (badRequestException ("'" ++ parameterName ++ "' cannot be empty.")))
  | some v => .ok (v, event)

/-- A compiled pattern, with what `re.match` says of a text. -/
structure Regex where
  pattern : String
  isMatch : String → Bool

/-- Nothing is asked of what follows the eighteenth character. -/
def userIdRegex : Regex where
  pattern := "^005[a-zA-Z0-9]{15,18}"
  isMatch value := "005".toList.isPrefixOf value.toList &&
    15 ≤ ((value.toList.drop 3).takeWhile Char.isAlphanum).length

def getWithRegex (body : Dict φ) (key : String) (regex : Regex) (maxLength : Option ℕ) :
    Except CodedException (String × Dict φ) := do
  let (value, body) ← getRequiredParameter body key .str none
  match value with
  | .str value =>
    if regex.isMatch value then
      match maxLength with
      | some maxLength =>
        if maxLength < value.length then
          .error (invalidParameterException key ("value '" ++ value ++
            "' exceeds the maximum allowed size of " ++ toString maxLength ++ "."))
        else .ok (value, body)
      | none => .ok (value, body)
    else .error (invalidParameterException key ("value '" ++ value ++
      "' is malformed - regex='" ++ regex.pattern ++ "'."))
  -- The type has been checked.
  | _ => .error (invalidParameterException key "invalid type.")

def getUserId (body : Dict φ) : Except CodedException (String × Dict φ) :=
  getWithRegex body "userId" userIdRegex none

end ShimService.Web
