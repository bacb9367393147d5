import ShimService.Library.Fields
import ShimService.Library.OrderedDict
import ShimService.Session.Channels
import ShimService.Web.Parameters

/-!
The bodies of the requests. A body transformer takes the properties it knows out of the JSON record
and refuses the record when any are left.
-/
namespace ShimService.Web.RequestBody

open Auth (LambdaHttpException badRequestException missingParameterException)
open PyValue

variable {φ α : Type}

/-- What a body transformer raises. -/
inductive BodyError where
  | coded (ex : CodedException)
  | attributeError
  | typeError
  deriving DecidableEq

def coded (x : Except CodedException α) : Except BodyError α := x.mapError .coded

/-- What the transformers take from the libraries: `json.loads`, the scheme that `urlparse` finds,
and the order in which the set of some values is iterated. -/
structure Library (φ : Type) where
  loads : String → Option (Value φ)
  urlScheme : String → Option String
  setOf : List (Value φ) → List (Value φ)

/-! ### The parameters -/

/-- The characters that `str.isspace` accepts. -/
def isSpace (c : Char) : Bool :=
  (0x09 ≤ c.toNat && c.toNat ≤ 0x0D) || (0x1C ≤ c.toNat && c.toNat ≤ 0x20) || c.toNat = 0x85 ||
    c.toNat = 0xA0 || c.toNat = 0x1680 || (0x2000 ≤ c.toNat && c.toNat ≤ 0x200A) ||
    c.toNat = 0x2028 || c.toNat = 0x2029 || c.toNat = 0x202F || c.toNat = 0x205F ||
    c.toNat = 0x3000

def strip (s : String) : String :=
  String.ofList ((s.toList.dropWhile isSpace).reverse.dropWhile isSpace).reverse

/-- Of a parameter whose type is `str`; a missing or null one has no value. -/
def requiredText (parameterName : String) (emptyOk : Bool) :
    Option (Value φ) → Except CodedException String
  | some (.str s) =>
    if emptyOk = false ∧ s.length = 0 then
      .error (.uncoded (badRequestException ("'" ++ parameterName ++ "' cannot be empty.")))
    else .ok s
  | _ => .error (.uncoded (missingParameterException parameterName "parameter"))

/-- `get_required_parameter` for a `str`, with `remove`. -/
def getRequiredText (event : Dict φ) (parameterName : String) (emptyOk : Bool)
    (maxLength : Option ℕ) : Except CodedException (String × Dict φ) := do
  let (v, event) ← getParameter event parameterName .str maxLength
  let s ← requiredText parameterName emptyOk v
  return (s, event)

/-- The part of `get_parameter` for a `str` and `none_if_empty`: the text is stripped before its
length is looked at. -/
def noneIfEmpty (parameterName : String) (maxLength : Option ℕ) :
    Option (Value φ) → Except CodedException (Option String)
  | some (.str s) =>
    let s := strip s
    if s.length = 0 then .ok none
    else
      match maxLength with
      | some maxLength =>
        if maxLength < s.length then
          .error (invalidParameterException parameterName ("length of " ++ toString s.length ++
            " exceeds maximum allowed of " ++ toString maxLength ++ "."))
        else .ok (some s)
      | none => .ok (some s)
  | _ => .ok none

/-- `get_parameter` for a `str`, with `remove` and `none_if_empty`. -/
def getTextNoneIfEmpty (event : Dict φ) (parameterName : String) (maxLength : Option ℕ) :
    Except CodedException (Option String × Dict φ) := do
  let (v, event) ← getParameter event parameterName .str none
  let s ← noneIfEmpty parameterName maxLength v
  return (s, event)

def asList : Option (Value φ) → Option (List (Value φ))
  | some (.list values) => some values
  | _ => none

/-- `get_parameter` for a `list`, with `remove`. -/
def getList (event : Dict φ) (parameterName : String) :
    Except CodedException (Option (List (Value φ)) × Dict φ) := do
  let (v, event) ← getParameter event parameterName .list none
  return (asList v, event)

def requiredList (parameterName : String) :
    Option (Value φ) → Except CodedException (List (Value φ))
  | some (.list values) => .ok values
  | _ => .error (.uncoded (missingParameterException parameterName "parameter"))

/-- `get_required_parameter` for a `list`, with `remove`. -/
def getRequiredList (event : Dict φ) (parameterName : String) :
    Except CodedException (List (Value φ) × Dict φ) := do
  let (v, event) ← getParameter event parameterName .list none
  let values ← requiredList parameterName v
  return (values, event)

/-! ### `validation_utils` -/

def workIdRegex : Regex where
  pattern := "^0Bz[a-zA-Z0-9]{12,15}"
  isMatch value := "0Bz".toList.isPrefixOf value.toList &&
    12 ≤ ((value.toList.drop 3).takeWhile Char.isAlphanum).length

def getWorkId (body : Dict φ) : Except CodedException (String × Dict φ) :=
  getWithRegex body "workId" workIdRegex none

def validateWorkTargetId (value key : String) (inPath : Bool) : Except CodedException Unit :=
  if value.length ≠ 15 ∧ value.length ≠ 18 then
    if inPath then
      .error (.uncoded ⟨404, "Resource Not Found: Unable to find specified workTargetId."⟩)
    else
      .error (invalidParameterException key ("value '" ++ value ++ "' has invalid length of " ++
        toString value.length ++ ", must be 15 or 18."))
  else .ok ()

def getWorkTargetId (body : Dict φ) : Except CodedException (String × Dict φ) := do
  let (value, body) ← getRequiredText body "workTargetId" false none
  validateWorkTargetId value "workTargetId" false
  return (value, body)

/-- The scheme has to be `https`, and `urlparse` must not raise. -/
def checkUrl (lib : Library φ) (key url : String) : Except CodedException Unit :=
  match lib.urlScheme url with
  | none =>
    .error (.uncoded (badRequestException (key ++ " value of '" ++ url ++ "' is not a valid URL.")))
  | some scheme =>
    if scheme ≠ "https" then
      .error (.uncoded
        (badRequestException (key ++ ": Only URLs with https are allowed. URL is " ++ url)))
    else .ok ()

def getUrl (lib : Library φ) (body : Dict φ) (key : String) :
    Except CodedException (String × Dict φ) := do
  let (url, body) ← getRequiredText body key false none
  checkUrl lib key url
  return (url, body)

/-! ### The elements of lists -/

structure MessageAttachment where
  key : String
  value : String
  deriving DecidableEq

/-- What is wrong with an element, or the attachment. -/
def transformAttachment : Value φ → Except String MessageAttachment
  | .dict a =>
    match a.lookup "key" with
    | none | some .none => .error "Missing 'key'."
    | some (.str key) =>
      match a.lookup "value" with
      | none | some .none => .error "Missing 'value'."
      | some (.str value) => .ok ⟨key, value⟩
      | some _ => .error "'value' must be a string."
    | some _ => .error "'key' must be a string."
  | _ => .error "invalid type."

def attachmentsFrom (index : ℕ) : List (Value φ) → Except CodedException (List MessageAttachment)
  | [] => .ok []
  | a :: rest =>
    match transformAttachment a with
    | .error errorText =>
      .error (invalidParameterException ("attachments[" ++ toString index ++ "]") errorText)
    | .ok attachment => (attachmentsFrom (index + 1) rest).map (attachment :: ·)

def transformAttachments :
    Option (List (Value φ)) → Except CodedException (Option (List MessageAttachment))
  | none => .ok none
  | some attachmentList => do
    let results ← attachmentsFrom 0 attachmentList
    return if results.length > 0 then some results else none

/-- A list or a dictionary has no hash. -/
def hashable : Value φ → Bool
  | .list _ | .dict _ => false
  | _ => true

/-- `filter` with `assert_valid_platform_channel`; only a `str` has a `lower`. -/
def filterChannels : List (Value φ) → Except BodyError (List String)
  | [] => .ok []
  | .str name :: rest =>
    match assertValidPlatformChannel name with
    | .error ex => .error (.coded (.uncoded ex))
    | .ok keep => (filterChannels rest).map fun names => if keep then name :: names else names
  | _ :: _ => .error .attributeError

/-- `_extract_platform_channel_types`. -/
def extractChannels (lib : Library φ) (source : List (Value φ)) :
    Except BodyError (List String) :=
  if source.length = 0 then
    .error (.coded (.uncoded (badRequestException "Need at least one channelPlatformType.")))
  else if source.all hashable then filterChannels (lib.setOf source)
  else .error .typeError

/-! ### The bodies -/

/-- What the transformers build. -/
inductive Body where
  | setPresence (statusId : String)
  | acceptWork (workId workTargetId : String)
  | declineWork (workId workTargetId : String) (declineReason : Option String)
  | closeWork (workTargetId : String)
  | message (workTargetId messageId : String) (messageBody : Option String)
      (attachments : Option (List MessageAttachment))
  | session (userId instanceUrl fcmDeviceToken accessToken : String)
      (channelPlatformTypes : List String)
  deriving DecidableEq

abbrev Parser (φ : Type) := Fields.Parser String (Value φ) BodyError Body

def setPresenceFields : Parser φ := fun record => do
  let (statusId, record) ← coded (getRequiredText record "id" true none)
  .ok (.setPresence statusId, record)

def acceptWorkFields : Parser φ := fun record => do
  let (workId, record) ← coded (getWorkId record)
  let (workTargetId, record) ← coded (getWorkTargetId record)
  .ok (.acceptWork workId workTargetId, record)

def declineWorkFields : Parser φ := fun record => do
  let (workId, record) ← coded (getWorkId record)
  let (workTargetId, record) ← coded (getWorkTargetId record)
  let (declineReason, record) ← coded (getTextNoneIfEmpty record "declineReason" (some 250))
  .ok (.declineWork workId workTargetId declineReason, record)

def closeWorkFields : Parser φ := fun record => do
  let (workTargetId, record) ← coded (getWorkTargetId record)
  .ok (.closeWork workTargetId, record)

def messageFields (workTargetId : String) : Parser φ := fun body => do
  let (messageId, body) ← coded (getRequiredText body "id" false none)
  let (messageBody, body) ← coded (getTextNoneIfEmpty body "messageBody" none)
  let (attachments, body) ← coded (getList body "attachments")
  let attachments ← coded (transformAttachments attachments)
  .ok (.message workTargetId messageId messageBody attachments, body)

def sessionFields (lib : Library φ) : Parser φ := fun body => do
  let (userId, body) ← coded (getUserId body)
  let (instanceUrl, body) ← coded (getUrl lib body "instanceUrl")
  let (fcmDeviceToken, body) ← coded (getRequiredText body "fcmDeviceToken" false (some 2048))
  let (accessToken, body) ← coded (getRequiredText body "accessToken" false (some 4096))
  let (platformChannels, body) ← coded (getRequiredList body "channelPlatformTypes")
  let platformChannels ← extractChannels lib platformChannels
  .ok (.session userId instanceUrl fcmDeviceToken accessToken platformChannels, body)

/-- The exception of `assert_empty`. -/
def unrecognized (names : List String) : BodyError :=
  .coded (.uncoded (badRequestException
    ("The following properties are not recognized: " ++ Text.join ',' names ++ ".")))

/-- The `body` of an event. -/
inductive EventBody (φ : Type) where
  | none
  | text (data : String)
  | record (data : Dict φ)

def fromJson (lib : Library φ) : EventBody φ → Except BodyError (Value φ)
  | .record data => .ok (.dict data)
  | .none => .error (.coded (.uncoded (badRequestException "Malformed JSON.")))
  | .text data =>
    match lib.loads data with
    | some v => .ok v
    | none => .error (.coded (.uncoded (badRequestException "Malformed JSON.")))

/-- What the first `pop` raises on a value that is no dictionary. -/
def asRecord : Value φ → Except BodyError (Dict φ)
  | .dict record => .ok record
  | .list _ => .error .typeError
  | _ => .error .attributeError

/-- The body transformers of the routes, and `__build_session` up to the tenant. -/
inductive Transformer where
  | setPresenceBody
  | acceptWorkBody
  | declineWorkBody
  | closeWorkBody
  | messageBody
  | buildSession
  deriving DecidableEq

/-- What is done before the body is read: the variable in the path of a message is checked. -/
def fieldsOf (lib : Library φ) (params : OrderedDict String String) :
    Transformer → Except BodyError (Parser φ)
  | .setPresenceBody => .ok setPresenceFields
  | .acceptWorkBody => .ok acceptWorkFields
  | .declineWorkBody => .ok declineWorkFields
  | .closeWorkBody => .ok closeWorkFields
  | .messageBody =>
    match params.find "workTargetId" with
    | none => .error .typeError
    | some workTargetId => do
      coded (validateWorkTargetId workTargetId "workTargetId" true)
      return messageFields workTargetId
  | .buildSession => .ok (sessionFields lib)

/-- A message has to say something. -/
def finish : Body → Except BodyError Body
  | .message _ _ none none =>
    .error (.coded (.uncoded
      (badRequestException "Either messageBody or attachments must be specified.")))
  | body => .ok body

def transform (lib : Library φ) (transformer : Transformer) (params : OrderedDict String String)
    (body : EventBody φ) : Except BodyError Body := do
  let fields ← fieldsOf lib params transformer
  let record ← asRecord (← fromJson lib body)
  finish (← Fields.closed fields unrecognized record)

end ShimService.Web.RequestBody
