import ShimService.Web.BodyValues

/-!
Which bodies the transformers accept: the records with the properties of the body, good values for
them and nothing else, in any order.
-/
namespace ShimService.Web.RequestBody

open PyValue
open Fields (Takes valueOf closed bind_eq_ok_iff mapError_eq_ok_iff)

variable {φ : Type} {lib : Library φ} {record : Dict φ}

/-! ### The bodies -/

/-- There are no other properties. -/
def Only (names : List String) (record : Dict φ) : Prop := ∀ entry ∈ record, entry.1 ∈ names

/-- The properties that a record has where a body is made of it. -/
def Body.DescribedBy (lib : Library φ) (params : OrderedDict String String) (record : Dict φ) :
    Body → Prop
  | .setPresence statusId => valueOf record "id" = some (.str statusId) ∧ Only ["id"] record
  | .acceptWork workId workTargetId =>
    valueOf record "workId" = some (.str workId) ∧ workIdRegex.isMatch workId = true ∧
      valueOf record "workTargetId" = some (.str workTargetId) ∧
      (workTargetId.length = 15 ∨ workTargetId.length = 18) ∧
      Only ["workId", "workTargetId"] record
  | .declineWork workId workTargetId declineReason =>
    valueOf record "workId" = some (.str workId) ∧ workIdRegex.isMatch workId = true ∧
      valueOf record "workTargetId" = some (.str workTargetId) ∧
      (workTargetId.length = 15 ∨ workTargetId.length = 18) ∧
      Trimmed (some 250) (valueOf record "declineReason") declineReason ∧
      Only ["workId", "workTargetId", "declineReason"] record
  | .closeWork workTargetId =>
    valueOf record "workTargetId" = some (.str workTargetId) ∧
      (workTargetId.length = 15 ∨ workTargetId.length = 18) ∧ Only ["workTargetId"] record
  | .message workTargetId messageId messageBody attachments =>
    params.find "workTargetId" = some workTargetId ∧
      (workTargetId.length = 15 ∨ workTargetId.length = 18) ∧
      valueOf record "id" = some (.str messageId) ∧ messageId ≠ "" ∧
      Trimmed none (valueOf record "messageBody") messageBody ∧
      Attached (valueOf record "attachments") attachments ∧
      (messageBody ≠ none ∨ attachments ≠ none) ∧
      Only ["id", "messageBody", "attachments"] record
  | .session userId instanceUrl fcmDeviceToken accessToken channelPlatformTypes =>
    valueOf record "userId" = some (.str userId) ∧ userIdRegex.isMatch userId = true ∧
      valueOf record "instanceUrl" = some (.str instanceUrl) ∧ instanceUrl ≠ "" ∧
      lib.urlScheme instanceUrl = some "https" ∧
      valueOf record "fcmDeviceToken" = some (.str fcmDeviceToken) ∧ fcmDeviceToken ≠ "" ∧
      fcmDeviceToken.length ≤ 2048 ∧
      valueOf record "accessToken" = some (.str accessToken) ∧ accessToken ≠ "" ∧
      accessToken.length ≤ 4096 ∧
      (∃ source, valueOf record "channelPlatformTypes" = some (.list source) ∧
        ChannelList lib source channelPlatformTypes) ∧
      Only ["userId", "instanceUrl", "fcmDeviceToken", "accessToken", "channelPlatformTypes"] record

/-- The transformer that builds a body. -/
def Body.transformer : Body → Transformer
  | .setPresence _ => .setPresenceBody
  | .acceptWork .. => .acceptWorkBody
  | .declineWork .. => .declineWorkBody
  | .closeWork _ => .closeWorkBody
  | .message .. => .messageBody
  | .session .. => .buildSession

/-! ### What the parsers take -/

theorem coded_eq_ok_iff {α : Type} {x : Except CodedException α} {a : α} :
    coded x = .ok a ↔ x = .ok a := mapError_eq_ok_iff

theorem takes_coded {α : Type} {p : Dict φ → Except CodedException (α × Dict φ)}
    {names : List String} {check : (String → Option (Value φ)) → Except CodedException α}
    (hp : Takes p names check) :
    Takes (fun record => coded (p record)) names fun f => coded (check f) :=
  hp.mapError BodyError.coded

theorem takes_setPresenceFields : Takes (setPresenceFields (φ := φ)) ["id"] (fun f => do
    let statusId ← coded (textValue "id" true none (f "id"))
    .ok (.setPresence statusId)) :=
  (takes_coded takes_getRequiredText).bind (fun _ => .pure) (by simp)

theorem takes_acceptWorkFields :
    Takes (acceptWorkFields (φ := φ)) ["workId", "workTargetId"] (fun f => do
      let workId ← coded (regexValue "workId" workIdRegex (f "workId"))
      let workTargetId ← coded (targetValue (f "workTargetId"))
      .ok (.acceptWork workId workTargetId)) :=
  (takes_coded takes_getWithRegex).bind
    (fun _ => (takes_coded takes_getWorkTargetId).bind (fun _ => .pure) (by simp)) (by simp)

theorem takes_declineWorkFields :
    Takes (declineWorkFields (φ := φ)) ["workId", "workTargetId", "declineReason"] (fun f => do
      let workId ← coded (regexValue "workId" workIdRegex (f "workId"))
      let workTargetId ← coded (targetValue (f "workTargetId"))
      let declineReason ← coded (trimmedValue "declineReason" (some 250) (f "declineReason"))
      .ok (.declineWork workId workTargetId declineReason)) :=
  (takes_coded takes_getWithRegex).bind (fun _ => (takes_coded takes_getWorkTargetId).bind
    (fun _ => (takes_coded takes_getTextNoneIfEmpty).bind (fun _ => .pure) (by simp)) (by simp))
    (by simp)

theorem takes_closeWorkFields :
    Takes (closeWorkFields (φ := φ)) ["workTargetId"] (fun f => do
      let workTargetId ← coded (targetValue (f "workTargetId"))
      .ok (.closeWork workTargetId)) :=
  (takes_coded takes_getWorkTargetId).bind (fun _ => .pure) (by simp)

theorem takes_messageFields {workTargetId : String} :
    Takes (messageFields (φ := φ) workTargetId) ["id", "messageBody", "attachments"] (fun f => do
      let messageId ← coded (textValue "id" false none (f "id"))
      let messageBody ← coded (trimmedValue "messageBody" none (f "messageBody"))
      let attachments ← coded (listValue "attachments" (f "attachments"))
      let attachments ← coded (transformAttachments attachments)
      .ok (.message workTargetId messageId messageBody attachments)) := by
  have hid : Takes (fun body : Dict φ => coded (getRequiredText body "id" false none)) ["id"] _ :=
    takes_coded takes_getRequiredText
  have hbody : Takes (fun body : Dict φ => coded (getTextNoneIfEmpty body "messageBody" none))
      ["messageBody"] _ := takes_coded takes_getTextNoneIfEmpty
  have hattachments : Takes (fun body : Dict φ => coded (getList body "attachments"))
      ["attachments"] _ := takes_coded takes_getList
  have hmessage (messageId : String) (messageBody : Option String)
      (attachments : Option (List (Value φ))) :
      Takes (fun body : Dict φ => do
        let attachments ← coded (transformAttachments attachments)
        .ok (Body.message workTargetId messageId messageBody attachments, body)) [] _ :=
    .after fun _ => .pure
  exact hid.bind (fun messageId => hbody.bind (fun messageBody =>
    hattachments.bind (hmessage messageId messageBody) (by simp)) (by simp)) (by simp)

theorem takes_sessionFields : Takes (sessionFields lib)
    ["userId", "instanceUrl", "fcmDeviceToken", "accessToken", "channelPlatformTypes"]
    (fun f => do
      let userId ← coded (regexValue "userId" userIdRegex (f "userId"))
      let instanceUrl ← coded (urlValue lib "instanceUrl" (f "instanceUrl"))
      let fcmDeviceToken ←
        coded (textValue "fcmDeviceToken" false (some 2048) (f "fcmDeviceToken"))
      let accessToken ← coded (textValue "accessToken" false (some 4096) (f "accessToken"))
      let platformChannels ←
        coded (requiredListValue "channelPlatformTypes" (f "channelPlatformTypes"))
      let platformChannels ← extractChannels lib platformChannels
      .ok (.session userId instanceUrl fcmDeviceToken accessToken platformChannels)) := by
  have huser : Takes (fun body : Dict φ => coded (getUserId body)) ["userId"] _ :=
    takes_coded takes_getWithRegex
  have hurl : Takes (fun body => coded (getUrl lib body "instanceUrl")) ["instanceUrl"] _ :=
    takes_coded takes_getUrl
  have htoken (name : String) (maxLength : ℕ) :
      Takes (fun body : Dict φ => coded (getRequiredText body name false (some maxLength)))
        [name] _ := takes_coded takes_getRequiredText
  have hchannels : Takes (fun body : Dict φ => coded (getRequiredList body "channelPlatformTypes"))
      ["channelPlatformTypes"] _ := takes_coded takes_getRequiredList
  have hsession (userId instanceUrl fcmDeviceToken accessToken : String)
      (source : List (Value φ)) : Takes (fun body : Dict φ => do
        let names ← extractChannels lib source
        .ok (Body.session userId instanceUrl fcmDeviceToken accessToken names, body)) [] _ :=
    .after fun _ => .pure
  exact huser.bind (fun userId => hurl.bind (fun instanceUrl =>
    (htoken "fcmDeviceToken" 2048).bind (fun fcmDeviceToken =>
      (htoken "accessToken" 4096).bind (fun accessToken =>
        hchannels.bind (hsession userId instanceUrl fcmDeviceToken accessToken)
          (by simp)) (by simp)) (by simp)) (by simp)) (by simp)

/-! ### Which bodies are accepted -/

variable {params : OrderedDict String String} {b : Body} {workTargetId : String}

theorem closed_setPresenceFields_iff :
    closed setPresenceFields unrecognized record = .ok b ↔
      b.transformer = .setPresenceBody ∧ b.DescribedBy lib params record := by
  simp only [takes_setPresenceFields.closed_eq_ok_iff, bind_eq_ok_iff, coded_eq_ok_iff,
    textValue_eq_ok_iff, Except.ok.injEq]
  constructor
  · rintro ⟨⟨statusId, ⟨hid, -⟩, rfl⟩, honly⟩
    exact ⟨rfl, hid, honly⟩
  · cases b with
    | setPresence statusId =>
      rintro ⟨-, hid, honly⟩
      exact ⟨⟨statusId, ⟨hid, by simp⟩, rfl⟩, honly⟩
    | _ => simp [Body.transformer]

theorem closed_acceptWorkFields_iff :
    closed acceptWorkFields unrecognized record = .ok b ↔
      b.transformer = .acceptWorkBody ∧ b.DescribedBy lib params record := by
  simp only [takes_acceptWorkFields.closed_eq_ok_iff, bind_eq_ok_iff, coded_eq_ok_iff,
    regexValue_eq_ok_iff workIdRegex_empty, targetValue_eq_ok_iff, Except.ok.injEq]
  constructor
  · rintro ⟨⟨workId, ⟨hwork, hmatch⟩, target, ⟨htarget, hlength⟩, rfl⟩, honly⟩
    exact ⟨rfl, hwork, hmatch, htarget, hlength, honly⟩
  · cases b with
    | acceptWork workId target =>
      rintro ⟨-, hwork, hmatch, htarget, hlength, honly⟩
      exact ⟨⟨workId, ⟨hwork, hmatch⟩, target, ⟨htarget, hlength⟩, rfl⟩, honly⟩
    | _ => simp [Body.transformer]

theorem closed_declineWorkFields_iff :
    closed declineWorkFields unrecognized record = .ok b ↔
      b.transformer = .declineWorkBody ∧ b.DescribedBy lib params record := by
  simp only [takes_declineWorkFields.closed_eq_ok_iff, bind_eq_ok_iff, coded_eq_ok_iff,
    regexValue_eq_ok_iff workIdRegex_empty, targetValue_eq_ok_iff, trimmedValue_eq_ok_iff,
    Except.ok.injEq]
  constructor
  · rintro ⟨⟨workId, ⟨hwork, hmatch⟩, target, ⟨htarget, hlength⟩, reason, hreason, rfl⟩, honly⟩
    exact ⟨rfl, hwork, hmatch, htarget, hlength, hreason, honly⟩
  · cases b with
    | declineWork workId target reason =>
      rintro ⟨-, hwork, hmatch, htarget, hlength, hreason, honly⟩
      exact ⟨⟨workId, ⟨hwork, hmatch⟩, target, ⟨htarget, hlength⟩, reason, hreason, rfl⟩, honly⟩
    | _ => simp [Body.transformer]

theorem closed_closeWorkFields_iff :
    closed closeWorkFields unrecognized record = .ok b ↔
      b.transformer = .closeWorkBody ∧ b.DescribedBy lib params record := by
  simp only [takes_closeWorkFields.closed_eq_ok_iff, bind_eq_ok_iff, coded_eq_ok_iff,
    targetValue_eq_ok_iff, Except.ok.injEq]
  constructor
  · rintro ⟨⟨target, ⟨htarget, hlength⟩, rfl⟩, honly⟩
    exact ⟨rfl, htarget, hlength, honly⟩
  · cases b with
    | closeWork target =>
      rintro ⟨-, htarget, hlength, honly⟩
      exact ⟨⟨target, ⟨htarget, hlength⟩, rfl⟩, honly⟩
    | _ => simp [Body.transformer]

theorem finish_eq_ok_iff {b' : Body} : finish b' = .ok b ↔ b' = b ∧
    ∀ target messageId, b ≠ .message target messageId none none := by
  unfold finish
  split
  · simp only [reduceCtorEq, false_iff, not_and, not_forall, not_not]
    rintro rfl
    exact ⟨_, _, rfl⟩
  · rename_i hsays
    simp only [Except.ok.injEq]
    exact ⟨fun h => ⟨h, h ▸ fun target messageId => hsays target messageId⟩, And.left⟩

/-- What the parser of a message leaves to `finish` and to the check of the path. -/
theorem closed_messageFields_iff : closed (messageFields workTargetId) unrecognized record = .ok b ↔
    ∃ messageId messageBody attachments,
      b = .message workTargetId messageId messageBody attachments ∧
      (valueOf record "id" = some (.str messageId) ∧ messageId ≠ "") ∧
      Trimmed none (valueOf record "messageBody") messageBody ∧
      Attached (valueOf record "attachments") attachments ∧
      Only ["id", "messageBody", "attachments"] record := by
  simp only [takes_messageFields.closed_eq_ok_iff, bind_eq_ok_iff, coded_eq_ok_iff,
    textValue_eq_ok_iff, trimmedValue_eq_ok_iff, listValue_eq_ok_iff, Except.ok.injEq]
  constructor
  · rintro ⟨⟨messageId, ⟨hid, hne, -⟩, messageBody, hbody, l, hl, attachments, hattached, rfl⟩,
      honly⟩
    exact ⟨messageId, messageBody, attachments, rfl, ⟨hid, hne trivial⟩, hbody,
      (transformAttachments_eq_ok_iff hl).mp hattached, honly⟩
  · rintro ⟨messageId, messageBody, attachments, rfl, ⟨hid, hne⟩, hbody, hattached, honly⟩
    obtain ⟨l, hl⟩ := hattached.listed
    exact ⟨⟨messageId, ⟨hid, fun _ => hne, by simp⟩, messageBody, hbody, l, hl, attachments,
      (transformAttachments_eq_ok_iff hl).mpr hattached, rfl⟩, honly⟩

theorem closed_sessionFields_iff :
    closed (sessionFields lib) unrecognized record = .ok b ↔
      b.transformer = .buildSession ∧ b.DescribedBy lib params record := by
  simp only [takes_sessionFields.closed_eq_ok_iff, bind_eq_ok_iff, coded_eq_ok_iff,
    regexValue_eq_ok_iff userIdRegex_empty, urlValue_eq_ok_iff, textValue_eq_ok_iff,
    requiredListValue_eq_ok_iff, extractChannels_eq_ok_iff, Except.ok.injEq, Option.some.injEq,
    forall_eq']
  constructor
  · rintro ⟨⟨userId, ⟨huser, hmatch⟩, url, ⟨hurl, hurlNe, hscheme⟩, device, ⟨hdevice, hdeviceNe,
      hdeviceLength⟩, access, ⟨haccess, haccessNe, haccessLength⟩, source, hsource, names, hnames,
      rfl⟩, honly⟩
    exact ⟨rfl, huser, hmatch, hurl, hurlNe, hscheme, hdevice, hdeviceNe trivial, hdeviceLength,
      haccess, haccessNe trivial, haccessLength, ⟨source, hsource, hnames⟩, honly⟩
  · cases b with
    | session userId url device access names =>
      rintro ⟨-, huser, hmatch, hurl, hurlNe, hscheme, hdevice, hdeviceNe, hdeviceLength,
        haccess, haccessNe, haccessLength, ⟨source, hsource, hnames⟩, honly⟩
      exact ⟨⟨userId, ⟨huser, hmatch⟩, url, ⟨hurl, hurlNe, hscheme⟩, device, ⟨hdevice,
        fun _ => hdeviceNe, hdeviceLength⟩, access, ⟨haccess, fun _ => haccessNe, haccessLength⟩,
        source, hsource, names, hnames, rfl⟩, honly⟩
    | _ => simp [Body.transformer]

theorem asRecord_eq_ok_iff {value : Value φ} : asRecord value = .ok record ↔
    value = .dict record := by
  cases value <;> simp [asRecord]

variable {t : Transformer} {fields : Parser φ}

/-- The path of a message is the only thing that is looked at before the body. -/
theorem fieldsOf_messageBody_eq_ok_iff : fieldsOf lib params .messageBody = .ok fields ↔
    ∃ workTargetId, params.find "workTargetId" = some workTargetId ∧
      (workTargetId.length = 15 ∨ workTargetId.length = 18) ∧
      fields = messageFields workTargetId := by
  rw [fieldsOf]
  cases params.find "workTargetId" with
  | none => simp
  | some target =>
    simp only [bind_eq_ok_iff, coded_eq_ok_iff, validateWorkTargetId_eq_ok_iff]
    constructor
    · rintro ⟨-, hlength, hfields⟩
      cases hfields
      exact ⟨target, rfl, hlength, rfl⟩
    · rintro ⟨target', htarget, hlength, rfl⟩
      obtain rfl := Option.some.inj htarget
      exact ⟨(), hlength, rfl⟩

/-- The parser of a body that is no message decides alone. -/
theorem transform_eq_ok_iff_of_fields {body : EventBody φ}
    (hfields : fieldsOf lib params t = .ok fields) (ht : t ≠ .messageBody)
    (hclosed : ∀ record b, closed fields unrecognized record = .ok b ↔
      b.transformer = t ∧ b.DescribedBy lib params record) :
    transform lib t params body = .ok b ↔ b.transformer = t ∧ ∃ record,
      fromJson lib body = .ok (.dict record) ∧ b.DescribedBy lib params record := by
  simp only [transform, hfields, bind_eq_ok_iff, asRecord_eq_ok_iff, finish_eq_ok_iff,
    Except.ok.injEq, exists_eq_left']
  constructor
  · rintro ⟨-, hvalue, record, rfl, b, hbody, rfl, -⟩
    obtain ⟨htransformer, hdescribed⟩ := (hclosed record b).mp hbody
    exact ⟨htransformer, record, hvalue, hdescribed⟩
  · rintro ⟨htransformer, record, hvalue, hdescribed⟩
    have hbody := (hclosed record b).mpr ⟨htransformer, hdescribed⟩
    refine ⟨_, hvalue, record, rfl, b, hbody, rfl, ?_⟩
    rintro target messageId rfl
    exact ht htransformer.symm

theorem transform_messageBody_eq_ok_iff {body : EventBody φ} :
    transform lib .messageBody params body = .ok b ↔ b.transformer = .messageBody ∧ ∃ record,
      fromJson lib body = .ok (.dict record) ∧ b.DescribedBy lib params record := by
  simp only [transform, fieldsOf_messageBody_eq_ok_iff, bind_eq_ok_iff, asRecord_eq_ok_iff,
    finish_eq_ok_iff]
  constructor
  · rintro ⟨-, ⟨target, htarget, hlength, rfl⟩, -, hvalue, record, rfl, b, hclosed, rfl, hsays⟩
    obtain ⟨messageId, messageBody, attachments, rfl, hid, hbody, hattached, honly⟩ :=
      closed_messageFields_iff.mp hclosed
    refine ⟨rfl, record, hvalue, htarget, hlength, hid.1, hid.2, hbody, hattached, ?_, honly⟩
    by_contra hnone
    obtain ⟨rfl, rfl⟩ : messageBody = none ∧ attachments = none := by simpa using hnone
    exact hsays target messageId rfl
  · cases b with
    | message target messageId messageBody attachments =>
      rintro ⟨-, record, hvalue, htarget, hlength, hid, hne, hbody, hattached, hsays, honly⟩
      refine ⟨_, ⟨target, htarget, hlength, rfl⟩, _, hvalue, record, rfl, _,
        closed_messageFields_iff.mpr ⟨messageId, messageBody, attachments, rfl, ⟨hid, hne⟩, hbody,
          hattached, honly⟩, rfl, ?_⟩
      rintro target' messageId' heq
      cases heq
      exact hsays.elim (· rfl) (· rfl)
    | _ => simp [Body.transformer]

/-- The bodies that a transformer makes are described by the properties of the record, and a record
has a body exactly where one is described. -/
theorem transform_eq_ok_iff (lib : Library φ) (t : Transformer)
    (params : OrderedDict String String) (body : EventBody φ) (b : Body) :
    transform lib t params body = .ok b ↔ b.transformer = t ∧ ∃ record,
      fromJson lib body = .ok (.dict record) ∧ b.DescribedBy lib params record := by
  cases t with
  | setPresenceBody =>
    exact transform_eq_ok_iff_of_fields rfl nofun fun _ _ => closed_setPresenceFields_iff
  | acceptWorkBody =>
    exact transform_eq_ok_iff_of_fields rfl nofun fun _ _ => closed_acceptWorkFields_iff
  | declineWorkBody =>
    exact transform_eq_ok_iff_of_fields rfl nofun fun _ _ => closed_declineWorkFields_iff
  | closeWorkBody =>
    exact transform_eq_ok_iff_of_fields rfl nofun fun _ _ => closed_closeWorkFields_iff
  | messageBody => exact transform_messageBody_eq_ok_iff
  | buildSession =>
    exact transform_eq_ok_iff_of_fields rfl nofun fun _ _ => closed_sessionFields_iff

/-- A record in any order, where the reason is told without the blanks around it. -/
example : transform (φ := Empty) ⟨fun _ => none, fun _ => none, id⟩ .declineWorkBody ⟨[], by simp⟩
    (.record [("declineReason", .str " busy "), ("workTargetId", .str "0Mw000000000001"),
      ("workId", .str "0Bz000000000001")]) =
    .ok (.declineWork "0Bz000000000001" "0Mw000000000001" (some "busy")) := by decide

/-! ### The order of the properties -/

/-- The parser of every transformer takes some names. -/
theorem exists_takes (hfields : fieldsOf lib params t = .ok fields) :
    ∃ names check, Takes fields names check := by
  cases t with
  | setPresenceBody =>
    cases hfields
    exact ⟨_, _, takes_setPresenceFields⟩
  | acceptWorkBody =>
    cases hfields
    exact ⟨_, _, takes_acceptWorkFields⟩
  | declineWorkBody =>
    cases hfields
    exact ⟨_, _, takes_declineWorkFields⟩
  | closeWorkBody =>
    cases hfields
    exact ⟨_, _, takes_closeWorkFields⟩
  | messageBody =>
    obtain ⟨-, -, -, rfl⟩ := fieldsOf_messageBody_eq_ok_iff.mp hfields
    exact ⟨_, _, takes_messageFields⟩
  | buildSession =>
    cases hfields
    exact ⟨_, _, takes_sessionFields⟩

/-- Only the list of the properties that are not recognized follows the order of the record. -/
theorem transform_perm (lib : Library φ) (t : Transformer) (params : OrderedDict String String)
    {record record' : Dict φ} (hperm : record.Perm record')
    (hnodup : (record.map Prod.fst).Nodup) :
    transform lib t params (.record record) = transform lib t params (.record record') ∨
      ∃ left left' : List String, left.Perm left' ∧
        transform lib t params (.record record) = .error (unrecognized left) ∧
        transform lib t params (.record record') = .error (unrecognized left') := by
  have htransform (data : Dict φ) : transform lib t params (.record data) =
      fieldsOf lib params t >>= fun fields => closed fields unrecognized data >>= finish := rfl
  rw [htransform, htransform]
  cases hfields : fieldsOf lib params t with
  | error ex => exact .inl rfl
  | ok fields =>
    obtain ⟨names, check, htakes⟩ := exists_takes hfields
    obtain hsame | ⟨left, left', hleft, hclosed, hclosed'⟩ := htakes.closed_perm hperm hnodup
    · exact .inl (congrArg (· >>= finish) hsame)
    · refine .inr ⟨left, left', hleft, ?_, ?_⟩
      · exact congrArg (· >>= finish) hclosed
      · exact congrArg (· >>= finish) hclosed'

end ShimService.Web.RequestBody
