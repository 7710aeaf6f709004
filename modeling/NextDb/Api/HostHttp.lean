import NextDb.Api.Converge

/-!
# Host HTTP requests

A behavior has the server make an HTTP call for it. The request and its completion are records
of the log; what the call gives is the payload of a reminder, which calls the behavior back.
The index of the requests is kept in memory, and made from the log at startup.

* `HostHttpRequest.fromDraft_ok`: a request that its record is parsed to again is the request.
* `getElem?_hostHttpRequestIndex`: what the index made from the log holds.
-/

namespace NextDb.Api.HostHttp

open Wal List Option
open Actor (ActorKind)
open Converge (actorKindFromWalStr)

/-! ## Requests -/

/-- What a continuation is read as. -/
structure RuntimeBehaviorContinuationPayload where
  payloadType : String
  behavior : String
  mutation : String
  callDepth : Option Nat
  maxDepth : Option Nat
  deadlineMs : Option Nat
  path : Option (List String)

/-- What the server's libraries check. -/
structure HttpLibraries where
  /-- `serde_json::from_value` of a continuation. -/
  continuationFromValue : Value → Except String RuntimeBehaviorContinuationPayload
  /-- `HeaderName::from_bytes`. -/
  headerName : String → Except String Unit
  /-- `HeaderValue::from_str`. -/
  headerValue : String → Except String Unit
  /-- The length of `serde_json::to_vec`. -/
  jsonLen : Value → Nat
  /-- The length of what the base64 text decodes to. -/
  base64Len : String → Except String Nat

def hostHttpDefaultTimeoutMs : Nat := 5000
def hostHttpMaxTimeoutMs : Nat := 30000
def hostHttpMaxHeaders : Nat := 32
def hostHttpMaxHeaderBytes : Nat := 16 * 1024
def hostHttpMaxRequestBodyBytes : Nat := 1024 * 1024
def hostHttpRequestIdHeader : String := "x-nextdb-request-id"
def defaultBehaviorContinuationMaxDepth : Nat := 32

/-- Whether a body was given as JSON or as base64 text. -/
inductive HostHttpRequestBody where
  | json (body : Value)
  | bytes

structure HostHttpRequest where
  requestId : String
  method : String
  url : String
  rawHeaders : BTreeMap String String
  body : Option HostHttpRequestBody
  bodyBase64 : Option String
  timeoutMs : Nat
  actorKind : ActorKind
  actorKey : String
  reminderId : String
  continuation : Value

/-- The command of a behavior. -/
structure RequestHostHttp where
  requestId : Option String
  method : String
  url : String
  headers : BTreeMap String String
  body : Option Value
  bodyBase64 : Option String
  timeoutMs : Option Nat
  actorKind : ActorKind
  actorKey : String
  reminderId : Option String
  continuation : Value

def draftBody : Option HostHttpRequestBody → Option Value
  | some (.json body) => some body
  | some .bytes | none => none

def HostHttpRequest.toDraft (self : HostHttpRequest) (requestedAtMs : Nat) :
    HostHttpRequestDraft where
  requestId := self.requestId
  method := self.method
  url := self.url
  headers := self.rawHeaders
  body := draftBody self.body
  bodyBase64 := self.bodyBase64
  timeoutMs := self.timeoutMs
  actorKind := self.actorKind.asStr
  actorKey := self.actorKey
  reminderId := self.reminderId
  continuation := self.continuation
  requestedAtMs

variable (lib : HttpLibraries)

/-- `value.get("type").and_then(as_str)`. -/
def payloadTypeOf (payload : Value) : Option String := do
  (← (← payload.json.asObject).lookup "type").asStr

def RuntimeBehaviorContinuationPayload.target (self : RuntimeBehaviorContinuationPayload) :
    String :=
  s!"{self.behavior}.{self.mutation}"

def RuntimeBehaviorContinuationPayload.validateLimits (self : RuntimeBehaviorContinuationPayload)
    (nowMs : Nat) :
    Except ApiError Unit :=
  if self.deadlineMs.any (· < nowMs) then .error (.badRequest "behavior continuation deadlineMs has expired")
  else if max (self.maxDepth.getD defaultBehaviorContinuationMaxDepth) 1 ≤ self.callDepth.getD 0 then
    .error (.badRequest "behavior continuation maxDepth exceeded")
  else if (self.path.getD []).contains self.target then
    .error (.badRequest "behavior continuation cycle detected")
  else .ok ()

def fromReminderPayload (payload : Option Value) (nowMs : Nat) :
    Except ApiError (Option RuntimeBehaviorContinuationPayload) :=
  match payload with
  | none => .ok none
  | some payload =>
    if payloadTypeOf payload ≠ some "behaviorContinuation" then .ok none
    else match lib.continuationFromValue payload with
      | .error err => .error (.badRequest ("invalid behavior continuation payload: " ++ err))
      | .ok continuation =>
        if trim continuation.behavior = "" then
          .error (.badRequest "behavior continuation behavior is required")
        else if trim continuation.mutation = "" then
          .error (.badRequest "behavior continuation mutation is required")
        else if continuation.payloadType ≠ "behaviorContinuation" then .ok none
        else do
          continuation.validateLimits nowMs
          return some continuation

def validateBehaviorContinuationPayload (payload : Value) (nowMs : Nat) : Except ApiError Unit :=
  if payloadTypeOf payload ≠ some "behaviorContinuation" then
    .error (.badRequest "behavior continuation payload type must be behaviorContinuation")
  else do
    let _ ← fromReminderPayload lib (some payload) nowMs
    return ()

def hostHttpMethods : List String := ["GET", "POST", "PUT", "PATCH", "DELETE", "HEAD"]

/-- `to_ascii_uppercase` of what is trimmed. -/
def normalizeMethod (method : String) : String :=
  String.ofList ((trim method).toList.map Char.toUpper)

def parseHostHttpMethod (method : String) : Except ApiError String :=
  if normalizeMethod method ∈ hostHttpMethods then .ok (normalizeMethod method)
  else .error (.badRequest "requestHostHttp method must be one of GET, POST, PUT, PATCH, DELETE, HEAD")

def parseHostHttpHeader (totalBytes : Nat) (header : String × String) : Except ApiError Nat := do
  let totalBytes := totalBytes + header.1.utf8ByteSize + header.2.utf8ByteSize
  if hostHttpMaxHeaderBytes < totalBytes then
    .error (.badRequest s!"requestHostHttp headers exceeded {hostHttpMaxHeaderBytes} bytes")
  else if String.ofList (header.1.toList.map Char.toLower) ∈
      ["host", "content-length", "connection", hostHttpRequestIdHeader] then
    .error (.badRequest ("requestHostHttp header '" ++ header.1 ++ "' is managed by the host"))
  else
    match lib.headerName header.1, lib.headerValue header.2 with
    | .error err, _ => .error (.badRequest ("invalid requestHostHttp header name: " ++ err))
    | .ok _, .error err => .error (.badRequest ("invalid requestHostHttp header value: " ++ err))
    | .ok _, .ok _ => .ok totalBytes

def parseHostHttpHeaders (headers : BTreeMap String String) : Except ApiError Unit :=
  if hostHttpMaxHeaders < headers.size then
    .error (.badRequest s!"requestHostHttp headers must contain at most {hostHttpMaxHeaders} entries")
  else do
    let _ ← headers.toList.foldlM (parseHostHttpHeader lib) 0
    return ()

def parseHostHttpBody (body : Option Value) (bodyBase64 : Option String) :
    Except ApiError (Option HostHttpRequestBody) :=
  match body, bodyBase64 with
  | some _, some _ => .error (.badRequest "requestHostHttp body and bodyBase64 are mutually exclusive")
  | some body, none =>
    if hostHttpMaxRequestBodyBytes < lib.jsonLen body then
      .error (.badRequest s!"requestHostHttp JSON body exceeded {hostHttpMaxRequestBodyBytes} bytes")
    else .ok (some (.json body))
  | none, some bodyBase64 =>
    match lib.base64Len bodyBase64 with
    | .error err => .error (.badRequest ("invalid requestHostHttp bodyBase64: " ++ err))
    | .ok len =>
      if hostHttpMaxRequestBodyBytes < len then
        .error (.badRequest s!"requestHostHttp bodyBase64 decoded body exceeded {hostHttpMaxRequestBodyBytes} bytes")
      else .ok (some .bytes)
  | none, none => .ok none

def clampTimeout (timeoutMs : Nat) : Nat := min (max timeoutMs 1) hostHttpMaxTimeoutMs

/-- An early return with a bad request. -/
def rejectIf (p : Prop) [Decidable p] (message : String) : Except ApiError Unit :=
  if p then .error (.badRequest message) else .ok ()

/-- A text that is given, trimmed, unless it is blank. -/
def givenOr (text : Option String) (default : String) : String :=
  ((text.map trim).filter (· ≠ "")).getD default

def hostHttpReminderId (requestId : String) : String := "host-http-" ++ requestId

/-- A request that comes without an id gets a new one. -/
def parseHostHttpRequest (newId : String) (nowMs : Nat) (command : RequestHostHttp) :
    Except ApiError HostHttpRequest := do
  let requestId := givenOr command.requestId newId
  rejectIf (128 < requestId.utf8ByteSize) "requestHostHttp requestId must be at most 128 characters"
  let method ← parseHostHttpMethod command.method
  rejectIf (trim command.url = "") "requestHostHttp url is required"
  rejectIf (¬ "https://".toList <+: command.url.toList ∧ ¬ "http://".toList <+: command.url.toList)
    "requestHostHttp url must start with http:// or https://"
  rejectIf (trim command.actorKey = "") "requestHostHttp actorKey is required"
  validateBehaviorContinuationPayload lib command.continuation nowMs
  let reminderId := givenOr command.reminderId (hostHttpReminderId requestId)
  rejectIf (160 < reminderId.utf8ByteSize) "requestHostHttp reminderId must be at most 160 characters"
  parseHostHttpHeaders lib command.headers
  let body ← parseHostHttpBody lib command.body command.bodyBase64
  let timeoutMs := clampTimeout (command.timeoutMs.getD hostHttpDefaultTimeoutMs)
  return {
    requestId, method, body, timeoutMs, reminderId
    url := command.url
    rawHeaders := command.headers
    bodyBase64 := command.bodyBase64
    actorKind := command.actorKind
    actorKey := command.actorKey
    continuation := command.continuation }

def hostHttpRequestFromDraft (nowMs : Nat) (draft : HostHttpRequestDraft) :
    Except ApiError HostHttpRequest :=
  match actorKindFromWalStr draft.actorKind with
  | none => .error (.badRequest "invalid pending host HTTP actorKind")
  | some actorKind =>
    parseHostHttpRequest lib "" nowMs {
      requestId := some draft.requestId
      method := draft.method
      url := draft.url
      headers := draft.headers
      body := draft.body
      bodyBase64 := draft.bodyBase64
      timeoutMs := some draft.timeoutMs
      actorKind
      actorKey := draft.actorKey
      reminderId := some draft.reminderId
      continuation := draft.continuation }

/-! ## A request and its record -/

variable {lib}

/-- A request that some command was parsed to. New ids are not blank and have no blanks around them.
-/
def Accepted (lib : HttpLibraries) (request : HostHttpRequest) : Prop :=
  ∃ newId nowMs command, trim newId = newId ∧ newId ≠ "" ∧ parseHostHttpRequest lib newId nowMs command = .ok request

theorem parseHostHttpRequest_ok {newId : String} {nowMs : Nat} {command : RequestHostHttp}
    {request : HostHttpRequest} (h : parseHostHttpRequest lib newId nowMs command = .ok request) :
    ∃ method body, parseHostHttpMethod command.method = .ok method ∧
      parseHostHttpBody lib command.body command.bodyBase64 = .ok body ∧
      request = {
        requestId := givenOr command.requestId newId
        method, body
        url := command.url
        rawHeaders := command.headers
        bodyBase64 := command.bodyBase64
        timeoutMs := clampTimeout (command.timeoutMs.getD hostHttpDefaultTimeoutMs)
        actorKind := command.actorKind
        actorKey := command.actorKey
        reminderId := givenOr command.reminderId (hostHttpReminderId (givenOr command.requestId newId))
        continuation := command.continuation } := by
  obtain ⟨-, -, h⟩ := bind_eq_ok.mp h
  obtain ⟨method, hmethod, h⟩ := bind_eq_ok.mp h
  obtain ⟨-, -, h⟩ := bind_eq_ok.mp h
  obtain ⟨-, -, h⟩ := bind_eq_ok.mp h
  obtain ⟨-, -, h⟩ := bind_eq_ok.mp h
  obtain ⟨-, -, h⟩ := bind_eq_ok.mp h
  obtain ⟨-, -, h⟩ := bind_eq_ok.mp h
  obtain ⟨-, -, h⟩ := bind_eq_ok.mp h
  obtain ⟨body, hbody, h⟩ := bind_eq_ok.mp h
  cases h
  exact ⟨method, body, hmethod, hbody, rfl⟩

variable {text : String} {records : List WalRecord} {r : WalRecord} {lsn : Nat}
    {request : HostHttpRequestDraft}

theorem parseHostHttpMethod_again {method : String} (h : parseHostHttpMethod text = .ok method) :
    parseHostHttpMethod method = .ok method := by
  have hall : ∀ method ∈ hostHttpMethods, normalizeMethod method = method := by decide +kernel
  unfold parseHostHttpMethod at h
  split at h
  · next hmem =>
    obtain rfl := Except.ok.inj h
    rw [parseHostHttpMethod, hall _ hmem, if_pos hmem]
  · cases h

/-- The body of a request's record is parsed to the body. -/
theorem parseHostHttpBody_again {body : Option Value} {bodyBase64 : Option String}
    {parsed : Option HostHttpRequestBody}
    (h : parseHostHttpBody lib body bodyBase64 = .ok parsed) : draftBody parsed = body := by
  unfold parseHostHttpBody at h
  cases body with
  | none =>
    cases bodyBase64 with
    | none =>
      cases h
      rfl
    | some text =>
      dsimp only at h
      split at h
      · cases h
      · split at h
        · cases h
        · cases h
          rfl
  | some body =>
    cases bodyBase64 with
    | none =>
      dsimp only at h
      split at h
      · cases h
      · cases h
        rfl
    | some text => cases h

/-- Not blank, and without blanks around it. -/
def Trimmed (text : String) : Prop := trim text = text ∧ text ≠ ""

theorem givenOr_trimmed {text : Option String} {default : String} (h : Trimmed default) :
    Trimmed (givenOr text default) := by
  unfold givenOr
  cases hfilter : (text.map trim).filter (· ≠ "") with
  | none => exact h
  | some given =>
    obtain ⟨hmap, hne⟩ := filter_eq_some_iff.mp hfilter
    obtain ⟨raw, -, rfl⟩ := map_eq_some_iff.mp hmap
    exact ⟨trim_trim raw, by simpa using hne⟩

theorem givenOr_of_trimmed (h : Trimmed text) (default : String) :
    givenOr (some text) default = text := by
  rw [givenOr, map_some, h.1, filter_some, if_pos (decide_eq_true h.2), getD_some]

theorem toList_of_trim (h : trim text = text) :
    text.toList.dropWhile isWhitespace = text.toList ∧ text.toList.rdropWhile isWhitespace =
    text.toList := by
  have hlist : (text.toList.dropWhile isWhitespace).rdropWhile isWhitespace = text.toList := by
    have := congrArg String.toList h
    rwa [trim, String.toList_ofList] at this
  have hstart : text.toList.dropWhile isWhitespace = text.toList := by
    refine (dropWhile_suffix isWhitespace).eq_of_length_le ?_
    rw [← congrArg length hlist]
    exact (List.rdropWhile_prefix isWhitespace _).length_le
  exact ⟨hstart, by rwa [hstart] at hlist⟩

theorem Trimmed.hostHttpReminderId (h : Trimmed text) : Trimmed (hostHttpReminderId text) := by
  have hlit : "host-http-".toList = ['h', 'o', 's', 't', '-', 'h', 't', 't', 'p', '-'] := by decide
  have hlist : (HostHttp.hostHttpReminderId text).toList = ['h', 'o', 's', 't', '-', 'h', 't', 't', 'p', '-'] ++
      text.toList := by
    rw [HostHttp.hostHttpReminderId, String.toList_append, hlit]
  have hne : text.toList ≠ [] := by simpa using h.2
  have hend : (HostHttp.hostHttpReminderId text).toList.rdropWhile isWhitespace =
      (HostHttp.hostHttpReminderId text).toList := by
    rw [hlist, rdropWhile_eq_self_iff]
    intro hall
    rw [getLast_append_of_ne_nil _ hne]
    exact rdropWhile_eq_self_iff.mp (toList_of_trim h.1).2 hne
  have hstart : (HostHttp.hostHttpReminderId text).toList.dropWhile isWhitespace =
      (HostHttp.hostHttpReminderId text).toList := by
    rw [hlist]
    exact dropWhile_cons_of_neg (by decide)
  refine ⟨?_, fun he => ?_⟩
  · show String.ofList (((HostHttp.hostHttpReminderId text).toList.dropWhile isWhitespace).rdropWhile isWhitespace) = _
    rw [hstart, hend, String.ofList_toList]
  · rw [he] at hlist
    cases hlist

theorem clampTimeout_clampTimeout (timeoutMs : Nat) :
    clampTimeout (clampTimeout timeoutMs) = clampTimeout timeoutMs := by
  simp only [clampTimeout, hostHttpMaxTimeoutMs]
  omega

/-- A request that its record is parsed to again is the request. -/
theorem HostHttpRequest.fromDraft_ok {request again : HostHttpRequest}
    (haccepted : Accepted lib request)
    {nowMs requestedAtMs : Nat}
    (h : hostHttpRequestFromDraft lib nowMs (request.toDraft requestedAtMs) = .ok again) :
    again = request := by
  obtain ⟨newId, acceptedAtMs, command, hnew, hne, hparse⟩ := haccepted
  obtain ⟨method, body, hmethod, hbody, rfl⟩ := parseHostHttpRequest_ok hparse
  have hid : Trimmed (givenOr command.requestId newId) := givenOr_trimmed ⟨hnew, hne⟩
  have hreminder : Trimmed (givenOr command.reminderId (hostHttpReminderId (givenOr command.requestId newId))) :=
    givenOr_trimmed hid.hostHttpReminderId
  have hkind : actorKindFromWalStr command.actorKind.asStr = some command.actorKind := by
    cases command.actorKind <;> rfl
  unfold hostHttpRequestFromDraft HostHttpRequest.toDraft at h
  dsimp only at h
  rw [hkind] at h
  obtain ⟨method', body', hmethod', hbody', rfl⟩ := parseHostHttpRequest_ok h
  dsimp only at hmethod' hbody' ⊢
  rw [parseHostHttpMethod_again hmethod] at hmethod'
  rw [parseHostHttpBody_again hbody, hbody] at hbody'
  rw [← Except.ok.inj hmethod', ← Except.ok.inj hbody', givenOr_of_trimmed hid, givenOr_of_trimmed hreminder, getD_some,
    clampTimeout_clampTimeout]

/-! ## The callback -/

variable (lib)

/-- What is put under `input` of the continuation. -/
def hostHttpInput (requestId method url : String) (result priorInput : Json) : Json :=
  .object [
    ("hostHttp", .object [
      ("method", .string method),
      ("requestId", .string requestId),
      ("result", result),
      ("url", .string url)]),
    ("input", priorInput)]

def continuationWithInput (continuation : Json) (input : Json → Json) : Json :=
  match continuation with
  | .object fields =>
    .object ((Std.ExtTreeMap.ofList fields).insert "input" (input ((fields.lookup "input").getD .null))).toList
  | other => other

theorem wellFormed_lookup {fields : List (String × Json)} (h : Json.FieldsWellFormed fields)
    (key : String) :
    ((fields.lookup key).getD .null).WellFormed := by
  cases hlookup : fields.lookup key with
  | none => exact trivial
  | some value =>
    obtain ⟨before, after, rfl, -⟩ := lookup_eq_some_iff.mp hlookup
    exact Json.fieldsWellFormed_iff.mp h (key, value) (by simp)

theorem continuationWithInput_wellFormed {continuation : Json} (h : continuation.WellFormed)
    {input : Json → Json} (hinput : ∀ prior, prior.WellFormed → (input prior).WellFormed) :
    (continuationWithInput continuation input).WellFormed := by
  cases continuation with
  | object fields =>
    obtain ⟨hascending, hfields⟩ := h
    refine Json.wellFormed_toList fun k v hk => ?_
    rw [Std.ExtTreeMap.getElem?_insert] at hk
    split at hk
    · cases hk
      exact hinput _ (wellFormed_lookup hfields "input")
    · have hmem : (k, v) ∈ collectEntries fields := Std.ExtTreeMap.mem_toList_iff_getElem?_eq_some.mpr hk
      rw [collectEntries_of_ascending hascending] at hmem
      exact Json.fieldsWellFormed_iff.mp hfields _ hmem
  | null | bool | number | string | array => exact h

theorem hostHttpInput_wellFormed (requestId method url : String) {result : Json}
    (hresult : result.WellFormed)
    (prior : Json) (hprior : prior.WellFormed) :
    (hostHttpInput requestId method url result prior).WellFormed := by
  refine ⟨keysAscending_iff.mpr ?_, ⟨keysAscending_iff.mpr ?_, trivial, trivial, hresult, trivial, trivial⟩, hprior,
    trivial⟩
  · show ["hostHttp", "input"].Pairwise (· < ·)
    decide +kernel
  · show ["method", "requestId", "result", "url"].Pairwise (· < ·)
    decide +kernel

def hostHttpContinuationPayload (continuation : Value) (requestId method url : String)
    (result : Value) : Value where
  json := continuationWithInput continuation.json (hostHttpInput requestId method url result.json)
  wellFormed := continuationWithInput_wellFormed continuation.wellFormed
    (hostHttpInput_wellFormed requestId method url result.wellFormed)

/-- The reminder that a request to schedule one makes. One that comes without an id gets a new one.
-/
def scheduledReminder (newId : String) (acceptedAtMs : Nat) (kind : ActorKind) (key : String)
    (reminderId : Option String) (dueAtMs : Nat) (payload : Option Value) :
    Except ApiError ActorReminderDraft := do
  rejectIf (trim key = "") "key is required"
  rejectIf (dueAtMs = 0) "dueAtMs must be greater than zero"
  let _ ← fromReminderPayload lib payload acceptedAtMs
  return {
    actorKind := kind.asStr
    actorKey := trim key
    reminderId := givenOr reminderId newId
    dueAtMs, payload }

/-- What is scheduled once a call has given a result. -/
def callbackReminder (newId : String) (acceptedAtMs dueAtMs : Nat) (request : HostHttpRequest)
    (result : Value) :
    Except ApiError ActorReminderDraft :=
  scheduledReminder lib newId acceptedAtMs request.actorKind request.actorKey (some request.reminderId) (max dueAtMs 1)
    (some (hostHttpContinuationPayload request.continuation request.requestId request.method request.url result))

/-! ## The index -/

inductive HostHttpRequestStatus where
  | requested
  | callbackScheduled
  | completed
deriving DecidableEq

@[ext] structure HostHttpRequestRecord where
  request : HostHttpRequestDraft
  requestedLsn : Nat
  status : HostHttpRequestStatus

abbrev HostHttpRequestIndex := BTreeMap String HostHttpRequestRecord

/-- The reminder is on the actor of the request and has the id of its callback. -/
def CallsBack (request : HostHttpRequestDraft) (reminder : ActorReminderDraft) : Prop :=
  request.actorKind = reminder.actorKind ∧ request.actorKey = reminder.actorKey ∧
    request.reminderId = reminder.reminderId

instance (request : HostHttpRequestDraft) (reminder : ActorReminderDraft) :
    Decidable (CallsBack request reminder) :=
  inferInstanceAs (Decidable (_ ∧ _ ∧ _))

variable (self : HostHttpRequestRecord)

def HostHttpRequestRecord.noteReminder (reminder : ActorReminderDraft) :
    HostHttpRequestRecord :=
  if CallsBack self.request reminder ∧ self.status = .requested then
    { self with status := .callbackScheduled }
  else self

@[simp] theorem HostHttpRequestRecord.noteReminder_request
    (reminder : ActorReminderDraft) : (self.noteReminder reminder).request = self.request := by
  unfold HostHttpRequestRecord.noteReminder
  split <;> rfl

@[simp] theorem HostHttpRequestRecord.noteReminder_requestedLsn
    (reminder : ActorReminderDraft) :
    (self.noteReminder reminder).requestedLsn = self.requestedLsn := by
  unfold HostHttpRequestRecord.noteReminder
  split <;> rfl

variable (requests : HostHttpRequestIndex)

def noteHostHttpCallbackScheduled (reminder : ActorReminderDraft) :
    HostHttpRequestIndex :=
  requests.map fun _ record => record.noteReminder reminder

def noteHostHttpCompleted (requestId : String) : HostHttpRequestIndex :=
  requests.alter requestId fun record => record.map fun record => { record with status := .completed }

def indexHostHttpRecord (walRecord : WalRecord) : HostHttpRequestIndex :=
  match walRecord.payload with
  | .hostHttpRequested request => requests.insert request.requestId ⟨request, walRecord.lsn, .requested⟩
  | .hostHttpCompleted requestId _ => noteHostHttpCompleted requests requestId
  | .actorReminderScheduled reminder => noteHostHttpCallbackScheduled requests reminder
  | _ => requests

def hostHttpRequestIndexFromWalRecords (walRecords : List WalRecord) : HostHttpRequestIndex :=
  (orderedByLsn walRecords).foldl indexHostHttpRecord ∅

mutual

def jsonEq : Json → Json → Bool
  | .null, .null => true
  | .bool a, .bool b => a == b
  | .number a, .number b => a == b
  | .string a, .string b => a == b
  | .array as, .array bs => jsonsEq as bs
  | .object as, .object bs => fieldsEq as bs
  | _, _ => false

def jsonsEq : List Json → List Json → Bool
  | [], [] => true
  | a :: as, b :: bs => jsonEq a b && jsonsEq as bs
  | _, _ => false

def fieldsEq : List (String × Json) → List (String × Json) → Bool
  | [], [] => true
  | (key, a) :: as, (key', b) :: bs => key == key' && jsonEq a b && fieldsEq as bs
  | _, _ => false

end

def bodyMatches : Option HostHttpRequestBody → Option Value → Bool
  | some (.json left), some right => jsonEq left.json right.json
  | some .bytes, none | none, none => true
  | _, _ => false

def hostHttpRequestMatchesDraft (request : HostHttpRequest) (draft : HostHttpRequestDraft) : Bool :=
  request.method == draft.method && request.url == draft.url &&
    request.rawHeaders.toList == draft.headers.toList && request.bodyBase64 == draft.bodyBase64 &&
    bodyMatches request.body draft.body && request.timeoutMs == draft.timeoutMs &&
    request.actorKind.asStr == draft.actorKind && request.actorKey == draft.actorKey &&
    request.reminderId == draft.reminderId && jsonEq request.continuation.json draft.continuation.json

def existingHostHttpRequest (request : HostHttpRequest) :
    Except ApiError (Option HostHttpRequestRecord) :=
  match requests[request.requestId]? with
  | none => .ok none
  | some existing =>
    if hostHttpRequestMatchesDraft request existing.request then .ok (some existing)
    else .error (.badRequest "requestHostHttp requestId was already used for a different request")

def pendingHostHttpRequestsFromWalRecords (walRecords : List WalRecord) :
    List HostHttpRequestDraft :=
  (((hostHttpRequestIndexFromWalRecords walRecords).toList.map Prod.snd).filter (·.status = .requested)).map (·.request)

/-! ## What the index holds -/

/-- The record is of a request with the id. -/
def RequestsHttp (requestId : String) (record : WalRecord) : Prop :=
  ∃ request, record.payload = .hostHttpRequested request ∧ request.requestId = requestId

/-- The record completes the request. -/
def CompletesHttp (requestId : String) (record : WalRecord) : Prop :=
  ∃ completedAtMs, record.payload = .hostHttpCompleted requestId completedAtMs

/-- The record schedules a callback of the request. -/
def RemindsHttp (request : HostHttpRequestDraft) (record : WalRecord) : Prop :=
  ∃ reminder, record.payload = .actorReminderScheduled reminder ∧ CallsBack request reminder

variable (log : WalRecord → Prop)

/-- Some record of the log after an LSN has the property. -/
def After (lsn : Nat) (has : WalRecord → Prop) : Prop :=
  ∃ record, log record ∧ lsn < record.lsn ∧ has record

/-- The status that a log gives a request. -/
def StatusIs (lsn : Nat) (request : HostHttpRequestDraft) : HostHttpRequestStatus → Prop
  | .completed => After log lsn (CompletesHttp request.requestId)
  | .callbackScheduled => ¬ After log lsn (CompletesHttp request.requestId) ∧
    After log lsn (RemindsHttp request)
  | .requested => ¬ After log lsn (CompletesHttp request.requestId) ∧
    ¬ After log lsn (RemindsHttp request)

/-- No two records of the log are of requests with the same id. -/
def RequestedOnce : Prop :=
  ∀ requestId record record', log record → log record' → RequestsHttp requestId record →
    RequestsHttp requestId record' → record = record'

theorem getElem?_noteHostHttpCallbackScheduled (reminder : ActorReminderDraft)
    (requestId : String) : (noteHostHttpCallbackScheduled requests reminder)[requestId]? =
    requests[requestId]?.map (·.noteReminder reminder) := by
  rw [noteHostHttpCallbackScheduled, Std.ExtTreeMap.getElem?_map]

theorem getElem?_noteHostHttpCompleted (requests : HostHttpRequestIndex) (requestId key : String) :
    (noteHostHttpCompleted requests requestId)[key]? = if requestId =
    key then requests[key]?.map fun record =>
    { record with status := .completed } else requests[key]? := by
  rw [noteHostHttpCompleted, Std.ExtTreeMap.getElem?_alter]
  refine (if_congr compare_eq_iff_eq rfl rfl).trans ?_
  split
  · next he => rw [he]
  · rfl

variable {entry : HostHttpRequestRecord}

/-- How a record of the log changes the status of a request before it. -/
theorem statusIs_concat (hlsn : lsn < r.lsn) {status : HostHttpRequestStatus} :
    StatusIs (· ∈ records ++ [r]) lsn request status ↔
    (CompletesHttp request.requestId r ∧ status = .completed) ∨
    (¬ CompletesHttp request.requestId r ∧ ¬ RemindsHttp request r ∧
    StatusIs (· ∈ records) lsn request status) ∨
    (RemindsHttp request r ∧ (StatusIs (· ∈ records) lsn request .requested ∧
    status = .callbackScheduled ∨
    ¬ StatusIs (· ∈ records) lsn request .requested ∧
    StatusIs (· ∈ records) lsn request status)) := by
  have hafter : ∀ has : WalRecord → Prop, After (· ∈ records ++ [r]) lsn has ↔ After (· ∈ records) lsn has ∨ has r := by
    intro has
    simp only [After, mem_append, mem_singleton]
    constructor
    · rintro ⟨r', hr' | rfl, hlt, hhas⟩
      · exact .inl ⟨r', hr', hlt, hhas⟩
      · exact .inr hhas
    · rintro (⟨r', hr', hlt, hhas⟩ | hhas)
      · exact ⟨r', .inl hr', hlt, hhas⟩
      · exact ⟨r, .inr rfl, hlsn, hhas⟩
  have hboth : CompletesHttp request.requestId r → ¬ RemindsHttp request r := by
    rintro ⟨at', h⟩ ⟨reminder, h', -⟩
    rw [h] at h'
    cases h'
  by_cases hc : CompletesHttp request.requestId r <;> by_cases hr : RemindsHttp request r <;>
    cases status <;> simp only [StatusIs, hafter, hc, hr, or_true, or_false, true_and, false_and, not_true_eq_false,
      not_false_eq_true, and_true, and_false, true_or, false_or, reduceCtorEq] <;> tauto

/-- The entry of the index is right for a log. -/
def EntryOf (requestId : String) (entry : HostHttpRequestRecord) : Prop :=
  ∃ r, log r ∧ r.payload = .hostHttpRequested entry.request ∧ entry.request.requestId = requestId ∧
    entry.requestedLsn = r.lsn ∧ StatusIs log r.lsn entry.request entry.status

theorem statusIs_exists (lsn : Nat) (request : HostHttpRequestDraft) :
    ∃ status, StatusIs log lsn request status := by
  by_cases hc : After log lsn (CompletesHttp request.requestId)
  · exact ⟨.completed, hc⟩
  · by_cases hr : After log lsn (RemindsHttp request)
    · exact ⟨.callbackScheduled, hc, hr⟩
    · exact ⟨.requested, hc, hr⟩

theorem statusIs_unique {log : WalRecord → Prop} {status status' : HostHttpRequestStatus}
    (h : StatusIs log lsn request status) (h' : StatusIs log lsn request status') :
    status = status' := by
  cases status <;> cases status' <;> simp only [StatusIs] at h h' <;> first | rfl | tauto

theorem statusIs_last (hlt : ∀ r' ∈ records, r'.lsn < r.lsn) :
    StatusIs (· ∈ records ++ [r]) r.lsn request .requested := by
  have hnone : ∀ has, ¬ After (· ∈ records ++ [r]) r.lsn has := by
    rintro has ⟨r', hr', hlsn, -⟩
    rcases mem_append.mp hr' with hr' | hr'
    · exact absurd (hlt r' hr') (by omega)
    · rw [mem_singleton.mp hr'] at hlsn
      omega
  exact ⟨hnone _, hnone _⟩

theorem entryOf_concat {requestId : String} (hr : ¬ RequestsHttp requestId r) :
    EntryOf (· ∈ records ++ [r]) requestId
    entry ↔ ∃ r' ∈ records, r'.payload = .hostHttpRequested entry.request ∧
    entry.request.requestId = requestId ∧
    entry.requestedLsn = r'.lsn ∧
    StatusIs (· ∈ records ++ [r]) r'.lsn entry.request entry.status := by
  constructor
  · rintro ⟨r', hr', hp, hid, h⟩
    rcases mem_append.mp hr' with hr' | hr'
    · exact ⟨r', hr', hp, hid, h⟩
    · rw [mem_singleton.mp hr'] at hp
      exact absurd ⟨_, hp, hid⟩ hr
  · rintro ⟨r', hr', h⟩
    exact ⟨r', mem_append_left _ hr', h⟩

/-- A record that neither completes nor calls back the requests with an id leaves their entry alone.
-/
theorem entryOf_concat_of_not (hlt : ∀ r' ∈ records, r'.lsn < r.lsn) {requestId : String}
    (hr : ¬ RequestsHttp requestId r) (hc : ¬ CompletesHttp requestId r)
    (hreminds : ¬ RemindsHttp entry.request r) :
    EntryOf (· ∈ records ++ [r]) requestId entry ↔ EntryOf (· ∈ records) requestId entry := by
  rw [entryOf_concat hr]
  refine exists_congr fun r' => and_congr_right fun hr' => and_congr_right fun _ => and_congr_right fun hid =>
    and_congr_right fun _ => ?_
  rw [statusIs_concat (hlt r' hr'), hid]
  simp only [hc, hreminds, false_and, false_or, not_false_eq_true, true_and, or_false]

/-- A reminder of the log changes the entry as it changes the status. -/
theorem statusIs_noteReminder (hlsn : lsn < r.lsn) {reminder : ActorReminderDraft}
    (hc : ¬ CompletesHttp entry.request.requestId r) (hreminds : RemindsHttp entry.request r ↔
    CallsBack entry.request reminder) (h : StatusIs (· ∈ records) lsn entry.request entry.status) :
    StatusIs (· ∈ records ++ [r]) lsn entry.request (entry.noteReminder reminder).status := by
  rw [statusIs_concat hlsn, hreminds]
  unfold HostHttpRequestRecord.noteReminder
  split
  · next hnote => exact .inr (.inr ⟨hnote.1, .inl ⟨hnote.2 ▸ h, rfl⟩⟩)
  · next hnote =>
    by_cases hcalls : CallsBack entry.request reminder
    · refine .inr (.inr ⟨hcalls, .inr ⟨fun hrequested => hnote ⟨hcalls, statusIs_unique h hrequested⟩, h⟩⟩)
    · exact .inr (.inl ⟨hc, hcalls, h⟩)

/-- The entry of a request that is logged last. -/
theorem entryOf_requested (hlt : ∀ r' ∈ records, r'.lsn < r.lsn)
    (honce : RequestedOnce (· ∈ records ++ [r])) {request : HostHttpRequestDraft}
    (hp : r.payload = .hostHttpRequested request) :
    some ⟨request, r.lsn, .requested⟩ = some entry ↔
    EntryOf (· ∈ records ++ [r]) request.requestId entry := by
  have hlast : r ∈ records ++ [r] := mem_append_right _ (mem_singleton.mpr rfl)
  constructor
  · rintro h
    cases h
    exact ⟨r, hlast, hp, rfl, rfl, statusIs_last hlt⟩
  · rintro ⟨r', hr', hp', hid', hlsn, hstatus⟩
    obtain rfl := honce request.requestId r' r hr' hlast ⟨_, hp', hid'⟩ ⟨_, hp, rfl⟩
    have hrequest : request = entry.request := by
      rw [hp] at hp'
      cases hp'
      rfl
    have hunique := statusIs_unique (statusIs_last hlt) hstatus
    exact congrArg some (HostHttpRequestRecord.ext hrequest hlsn.symm hunique)

theorem getElem?_completed (hlt : ∀ r' ∈ records, r'.lsn < r.lsn)
    {requests : HostHttpRequestIndex} {requestId : String}
    (hentries : ∀ entry, requests[requestId]? = some entry ↔ EntryOf (· ∈ records) requestId entry)
    (hr : ¬ RequestsHttp requestId r) (hc : CompletesHttp requestId r) :
    (requests[requestId]?.map fun record => { record with status := .completed }) = some entry ↔
    EntryOf (· ∈ records ++ [r]) requestId entry := by
  rw [map_eq_some_iff, entryOf_concat hr]
  constructor
  · rintro ⟨before, hbefore, rfl⟩
    obtain ⟨r', hr', hp', hid', hlsn, -⟩ := (hentries _).mp hbefore
    exact ⟨r', hr', hp', hid', hlsn, (statusIs_concat (hlt r' hr')).mpr (.inl ⟨hid' ▸ hc, rfl⟩)⟩
  · rintro ⟨r', hr', hp', hid', hlsn, hstatus⟩
    obtain ⟨status, hbefore⟩ := statusIs_exists (· ∈ records) r'.lsn entry.request
    refine ⟨⟨entry.request, r'.lsn, status⟩, (hentries _).mpr ⟨r', hr', hp', hid', rfl, hbefore⟩, ?_⟩
    have hcompleted : StatusIs (· ∈ records ++ [r]) r'.lsn entry.request .completed :=
      (statusIs_concat (hlt r' hr')).mpr (.inl ⟨hid' ▸ hc, rfl⟩)
    rw [← hlsn, ← statusIs_unique hstatus hcompleted]

theorem getElem?_reminded (hlt : ∀ r' ∈ records, r'.lsn < r.lsn)
    {requests : HostHttpRequestIndex} {requestId : String} {reminder : ActorReminderDraft}
    (hentries : ∀ entry, requests[requestId]? = some entry ↔ EntryOf (· ∈ records) requestId entry)
    (hr : ¬ RequestsHttp requestId r) (hc : ∀ requestId, ¬ CompletesHttp requestId r)
    (hreminds : ∀ request, RemindsHttp request r ↔ CallsBack request reminder) :
    requests[requestId]?.map (·.noteReminder reminder) = some entry ↔
    EntryOf (· ∈ records ++ [r]) requestId entry := by
  have hnoted : ∀ {before : HostHttpRequestRecord} {r'}, r' ∈ records →
      StatusIs (· ∈ records) r'.lsn before.request before.status →
      StatusIs (· ∈ records ++ [r]) r'.lsn before.request (before.noteReminder reminder).status :=
    fun hr' h => statusIs_noteReminder (hlt _ hr') (hc _) (hreminds _) h
  rw [map_eq_some_iff, entryOf_concat hr]
  constructor
  · rintro ⟨before, hbefore, rfl⟩
    obtain ⟨r', hr', hp', hid', hlsn, hstatus⟩ := (hentries _).mp hbefore
    rw [before.noteReminder_request, before.noteReminder_requestedLsn]
    exact ⟨r', hr', hp', hid', hlsn, hnoted hr' hstatus⟩
  · rintro ⟨r', hr', hp', hid', hlsn, hstatus⟩
    obtain ⟨status, hbefore⟩ := statusIs_exists (· ∈ records) r'.lsn entry.request
    refine ⟨⟨entry.request, r'.lsn, status⟩, (hentries _).mpr ⟨r', hr', hp', hid', rfl, hbefore⟩, ?_⟩
    refine HostHttpRequestRecord.ext ?_ ?_ (statusIs_unique (hnoted hr' hbefore) hstatus)
    · exact HostHttpRequestRecord.noteReminder_request ..
    · exact (HostHttpRequestRecord.noteReminder_requestedLsn ..).trans hlsn.symm

theorem getElem?_indexHostHttpRecord (hlt : ∀ r' ∈ records, r'.lsn < r.lsn)
    (honce : RequestedOnce (· ∈ records ++ [r]))
    {requests : HostHttpRequestIndex}
    (hentries : ∀ requestId entry, requests[requestId]? = some entry ↔
    EntryOf (· ∈ records) requestId entry) (requestId : String) (entry : HostHttpRequestRecord) :
    (indexHostHttpRecord requests r)[requestId]? = some entry ↔
    EntryOf (· ∈ records ++ [r]) requestId entry := by
  unfold indexHostHttpRecord
  split
  · next request hp =>
    rw [Std.ExtTreeMap.getElem?_insert]
    refine (Eq.congr_left (if_congr compare_eq_iff_eq rfl rfl)).trans ?_
    split
    · next hid => exact hid ▸ entryOf_requested hlt honce hp
    · next hid =>
      have hr : ¬ RequestsHttp requestId r := by
        rintro ⟨request', hp', hid'⟩
        rw [hp] at hp'
        cases hp'
        exact hid hid'
      have hc : ¬ CompletesHttp requestId r := by
        rintro ⟨at', hp'⟩
        rw [hp] at hp'
        cases hp'
      have hreminds : ¬ RemindsHttp entry.request r := by
        rintro ⟨reminder, hp', -⟩
        rw [hp] at hp'
        cases hp'
      rw [hentries, entryOf_concat_of_not hlt hr hc hreminds]
  · next completedId at' hp =>
    have hr : ¬ RequestsHttp requestId r := by
      rintro ⟨request', hp', -⟩
      rw [hp] at hp'
      cases hp'
    have hreminds : ∀ request, ¬ RemindsHttp request r := by
      rintro request ⟨reminder, hp', -⟩
      rw [hp] at hp'
      cases hp'
    rw [getElem?_noteHostHttpCompleted]
    split
    · next hid => exact getElem?_completed hlt (hentries requestId) hr ⟨at', by rw [hp, hid]⟩
    · next hid =>
      have hc : ¬ CompletesHttp requestId r := by
        rintro ⟨at'', hp'⟩
        rw [hp] at hp'
        cases hp'
        exact hid rfl
      rw [hentries, entryOf_concat_of_not hlt hr hc (hreminds _)]
  · next reminder hp =>
    have hr : ¬ RequestsHttp requestId r := by
      rintro ⟨request', hp', -⟩
      rw [hp] at hp'
      cases hp'
    have hc : ∀ requestId, ¬ CompletesHttp requestId r := by
      rintro requestId ⟨at', hp'⟩
      rw [hp] at hp'
      cases hp'
    have hreminds : ∀ request, RemindsHttp request r ↔ CallsBack request reminder := by
      refine fun request => ⟨?_, fun h => ⟨reminder, hp, h⟩⟩
      rintro ⟨reminder', hp', h⟩
      rw [hp] at hp'
      cases hp'
      exact h
    rw [getElem?_noteHostHttpCallbackScheduled]
    exact getElem?_reminded hlt (hentries requestId) hr hc hreminds
  · next hrequested hcompleted hscheduled =>
    have hr : ¬ RequestsHttp requestId r := fun ⟨request, hp, _⟩ => hrequested request hp
    have hc : ¬ CompletesHttp requestId r := fun ⟨at', hp⟩ => hcompleted requestId at' hp
    have hreminds : ¬ RemindsHttp entry.request r := fun ⟨reminder, hp, _⟩ => hscheduled reminder hp
    rw [hentries, entryOf_concat_of_not hlt hr hc hreminds]

/-- The index made from a log holds the requests of the log. -/
theorem getElem?_hostHttpRequestIndex (hasc : records.Pairwise fun a b => a.lsn < b.lsn)
    (honce : RequestedOnce (· ∈ records)) (requestId : String) (entry : HostHttpRequestRecord) :
    (hostHttpRequestIndexFromWalRecords records)[requestId]? = some entry ↔
    EntryOf (· ∈ records) requestId entry := by
  rw [hostHttpRequestIndexFromWalRecords, orderedByLsn_of_ascending hasc]
  induction records using reverseRecOn generalizing requestId entry with
  | nil => simp [EntryOf]
  | append_singleton records r ih =>
    obtain ⟨hrecords, -, hlt⟩ := pairwise_append.mp hasc
    rw [foldl_append]
    refine getElem?_indexHostHttpRecord (fun r' hr' => hlt r' hr' r (mem_singleton.mpr rfl)) honce ?_ requestId entry
    exact ih hrecords fun requestId r r' hr hr' => honce requestId r r' (mem_append_left _ hr) (mem_append_left _ hr')

end NextDb.Api.HostHttp
