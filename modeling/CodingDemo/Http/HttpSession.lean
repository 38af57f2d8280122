import CodingDemo.Http.HttpMessage

/-!
# HTTP sessions

The parser of a session calls it back for each part of a message, and may cut a part into fragments.
The session puts the message together. It knows that a header is complete when the next one begins,
or when the headers end.

## Main definitions

* `HttpSession`: the members, with the calls that the user gets
* `Callback`, `callback`: the callbacks of the parser
* `MessageTrace`: a message cut into fragments
* `Assembled`: the message that is put together

## Main results

* `assembled_callbacks`, `assembled_of_named`: a message is put together however it is cut
-/

namespace CodingDemo.Libcpp

/-- The callbacks of the user, with their results. -/
structure HttpCallbacks where
  onHeaders : Option (HttpMessage → ℤ) := none
  onMessage : Option (HttpMessage → ℤ) := none

/-- `http_parser_parse_url`: nothing if it fails (then it returns 1), else the field `UF_PATH`, if
it is set, as an offset and a length. -/
abbrev ParseUrl := List UInt8 → Option (Option (ℕ × ℕ))

structure HttpSession where
  /-- Before the first message there is none. -/
  httpMessage : HttpMessage := {}
  curField : List UInt8 := []
  curValue : List UInt8 := []
  lastIsValue : Bool := true
  /-- The messages for which `onHeadersCallback_` has been called. -/
  headersCalls : List HttpMessage := []
  /-- The messages for which `onMessageCallback_` has been called. -/
  messageCalls : List HttpMessage := []

namespace HttpSession

variable (parseUrl : ParseUrl) (user : HttpCallbacks)

/-! ## The callbacks -/

def onMessageBegin (s : HttpSession) : HttpSession :=
  { s with httpMessage := {}, curField := [], curValue := [], lastIsValue := true }

def onUrl (s : HttpSession) (data : List UInt8) : HttpSession :=
  { s with httpMessage := s.httpMessage.appendUrl data }

def onStatus (s : HttpSession) (statusCode : ℕ) : HttpSession :=
  { s with httpMessage := s.httpMessage.setStatus statusCode }

/-- The header that has been read is added, unless its name is empty. -/
def addCurrent (s : HttpSession) : HttpSession :=
  { s with
    httpMessage :=
      if s.curField = [] then s.httpMessage else s.httpMessage.addHeader s.curField s.curValue
    curField := []
    curValue := [] }

def onHeaderField (s : HttpSession) (data : List UInt8) : HttpSession :=
  let s := if s.lastIsValue then s.addCurrent else s
  { s with curField := s.curField ++ data, lastIsValue := false }

def onHeaderValue (s : HttpSession) (data : List UInt8) : HttpSession :=
  { s with curValue := s.curValue ++ data, lastIsValue := true }

/-- The method is set, and the last header is added. -/
def finishHeaders (s : HttpSession) (method : ℕ) : HttpSession :=
  let s := { s with httpMessage := s.httpMessage.setMethod method }
  if s.lastIsValue then s.addCurrent else s

/-- The path of the URL, if it has one. -/
def setUrlPath (msg : HttpMessage) : Option (ℕ × ℕ) → HttpMessage
  | none => msg
  | some (off, len) => msg.setPath ((msg.url.drop off).take len)

/-- The result tells the parser what to do: with 1 it takes the message to have no body. -/
def onHeadersComplete (s : HttpSession) (method : ℕ) : HttpSession × ℤ :=
  let s := s.finishHeaders method
  match parseUrl s.httpMessage.url with
  | none => (s, 1)
  | some path =>
    let msg := setUrlPath s.httpMessage path
    let s := { s with httpMessage := msg }
    match user.onHeaders with
    | none => (s, 0)
    | some onHeaders => ({ s with headersCalls := s.headersCalls ++ [msg] }, onHeaders msg)

def onBody (s : HttpSession) (data : List UInt8) : HttpSession :=
  { s with httpMessage := s.httpMessage.appendBody data }

def onMessageComplete (s : HttpSession) : HttpSession × ℤ :=
  match user.onMessage with
  | none => (s, 0)
  | some onMessage =>
    ({ s with messageCalls := s.messageCalls ++ [s.httpMessage] }, onMessage s.httpMessage)

/-- The callbacks of the parser. -/
inductive Callback
  | messageBegin
  | url (data : List UInt8)
  | status (data : List UInt8) (statusCode : ℕ)
  | headerField (data : List UInt8)
  | headerValue (data : List UInt8)
  | headersComplete (method : ℕ)
  | body (data : List UInt8)
  | chunkHeader
  | chunkComplete
  | messageComplete

def callback (s : HttpSession) : Callback → HttpSession × ℤ
  | .messageBegin => (s.onMessageBegin, 0)
  | .url data => (s.onUrl data, 0)
  | .status _ statusCode => (s.onStatus statusCode, 0)
  | .headerField data => (s.onHeaderField data, 0)
  | .headerValue data => (s.onHeaderValue data, 0)
  | .headersComplete method => s.onHeadersComplete parseUrl user method
  | .body data => (s.onBody data, 0)
  | .chunkHeader | .chunkComplete => (s, 0)
  | .messageComplete => s.onMessageComplete user

/-- The session after callbacks. -/
def callbacks (s : HttpSession) (cs : List Callback) : HttpSession :=
  cs.foldl (fun s c => (s.callback parseUrl user c).1) s

/-! ## A message in fragments -/

/-- A header: fragments of the name, and fragments of the value, at least one of each. -/
structure HeaderTrace where
  field : List (List UInt8)
  value : List (List UInt8)
  field_ne_nil : field ≠ []
  value_ne_nil : value ≠ []

namespace HeaderTrace

/-- The name and the value, uncut. -/
def whole (h : HeaderTrace) : List UInt8 × List UInt8 := (h.field.flatten, h.value.flatten)

def callbacks (h : HeaderTrace) : List Callback :=
  h.field.map Callback.headerField ++ h.value.map Callback.headerValue

end HeaderTrace

/-- A part of a body: a fragment, or the begin or the end of a chunk. -/
inductive BodyTrace
  | fragment (data : List UInt8)
  | chunkHeader
  | chunkComplete

namespace BodyTrace

def bytes : BodyTrace → List UInt8
  | .fragment data => data
  | .chunkHeader | .chunkComplete => []

def callback : BodyTrace → Callback
  | .fragment data => .body data
  | .chunkHeader => .chunkHeader
  | .chunkComplete => .chunkComplete

end BodyTrace

/-- A message as the parser reports it: the fragments of the URL or of the status, the headers, and
the body. -/
structure MessageTrace where
  url : List (List UInt8)
  status : List (List UInt8)
  statusCode : ℕ
  headers : List HeaderTrace
  method : ℕ
  body : List BodyTrace

namespace MessageTrace

def wholeUrl (t : MessageTrace) : List UInt8 := t.url.flatten

def wholeHeaders (t : MessageTrace) : List (List UInt8 × List UInt8) :=
  t.headers.map HeaderTrace.whole

def wholeBody (t : MessageTrace) : List UInt8 := t.body.flatMap BodyTrace.bytes

/-- The callbacks before the end of the headers. -/
def headCallbacks (t : MessageTrace) : List Callback :=
  .messageBegin :: t.url.map Callback.url ++ t.status.map (Callback.status · t.statusCode) ++
    t.headers.flatMap HeaderTrace.callbacks

/-- The callbacks after the end of the headers. -/
def bodyCallbacks (t : MessageTrace) : List Callback :=
  t.body.map BodyTrace.callback ++ [.messageComplete]

end MessageTrace

/-- The session when `onHeadersComplete` has returned. -/
def afterHeaders (s : HttpSession) (t : MessageTrace) : HttpSession :=
  s.callbacks parseUrl user (t.headCallbacks ++ [.headersComplete t.method])

/-- The session when `onMessageComplete` has returned. -/
def afterMessage (s : HttpSession) (t : MessageTrace) : HttpSession :=
  (s.afterHeaders parseUrl user t).callbacks parseUrl user t.bodyCallbacks

/-- The message has the URL, the headers and the body. -/
structure Assembled (msg : HttpMessage) (url : List UInt8)
    (headers : List (List UInt8 × List UInt8)) (body : List UInt8) : Prop where
  url : msg.url = url
  headers : msg.headers = .ofList headers
  body : msg.body = body

variable {parseUrl : ParseUrl} {user : HttpCallbacks} {s : HttpSession}

/-! ## Fragments -/

@[simp] theorem callbacks_nil : s.callbacks parseUrl user [] = s := rfl

theorem callbacks_cons (c : Callback) (cs : List Callback) :
    s.callbacks parseUrl user (c :: cs) =
      (s.callback parseUrl user c).1.callbacks parseUrl user cs := rfl

theorem callbacks_append (cs cs' : List Callback) :
    s.callbacks parseUrl user (cs ++ cs') =
      (s.callbacks parseUrl user cs).callbacks parseUrl user cs' :=
  List.foldl_append

/-- The fragments of a URL are one URL. -/
theorem callbacks_url (frags : List (List UInt8)) :
    s.callbacks parseUrl user (frags.map Callback.url) = s.onUrl frags.flatten := by
  induction frags generalizing s with
  | nil => simp [onUrl, HttpMessage.appendUrl]
  | cons frag frags ih =>
    rw [List.map_cons, callbacks_cons, ih]
    simp [callback, onUrl, HttpMessage.appendUrl]

/-- The status of a message is set a number of times. -/
theorem iterate_setStatus (msg : HttpMessage) (statusCode n : ℕ) :
    (HttpMessage.setStatus · statusCode)^[n] msg =
      { msg with
        status := if n = 0 then msg.status else statusCode
        hint := msg.hint ++ (List.replicate n (http_status_str statusCode)).flatten } := by
  induction n generalizing msg with
  | zero => simp
  | succ n ih =>
    rw [Function.iterate_succ_apply, ih, if_neg (Nat.succ_ne_zero n), List.replicate_succ]
    simp [HttpMessage.setStatus]

/-- Each fragment of a status sets it. -/
theorem callbacks_status (frags : List (List UInt8)) (statusCode : ℕ) :
    s.callbacks parseUrl user (frags.map (Callback.status · statusCode)) =
      { s with
        httpMessage := (HttpMessage.setStatus · statusCode)^[frags.length] s.httpMessage } := by
  induction frags generalizing s with
  | nil => rfl
  | cons frag frags ih =>
    rw [List.map_cons, callbacks_cons, ih, List.length_cons, Function.iterate_succ_apply]
    rfl

theorem callbacks_body (body : List BodyTrace) :
    s.callbacks parseUrl user (body.map BodyTrace.callback) =
      s.onBody (body.flatMap BodyTrace.bytes) := by
  induction body generalizing s with
  | nil => simp [onBody, HttpMessage.appendBody]
  | cons part body ih =>
    rw [List.map_cons, callbacks_cons, ih]
    cases part <;> simp [BodyTrace.callback, BodyTrace.bytes, callback, onBody,
      HttpMessage.appendBody]

/-! ## Headers -/

/-- The fragments of a name that has begun. -/
theorem callbacks_field_of_begun (h : s.lastIsValue = false) (frags : List (List UInt8)) :
    s.callbacks parseUrl user (frags.map Callback.headerField) =
      { s with curField := s.curField ++ frags.flatten } := by
  induction frags generalizing s with
  | nil => simp
  | cons frag frags ih =>
    have hfield : (s.callback parseUrl user (.headerField frag)).1 =
        { s with curField := s.curField ++ frag, lastIsValue := false } := by
      simp [callback, onHeaderField, h]
    rw [List.map_cons, callbacks_cons, hfield, ih rfl]
    simp [h]

/-- A name after a value: the header before it is complete. -/
theorem callbacks_field (h : s.lastIsValue = true) {frags : List (List UInt8)} (hne : frags ≠ []) :
    s.callbacks parseUrl user (frags.map Callback.headerField) =
      { s.addCurrent with curField := frags.flatten, lastIsValue := false } := by
  obtain ⟨frag, frags, rfl⟩ := List.exists_cons_of_ne_nil hne
  have hfield : (s.callback parseUrl user (.headerField frag)).1 =
      { s.addCurrent with curField := frag, lastIsValue := false } := by
    simp [callback, onHeaderField, h, addCurrent]
  rw [List.map_cons, callbacks_cons, hfield, callbacks_field_of_begun rfl]
  rfl

theorem callbacks_value {frags : List (List UInt8)} (hne : frags ≠ []) :
    s.callbacks parseUrl user (frags.map Callback.headerValue) =
      { s with curValue := s.curValue ++ frags.flatten, lastIsValue := true } := by
  induction frags generalizing s with
  | nil => exact absurd rfl hne
  | cons frag frags ih =>
    rw [List.map_cons, callbacks_cons]
    cases frags with
    | nil => simp [callback, onHeaderValue]
    | cons frag' frags =>
      rw [ih (List.cons_ne_nil _ _)]
      simp [callback, onHeaderValue]

/-- A header completes the one before it, and is itself complete only later. -/
theorem callbacks_header (h : s.lastIsValue = true) (header : HeaderTrace) :
    s.callbacks parseUrl user header.callbacks =
      { s.addCurrent with
        curField := header.whole.1, curValue := header.whole.2, lastIsValue := true } := by
  rw [HeaderTrace.callbacks, callbacks_append, callbacks_field h header.field_ne_nil,
    callbacks_value header.value_ne_nil]
  rfl

/-- A header is added, unless its name is empty. -/
def addEntry (msg : HttpMessage) (e : List UInt8 × List UInt8) : HttpMessage :=
  if e.1 = [] then msg else msg.addHeader e.1 e.2

/-- The headers that have been read, and the last of them when it is added. -/
theorem callbacks_headers (h : s.lastIsValue = true) (headers : List HeaderTrace) :
    (s.callbacks parseUrl user (headers.flatMap HeaderTrace.callbacks)).lastIsValue = true ∧
      (s.callbacks parseUrl user (headers.flatMap HeaderTrace.callbacks)).addCurrent =
        { s.addCurrent with httpMessage :=
            (headers.map HeaderTrace.whole).foldl addEntry s.addCurrent.httpMessage } := by
  induction headers generalizing s with
  | nil => exact ⟨h, rfl⟩
  | cons header headers ih =>
    rw [List.flatMap_cons, callbacks_append, callbacks_header h]
    obtain ⟨hvalue, hcurrent⟩ := ih (s := { s.addCurrent with
      curField := header.whole.1, curValue := header.whole.2, lastIsValue := true }) rfl
    refine ⟨hvalue, hcurrent.trans ?_⟩
    simp only [addCurrent, h, List.map_cons, List.foldl_cons, addEntry]

theorem foldl_addEntry (entries : List (List UInt8 × List UInt8)) (msg : HttpMessage) :
    entries.foldl addEntry msg = { msg with
      headers := (entries.filter fun e => e.1 ≠ []).foldl (fun m e => m.insert e.1 e.2)
        msg.headers } := by
  induction entries generalizing msg with
  | nil => rfl
  | cons e entries ih =>
    rw [List.foldl_cons, ih, addEntry, List.filter_cons]
    split_ifs with hnil hdecide hdecide
    · exact absurd hnil (of_decide_eq_true hdecide)
    · rfl
    · rfl
    · exact absurd (decide_eq_true hnil) hdecide

/-! ## The whole message -/

theorem httpMessage_finishHeaders (h : s.lastIsValue = true) (method : ℕ) :
    (s.finishHeaders method).httpMessage =
      { s.addCurrent.httpMessage with method := http_method_str method } := by
  simp only [finishHeaders, h, if_true, addCurrent, HttpMessage.setMethod]
  split_ifs <;> rfl

/-- The URL decides how the headers end: with an error, or with the callback of the user. -/
theorem onHeadersComplete_of_none (method : ℕ)
    (h : parseUrl (s.finishHeaders method).httpMessage.url = none) :
    s.onHeadersComplete parseUrl user method = (s.finishHeaders method, 1) := by
  simp only [onHeadersComplete, h]

/-- What the parser is told about a message whose headers have ended. -/
def headersResult (parseUrl : ParseUrl) (user : HttpCallbacks) (msg : HttpMessage) : ℤ :=
  if parseUrl msg.url = none then 1
  else
    match user.onHeaders with
    | none => 0
    | some onHeaders => onHeaders msg

/-- A message with the path of its URL. -/
def withPath (parseUrl : ParseUrl) (msg : HttpMessage) : HttpMessage :=
  setUrlPath msg ((parseUrl msg.url).getD none)

theorem withPath_eq (msg : HttpMessage) :
    withPath parseUrl msg = { msg with path := (withPath parseUrl msg).path } := by
  unfold withPath
  cases (parseUrl msg.url).getD none with
  | none => rfl
  | some field => rfl

/-- The session has the message with its path, and the parser is told of that message. -/
theorem onHeadersComplete_spec (method : ℕ) :
    (s.onHeadersComplete parseUrl user method).1.httpMessage =
        withPath parseUrl (s.finishHeaders method).httpMessage ∧
      (s.onHeadersComplete parseUrl user method).2 =
        headersResult parseUrl user (withPath parseUrl (s.finishHeaders method).httpMessage) := by
  have hurl : (withPath parseUrl (s.finishHeaders method).httpMessage).url =
      (s.finishHeaders method).httpMessage.url := by rw [withPath_eq]
  simp only [headersResult, hurl]
  simp only [onHeadersComplete, withPath]
  split
  · next hnone =>
    rw [hnone]
    exact ⟨rfl, (if_pos rfl).symm⟩
  · next path hpath =>
    rw [hpath, if_neg (Option.some_ne_none _)]
    cases user.onHeaders with
    | none => exact ⟨rfl, rfl⟩
    | some onHeaders => exact ⟨rfl, rfl⟩

/-- The message of the fragments at the end of the headers, without its path. -/
def MessageTrace.headMessage (t : MessageTrace) : HttpMessage where
  method := http_method_str t.method
  url := t.wholeUrl
  status := if t.status.length = 0 then 200 else t.statusCode
  hint := (List.replicate t.status.length (http_status_str t.statusCode)).flatten
  headers := .ofList (t.wholeHeaders.filter fun e => e.1 ≠ [])

/-- Before the end of the headers the method and the last header are still missing. -/
theorem callbacks_head (t : MessageTrace) :
    (s.callbacks parseUrl user t.headCallbacks).lastIsValue = true ∧
      ((s.callbacks parseUrl user t.headCallbacks).finishHeaders t.method).httpMessage =
        t.headMessage := by
  -- the session when the headers begin
  let started := { s.onMessageBegin.onUrl t.url.flatten with
    httpMessage := (HttpMessage.setStatus · t.statusCode)^[t.status.length]
      (s.onMessageBegin.onUrl t.url.flatten).httpMessage }
  obtain ⟨hvalue, hcurrent⟩ := @callbacks_headers parseUrl user started rfl t.headers
  have hhead : s.callbacks parseUrl user t.headCallbacks =
      started.callbacks parseUrl user (t.headers.flatMap HeaderTrace.callbacks) := by
    rw [MessageTrace.headCallbacks, callbacks_append, callbacks_append, callbacks_cons,
      callbacks_url, callbacks_status]
    rfl
  rw [hhead]
  refine ⟨hvalue, ?_⟩
  rw [httpMessage_finishHeaders hvalue, hcurrent, foldl_addEntry]
  simp only [started, iterate_setStatus]
  rfl

/-- The message at the end of the headers. -/
theorem httpMessage_afterHeaders (t : MessageTrace) :
    (s.afterHeaders parseUrl user t).httpMessage = withPath parseUrl t.headMessage := by
  rw [afterHeaders, callbacks_append]
  refine (onHeadersComplete_spec t.method).1.trans ?_
  rw [(callbacks_head t).2]

theorem httpMessage_afterMessage (t : MessageTrace) :
    (s.afterMessage parseUrl user t).httpMessage =
      (withPath parseUrl t.headMessage).appendBody t.wholeBody := by
  have hhead : (s.afterHeaders parseUrl user t).httpMessage = withPath parseUrl t.headMessage :=
    httpMessage_afterHeaders t
  rw [← hhead, afterMessage, MessageTrace.bodyCallbacks, callbacks_append, callbacks_body]
  simp only [callbacks, List.foldl_cons, List.foldl_nil, callback, onMessageComplete]
  split <;> rfl

/-- However a message is cut into fragments, and whatever the session has received before it, the
session has put together the URL, and the map of the headers that have a name, when
`onHeadersComplete` returns, and also the body when `onMessageComplete` returns. -/
theorem assembled_callbacks (parseUrl : ParseUrl) (user : HttpCallbacks) (s : HttpSession)
    (t : MessageTrace) :
    Assembled (s.afterHeaders parseUrl user t).httpMessage t.wholeUrl
        (t.wholeHeaders.filter fun e => e.1 ≠ []) [] ∧
      Assembled (s.afterMessage parseUrl user t).httpMessage t.wholeUrl
        (t.wholeHeaders.filter fun e => e.1 ≠ []) t.wholeBody := by
  rw [httpMessage_afterMessage, httpMessage_afterHeaders, withPath_eq]
  exact ⟨⟨rfl, rfl, rfl⟩, ⟨rfl, rfl, rfl⟩⟩

/-- A name that the parser reports has at least one byte. Then the session has put together all
headers when `onHeadersComplete` returns, and the whole message when `onMessageComplete` returns,
however the message is cut into fragments. -/
theorem assembled_of_named (parseUrl : ParseUrl) (user : HttpCallbacks) (s : HttpSession)
    (t : MessageTrace) (hnames : ∀ header ∈ t.headers, header.field.flatten ≠ []) :
    Assembled (s.afterHeaders parseUrl user t).httpMessage t.wholeUrl t.wholeHeaders [] ∧
      Assembled (s.afterMessage parseUrl user t).httpMessage t.wholeUrl t.wholeHeaders
        t.wholeBody := by
  have hfilter : (t.wholeHeaders.filter fun e => e.1 ≠ []) = t.wholeHeaders := by
    apply List.filter_eq_self.mpr
    intro e he
    obtain ⟨header, hheader, rfl⟩ := List.mem_map.mp he
    exact decide_eq_true (hnames header hheader)
  have h := assembled_callbacks parseUrl user s t
  rwa [hfilter] at h

/-- A request with a header twice, the second time with a value that is empty. -/
def repeatedTrace : MessageTrace where
  url := [asciiBytes "/a", [], asciiBytes "/b"]
  status := []
  statusCode := 0
  headers := [⟨[asciiBytes "Ho", asciiBytes "st"], [[], asciiBytes "c"], List.cons_ne_nil _ _,
      List.cons_ne_nil _ _⟩,
    ⟨[[], asciiBytes "Host"], [[]], List.cons_ne_nil _ _, List.cons_ne_nil _ _⟩]
  method := 1
  body := [.fragment (asciiBytes "x"), .fragment (asciiBytes "y")]

theorem assembled_of_named_repeated :
    let s := ({} : HttpSession).afterMessage (fun _ => none) {} repeatedTrace
    (s.afterMessage (fun _ => none) {} repeatedTrace).httpMessage.url = asciiBytes "/a/b" ∧
      (s.afterMessage (fun _ => none) {} repeatedTrace).httpMessage.headers =
        .ofList [(asciiBytes "Host", asciiBytes "c"), (asciiBytes "Host", [])] ∧
      (s.afterMessage (fun _ => none) {} repeatedTrace).httpMessage.body = asciiBytes "xy" := by
  intro s
  obtain ⟨-, h⟩ := assembled_of_named (fun _ => none) {} s repeatedTrace (by decide)
  exact ⟨h.url, h.headers, h.body⟩

end HttpSession

end CodingDemo.Libcpp
