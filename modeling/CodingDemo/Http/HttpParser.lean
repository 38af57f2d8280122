import CodingDemo.Http.HttpSession

/-!
# The parser at the end of the headers

When the headers of a message end, the parser asks the session, and the result decides whether the
message has a body. A session parses the URL of every message there; a response has none.

## Main definitions

* `HttpParser`: what the parser knows of a message when its headers end
* `headersDone`: how the parser goes on
* `HttpSession.execute`: a message that is given to a session
* `Response`: a response in fragments
* `DeliversWhole`: the user gets the headers once, and the whole body

## Main results

* `headersCalls_callbacks`: without a URL the user never gets the headers
* `not_deliversWhole`: no response is delivered
-/

namespace CodingDemo.Libcpp

def HTTP_CONNECT : ℕ := 5

/-- What the parser knows when the headers of a message end. -/
structure HttpParser where
  isRequest : Bool
  method : ℕ := 0
  statusCode : ℕ := 0
  chunked : Bool := false
  /-- Nothing is `ULLONG_MAX`: there is no such header. -/
  contentLength : Option ℕ := none
  upgrade : Bool := false
  skipBody : Bool := false

namespace HttpParser

/-- The parser after `on_headers_complete`, unless it stops with an error. -/
def headersComplete (p : HttpParser) (result : ℤ) : Option HttpParser :=
  if result = 0 then some p
  else if result = 1 then some { p with skipBody := true }
  else if result = 2 then some { p with upgrade := true, skipBody := true }
  else none

def http_message_needs_eof (p : HttpParser) : Bool :=
  if p.isRequest then false
  else if p.statusCode / 100 = 1 ∨ p.statusCode = 204 ∨ p.statusCode = 304 ∨ p.skipBody then false
  else !(p.chunked || p.contentLength.isSome)

/-- How the parser goes on after the headers. -/
inductive BodyKind
  /-- The message is complete, and what follows is of another protocol. -/
  | upgrade
  /-- The message is complete. -/
  | none
  | chunked
  | identity (length : ℕ)
  /-- The body lasts until the end of the connection. -/
  | identityEof

def headersDone (p : HttpParser) : BodyKind :=
  let hasBody := p.chunked || p.contentLength.any (0 < ·)
  if p.upgrade && (p.method == HTTP_CONNECT || p.skipBody || !hasBody) then .upgrade
  else if p.skipBody then .none
  else if p.chunked then .chunked
  else
    match p.contentLength with
    | some 0 => .none
    | some length => .identity length
    | none => if p.http_message_needs_eof then .identityEof else .none

/-- The bodies that a message of the kind may have. -/
def BodyKind.Fits : BodyKind → List UInt8 → Prop
  | .upgrade, body | .none, body => body = []
  | .chunked, _ | .identityEof, _ => True
  | .identity length, body => body.length = length

end HttpParser

namespace HttpSession

variable (parseUrl : ParseUrl) (user : HttpCallbacks)

/-- A message is given to a session. If the session has it that there is no body, the parser takes
the bytes of the body for the next message, and `rest` are the callbacks that it makes of them. -/
def execute (s : HttpSession) (p : HttpParser) (t : MessageTrace) (rest : List Callback) :
    HttpSession :=
  let head := s.callbacks parseUrl user t.headCallbacks
  let (s, result) := head.onHeadersComplete parseUrl user t.method
  match p.headersComplete result with
  | none => s
  | some p =>
    match p.headersDone with
    | .upgrade => s.callbacks parseUrl user [.messageComplete]
    | .none => (s.callbacks parseUrl user [.messageComplete]).callbacks parseUrl user rest
    | .chunked | .identity _ | .identityEof => s.callbacks parseUrl user t.bodyCallbacks

end HttpSession

/-- The parser of a response has no URL to report. -/
def NoUrl (cs : List HttpSession.Callback) : Prop := ∀ data, HttpSession.Callback.url data ∉ cs

/-- A response in fragments, with what the parser knows of it. -/
structure Response extends HttpSession.MessageTrace where
  parser : HttpParser
  isResponse : parser.isRequest = false
  url_eq_nil : url = []
  method_eq : method = parser.method
  statusCode_eq : statusCode = parser.statusCode
  skipBody_eq : parser.skipBody = false
  /-- The body is as long as the headers have it. -/
  fits : parser.headersDone.Fits toMessageTrace.wholeBody

/-- The headers are given to the user once, and the message with its whole body. -/
def DeliversWhole (parseUrl : ParseUrl) (user : HttpCallbacks) (s : HttpSession) (r : Response)
    (rest : List HttpSession.Callback) : Prop :=
  let s' := s.execute parseUrl user r.parser r.toMessageTrace rest
  s'.headersCalls.length = s.headersCalls.length + 1 ∧
    ∃ msg, s'.messageCalls = s.messageCalls ++ [msg] ∧ msg.body = r.wholeBody

namespace HttpSession

variable {parseUrl : ParseUrl} {user : HttpCallbacks} {s : HttpSession}

/-! ## Messages without a URL -/

theorem url_addCurrent : s.addCurrent.httpMessage.url = s.httpMessage.url := by
  simp only [addCurrent]
  split_ifs <;> rfl

theorem url_finishHeaders (method : ℕ) :
    (s.finishHeaders method).httpMessage.url = s.httpMessage.url := by
  simp only [finishHeaders]
  split_ifs
  · exact url_addCurrent
  · rfl

theorem headersCalls_finishHeaders (method : ℕ) :
    (s.finishHeaders method).headersCalls = s.headersCalls := by
  simp only [finishHeaders]
  split_ifs <;> rfl

/-- Without a URL the end of the headers is an error, and the user is not called. -/
theorem onHeadersComplete_of_url (hparse : parseUrl [] = none) (method : ℕ)
    (h : s.httpMessage.url = []) :
    s.onHeadersComplete parseUrl user method = (s.finishHeaders method, 1) :=
  onHeadersComplete_of_none method (by rw [url_finishHeaders, h, hparse])

/-- A callback that reports no URL leaves the message without one, and the user does not get the
headers. -/
theorem callback_of_noUrl (hparse : parseUrl [] = none) (user : HttpCallbacks) {c : Callback}
    (hc : ∀ data, c ≠ .url data) (h : s.httpMessage.url = []) :
    (s.callback parseUrl user c).1.httpMessage.url = [] ∧
      (s.callback parseUrl user c).1.headersCalls = s.headersCalls := by
  cases c with
  | messageBegin => exact ⟨rfl, rfl⟩
  | url data => exact absurd rfl (hc data)
  | status | headerValue | body | chunkHeader | chunkComplete => exact ⟨h, rfl⟩
  | headerField data =>
    simp only [callback, onHeaderField]
    split_ifs
    · exact ⟨url_addCurrent.trans h, rfl⟩
    · exact ⟨h, rfl⟩
  | headersComplete method =>
    rw [callback, onHeadersComplete_of_url hparse method h]
    exact ⟨(url_finishHeaders method).trans h, headersCalls_finishHeaders method⟩
  | messageComplete =>
    simp only [callback, onMessageComplete]
    split <;> exact ⟨h, rfl⟩

theorem callbacks_of_noUrl (hparse : parseUrl [] = none) (user : HttpCallbacks)
    {cs : List Callback} (hcs : NoUrl cs) (h : s.httpMessage.url = []) :
    (s.callbacks parseUrl user cs).httpMessage.url = [] ∧
      (s.callbacks parseUrl user cs).headersCalls = s.headersCalls := by
  induction cs generalizing s with
  | nil => exact ⟨h, rfl⟩
  | cons c cs ih =>
    obtain ⟨hurl, hcalls⟩ := callback_of_noUrl hparse user (c := c)
      (fun data heq => hcs data (heq ▸ List.mem_cons_self)) h
    obtain ⟨hurl', hcalls'⟩ := ih (fun data hmem => hcs data (List.mem_cons_of_mem _ hmem)) hurl
    exact ⟨hurl', hcalls'.trans hcalls⟩

end HttpSession

open HttpSession (Callback)

variable {parseUrl : ParseUrl} {user : HttpCallbacks} {s : HttpSession}

/-! ## Responses -/

theorem HttpSession.HeaderTrace.noUrl (header : HttpSession.HeaderTrace) :
    NoUrl header.callbacks := by
  intro data hmem
  simp [HttpSession.HeaderTrace.callbacks] at hmem

/-- The callbacks of a response before the end of the headers, with the first one apart. -/
theorem Response.headCallbacks_eq (r : Response) : ∃ cs, NoUrl cs ∧
    r.toMessageTrace.headCallbacks = .messageBegin :: cs := by
  refine ⟨r.status.map (Callback.status · r.statusCode) ++
    r.headers.flatMap HttpSession.HeaderTrace.callbacks, fun data hmem => ?_, ?_⟩
  · rcases List.mem_append.mp hmem with hmem | hmem
    · simp at hmem
    · obtain ⟨header, -, hmem⟩ := List.mem_flatMap.mp hmem
      exact header.noUrl data hmem
  · rw [HttpSession.MessageTrace.headCallbacks, r.url_eq_nil]
    rfl

/-- When the headers of a response end, the message has no URL. -/
theorem Response.afterHead (hparse : parseUrl [] = none) (user : HttpCallbacks)
    (s : HttpSession) (r : Response) :
    (s.callbacks parseUrl user r.headCallbacks).httpMessage.url = [] ∧
      (s.callbacks parseUrl user r.headCallbacks).headersCalls = s.headersCalls := by
  obtain ⟨cs, hcs, hhead⟩ := r.headCallbacks_eq
  rw [hhead]
  exact HttpSession.callbacks_of_noUrl hparse user (s := s.onMessageBegin) hcs rfl

/-- The message of a response is complete at the end of its headers. The bytes of the body may be
taken for another message. -/
theorem Response.execute_eq (hparse : parseUrl [] = none) (user : HttpCallbacks)
    (s : HttpSession) (r : Response) (rest : List Callback) :
    ∃ cs, (cs = [] ∨ cs = rest) ∧ s.execute parseUrl user r.parser r.toMessageTrace rest =
      (((s.callbacks parseUrl user r.headCallbacks).finishHeaders r.method).callbacks parseUrl user
        [.messageComplete]).callbacks parseUrl user cs := by
  have hskip : r.parser.headersComplete 1 = some { r.parser with skipBody := true } := rfl
  simp only [HttpSession.execute,
    HttpSession.onHeadersComplete_of_url hparse r.method (r.afterHead hparse user s).1, hskip]
  -- with `F_SKIPBODY` there is no body to read
  have hdone : HttpParser.headersDone { r.parser with skipBody := true } = .upgrade ∨
      HttpParser.headersDone { r.parser with skipBody := true } = .none := by
    simp only [HttpParser.headersDone, Bool.or_true, Bool.true_or, if_true]
    split_ifs
    · exact .inl rfl
    · exact .inr rfl
  rcases hdone with hdone | hdone
  · exact ⟨[], .inl rfl, by rw [hdone]; rfl⟩
  · exact ⟨rest, .inr rfl, by rw [hdone]⟩

/-- A session never calls the user with the headers of a response. -/
theorem Response.headersCalls_execute (hparse : parseUrl [] = none) (r : Response)
    {rest : List Callback} (hrest : NoUrl rest) :
    (s.execute parseUrl user r.parser r.toMessageTrace rest).headersCalls = s.headersCalls := by
  obtain ⟨cs, hcs, hexecute⟩ := r.execute_eq hparse user s rest
  obtain ⟨hurl, hcalls⟩ := r.afterHead hparse user s
  have hnoUrl : NoUrl (.messageComplete :: cs) := by
    intro data hmem
    rcases hcs with rfl | rfl
    · cases List.mem_singleton.mp hmem
    · exact hrest data (List.mem_of_ne_of_mem (by simp) hmem)
  have hrun := HttpSession.callbacks_of_noUrl hparse user hnoUrl
    (s := (s.callbacks parseUrl user r.headCallbacks).finishHeaders r.method)
    ((HttpSession.url_finishHeaders _).trans hurl)
  rw [hexecute]
  exact hrun.2.trans ((HttpSession.headersCalls_finishHeaders _).trans hcalls)

/-- No response is delivered: the user never gets its headers. -/
theorem not_deliversWhole (hparse : parseUrl [] = none) (user : HttpCallbacks) (s : HttpSession)
    (r : Response) {rest : List Callback} (hrest : NoUrl rest) :
    ¬DeliversWhole parseUrl user s r rest := by
  rintro ⟨hheaders, -⟩
  rw [r.headersCalls_execute hparse hrest] at hheaders
  omega

/-- The parser fails at an empty URL only. -/
def parseNonempty : ParseUrl := fun url => if url = [] then none else some none

/-- A response with the body "hello". -/
def helloResponse : Response where
  url := []
  status := [asciiBytes "OK"]
  statusCode := 200
  headers := [⟨[asciiBytes "Content-Length"], [asciiBytes "5"], List.cons_ne_nil _ _,
    List.cons_ne_nil _ _⟩]
  method := 0
  body := [.fragment (asciiBytes "hello")]
  parser := { isRequest := false, statusCode := 200, contentLength := some 5 }
  isResponse := rfl
  url_eq_nil := rfl
  method_eq := rfl
  statusCode_eq := rfl
  skipBody_eq := rfl
  fits := rfl

theorem not_deliversWhole_hello : ¬DeliversWhole parseNonempty
    { onHeaders := some fun _ => 0, onMessage := some fun _ => 0 } {} helloResponse [] :=
  not_deliversWhole rfl _ _ _ fun _ => List.not_mem_nil

/-- The user gets no headers, and a message without its body. -/
theorem execute_hello :
    let user : HttpCallbacks := { onHeaders := some fun _ => 0, onMessage := some fun _ => 0 }
    let s := ({} : HttpSession).execute parseNonempty user helloResponse.parser
      helloResponse.toMessageTrace []
    s.headersCalls.length = 0 ∧ s.messageCalls.map HttpMessage.body = [[]] ∧
      ¬DeliversWhole parseNonempty user {} helloResponse [] := by
  have hheaders : (({} : HttpSession).execute parseNonempty
      { onHeaders := some fun _ => 0, onMessage := some fun _ => 0 } helloResponse.parser
      helloResponse.toMessageTrace []).headersCalls.length = 0 := by decide
  refine ⟨hheaders, by decide, fun h => ?_⟩
  have hone := h.1
  rw [hheaders] at hone
  cases hone

end CodingDemo.Libcpp
