import CodingDemo.Http.HttpSession
import CodingDemo.Http.Rfc7230

/-!
# Forwarding a request

A server forwards a request by writing the message that it has put together: the stored headers, and
the stored body. The body has been taken out of its transfer coding, but the headers still name the
coding.

## Main definitions

* `Reports`: the fragments of a request
* `Delivered`: a session delivers a request to its message callback
* `Survives`: the written message is delivered as the same request

## Main results

* `Delivered.spec`: what is delivered
* `survives_iff`: which requests survive
-/

namespace CodingDemo.Libcpp.HttpSession

open Rfc7230 (Head Field Framing parseHead parseBody framing encodeHead)

variable {parseUrl : ParseUrl} {user : HttpCallbacks} {s : HttpSession}

/-- The parser reports a request line and header fields. -/
structure Reports (t : MessageTrace) (head : Head) : Prop where
  url : t.wholeUrl = head.target
  headers : t.wholeHeaders = head.fields
  method : methodStrings[t.method]? = some head.method
  status : t.status = []

/-- What a session tells the parser at the end of the headers. -/
def headResult (parseUrl : ParseUrl) (user : HttpCallbacks) (s : HttpSession) (t : MessageTrace) :
    ℤ :=
  ((s.callbacks parseUrl user t.headCallbacks).onHeadersComplete parseUrl user t.method).2

/-- A body with a trailer. The parser reports a trailer as it does headers. -/
def tailCallbacks (body : List BodyTrace) (trailer : List HeaderTrace) : List Callback :=
  body.map BodyTrace.callback ++ trailer.flatMap HeaderTrace.callbacks

/-- The message callback is called once, at the end of the message. -/
def CallsBack (parseUrl : ParseUrl) (user : HttpCallbacks) (s : HttpSession) (t : MessageTrace)
    (tail : List Callback) (msg : HttpMessage) : Prop :=
  ((s.afterHeaders parseUrl user t).callbacks parseUrl user
    (tail ++ [.messageComplete])).messageCalls = s.messageCalls ++ [msg]

/-- The session `s` is given bytes that begin with a request, in fragments; the message callback
gets a message, and bytes are left over. -/
inductive Delivered (parseUrl : ParseUrl) (user : HttpCallbacks) (s : HttpSession)
    (bytes : List UInt8) (head : Head) : HttpMessage → List UInt8 → Prop
  /-- The session has it that there is no body. -/
  | withoutBody {t : MessageTrace} {rest : List UInt8} {msg : HttpMessage}
      (hhead : parseHead bytes = some (head, rest)) (ht : Reports t head)
      (hresult : headResult parseUrl user s t = 1 ∨ headResult parseUrl user s t = 2)
      (hmsg : CallsBack parseUrl user s t [] msg) :
      Delivered parseUrl user s bytes head msg rest
  /-- The body is as long as the header fields have it. -/
  | withBody {t : MessageTrace} {after data rest : List UInt8} {kind : Framing}
      {body : List BodyTrace} {trailer : List HeaderTrace} {msg : HttpMessage}
      (hhead : parseHead bytes = some (head, after)) (ht : Reports t head)
      (hresult : headResult parseUrl user s t = 0) (hframing : framing head.fields = some kind)
      (hbody : parseBody kind after = some (data, trailer.map HeaderTrace.whole, rest))
      (hdata : body.flatMap BodyTrace.bytes = data)
      (hmsg : CallsBack parseUrl user s t (tailCallbacks body trailer) msg) :
      Delivered parseUrl user s bytes head msg rest

/-- Two messages with the same method, URL, headers and body. -/
structure Same (msg msg' : HttpMessage) : Prop where
  method : msg.method = msg'.method
  url : msg.url = msg'.url
  headers : msg.headers = msg'.headers
  body : msg.body = msg'.body

/-- A fresh session delivers the written message as the same request, however it is cut, and no
bytes are left over. -/
def Survives (parseUrl : ParseUrl) (user : HttpCallbacks) (msg : HttpMessage) : Prop :=
  (∃ head msg' rest, Delivered parseUrl user {} msg.getRequestAsString head msg' rest) ∧
    ∀ head msg' rest, Delivered parseUrl user {} msg.getRequestAsString head msg' rest →
      rest = [] ∧ Same msg' msg

/-! ## The end of the headers -/

/-- The message of a request at the end of its headers. -/
def requestMessage (parseUrl : ParseUrl) (head : Head) : HttpMessage :=
  withPath parseUrl { method := head.method, url := head.target, headers := .ofList head.fields }

theorem requestMessage_eq (head : Head) : requestMessage parseUrl head =
    { method := head.method
      url := head.target
      headers := .ofList head.fields
      path := (requestMessage parseUrl head).path } :=
  withPath_eq _

/-- A header field has a name, so the session adds all of them. -/
theorem headMessage_of_reports {t : MessageTrace} {head : Head} (hvalid : head.Valid)
    (ht : Reports t head) : t.headMessage =
      { method := head.method, url := head.target, headers := .ofList head.fields } := by
  have hnames : t.wholeHeaders.filter (fun e => e.1 ≠ []) = head.fields := by
    rw [ht.headers]
    refine List.filter_eq_self.mpr fun e he => decide_eq_true fun hnil => ?_
    have hname := (hvalid.fields e he).name
    rw [hnil] at hname
    exact absurd hname (by decide)
  have hmethod : http_method_str t.method = head.method := by
    rw [http_method_str, ht.method]
    rfl
  rw [MessageTrace.headMessage, hnames, hmethod, ht.url, ht.status]
  rfl

theorem httpMessage_of_reports {t : MessageTrace} {head : Head} (hvalid : head.Valid)
    (ht : Reports t head) :
    (s.afterHeaders parseUrl user t).httpMessage = requestMessage parseUrl head := by
  rw [httpMessage_afterHeaders, headMessage_of_reports hvalid ht]
  rfl

theorem headResult_of_reports {t : MessageTrace} {head : Head} (hvalid : head.Valid)
    (ht : Reports t head) :
    headResult parseUrl user s t = headersResult parseUrl user (requestMessage parseUrl head) := by
  rw [headResult, (onHeadersComplete_spec t.method).2, (callbacks_head t).2,
    headMessage_of_reports hvalid ht]
  rfl

/-- No header is pending when the headers have ended. -/
theorem pending_onHeadersComplete (h : s.lastIsValue = true) (method : ℕ) :
    (s.onHeadersComplete parseUrl user method).1.lastIsValue = true ∧
      (s.onHeadersComplete parseUrl user method).1.curField = [] := by
  have hfinish : (s.finishHeaders method).lastIsValue = true ∧
      (s.finishHeaders method).curField = [] := by
    simp [finishHeaders, h, addCurrent]
  simp only [onHeadersComplete]
  split
  · exact hfinish
  · split <;> exact hfinish

theorem pending_afterHeaders (t : MessageTrace) :
    (s.afterHeaders parseUrl user t).lastIsValue = true ∧
      (s.afterHeaders parseUrl user t).curField = [] := by
  rw [afterHeaders, callbacks_append]
  exact pending_onHeadersComplete (callbacks_head t).1 t.method

/-! ## The call of the user -/

theorem messageCalls_callback {c : Callback} (h : c ≠ .messageComplete) :
    (s.callback parseUrl user c).1.messageCalls = s.messageCalls := by
  cases c with
  | messageComplete => exact absurd rfl h
  | messageBegin | url | status | headerValue | body | chunkHeader | chunkComplete => rfl
  | headerField data =>
    simp only [callback, onHeaderField]
    split_ifs <;> rfl
  | headersComplete method =>
    have hfinish : (s.finishHeaders method).messageCalls = s.messageCalls := by
      simp only [finishHeaders]
      split_ifs <;> rfl
    simp only [callback, onHeadersComplete]
    split
    · exact hfinish
    · split <;> exact hfinish

theorem messageCalls_callbacks {cs : List Callback} (h : Callback.messageComplete ∉ cs) :
    (s.callbacks parseUrl user cs).messageCalls = s.messageCalls := by
  induction cs generalizing s with
  | nil => rfl
  | cons c cs ih =>
    obtain ⟨hc, hcs⟩ := List.ne_and_not_mem_of_not_mem_cons h
    rw [callbacks_cons, ih hcs, messageCalls_callback hc.symm]

theorem not_mem_headerCallbacks (headers : List HeaderTrace) :
    Callback.messageComplete ∉ headers.flatMap HeaderTrace.callbacks := by
  simp [HeaderTrace.callbacks]

theorem not_mem_tailCallbacks (body : List BodyTrace) (trailer : List HeaderTrace) :
    Callback.messageComplete ∉ tailCallbacks body trailer := by
  intro hmem
  rcases List.mem_append.mp hmem with hmem | hmem
  · obtain ⟨part, -, heq⟩ := List.mem_map.mp hmem
    cases part <;> cases heq
  · exact not_mem_headerCallbacks trailer hmem

/-- The user gets the message that the session has put together. -/
theorem callsBack_iff {t : MessageTrace} {tail : List Callback} {msg : HttpMessage}
    (h : Callback.messageComplete ∉ tail) :
    CallsBack parseUrl user s t tail msg ↔ user.onMessage ≠ none ∧
      ((s.afterHeaders parseUrl user t).callbacks parseUrl user tail).httpMessage = msg := by
  have hhead : Callback.messageComplete ∉ t.headCallbacks ++ [.headersComplete t.method] := by
    have hheaders := not_mem_headerCallbacks t.headers
    simp [MessageTrace.headCallbacks, hheaders]
  have hcalls : ((s.afterHeaders parseUrl user t).callbacks parseUrl user tail).messageCalls =
      s.messageCalls := by
    rw [messageCalls_callbacks h, afterHeaders, messageCalls_callbacks hhead]
  rw [CallsBack, callbacks_append, callbacks_cons, callbacks_nil]
  simp only [callback, onMessageComplete]
  cases user.onMessage with
  | none => simp [hcalls]
  | some onMessage => simp [hcalls]

/-! ## The trailer -/

/-- Headers have been added to a message, each of them with the property `P`. -/
def AddsHeaders (P : Field → Prop) (msg msg' : HttpMessage) : Prop :=
  ∃ headers, msg' = { msg with headers := headers } ∧
    (∀ k, msg.headers.find? k ≠ none → headers.find? k ≠ none) ∧
    ((∀ e ∈ msg.headers.toList, P e) → ∀ e ∈ headers.toList, P e)

theorem AddsHeaders.refl (P : Field → Prop) (msg : HttpMessage) : AddsHeaders P msg msg :=
  ⟨msg.headers, rfl, fun _ h => h, fun h => h⟩

theorem AddsHeaders.trans {P : Field → Prop} {msg msg' msg'' : HttpMessage}
    (h : AddsHeaders P msg msg') (h' : AddsHeaders P msg' msg'') : AddsHeaders P msg msg'' := by
  obtain ⟨headers, rfl, hkeys, hentries⟩ := h
  obtain ⟨headers', rfl, hkeys', hentries'⟩ := h'
  exact ⟨headers', rfl, fun k hk => hkeys' k (hkeys k hk), fun hP => hentries' (hentries hP)⟩

theorem addsHeaders_addCurrent {P : Field → Prop}
    (hP : s.curField ≠ [] → P (s.curField, s.curValue)) :
    AddsHeaders P s.httpMessage s.addCurrent.httpMessage := by
  simp only [addCurrent]
  split_ifs with hnil
  · exact .refl P s.httpMessage
  · refine ⟨s.httpMessage.headers.insert s.curField s.curValue, rfl, fun k hk => ?_,
      fun hall e he => ?_⟩
    · rw [OrderedMap.find?_insert]
      split_ifs
      · exact Option.some_ne_none _
      · exact hk
    · rcases OrderedMap.mem_insertEntry he with rfl | he
      · exact hP hnil
      · exact hall e he

/-- A trailer adds headers, all but its last one. -/
theorem addsHeaders_trailer {P : Field → Prop} (hvalue : s.lastIsValue = true)
    (hpending : s.curField ≠ [] → P (s.curField, s.curValue)) {trailer : List HeaderTrace}
    (htrailer : ∀ header ∈ trailer, P header.whole) :
    AddsHeaders P s.httpMessage
      (s.callbacks parseUrl user (trailer.flatMap HeaderTrace.callbacks)).httpMessage := by
  induction trailer generalizing s with
  | nil => exact .refl P s.httpMessage
  | cons header trailer ih =>
    obtain ⟨hheader, htrailer⟩ := List.forall_mem_cons.mp htrailer
    rw [List.flatMap_cons, callbacks_append, callbacks_header hvalue]
    exact (addsHeaders_addCurrent hpending).trans
      (ih (s := { s.addCurrent with
        curField := header.whole.1, curValue := header.whole.2, lastIsValue := true }) rfl
        (fun _ => hheader) htrailer)

/-! ## What is delivered -/

/-- A message that has been put together from a request. -/
structure Carries (parseUrl : ParseUrl) (head : Head) (msg : HttpMessage) : Prop where
  eq : ∃ headers body,
    msg = { requestMessage parseUrl head with headers := headers, body := body }
  names : ∀ e ∈ head.fields, msg.headers.find? e.1 ≠ none
  valid : ∀ e ∈ msg.headers.toList, Field.Valid e
  head_valid : head.Valid
  isMethod : ∃ method : ℕ, methodStrings[method]? = some head.method

/-- The bytes and the message of a request that is delivered. -/
inductive Delivered.Spec (parseUrl : ParseUrl) (user : HttpCallbacks) (bytes : List UInt8)
    (head : Head) (msg : HttpMessage) (rest : List UInt8) : Prop
  | withoutBody (hhead : parseHead bytes = some (head, rest))
      (hresult : headersResult parseUrl user (requestMessage parseUrl head) = 1 ∨
        headersResult parseUrl user (requestMessage parseUrl head) = 2)
      (hmsg : msg = requestMessage parseUrl head)
  | withBody {after : List UInt8} {kind : Framing} {trailer : List Field}
      (hhead : parseHead bytes = some (head, after))
      (hresult : headersResult parseUrl user (requestMessage parseUrl head) = 0)
      (hframing : framing head.fields = some kind)
      (hbody : parseBody kind after = some (msg.body, trailer, rest))
      (hmsg : trailer = [] → msg = { requestMessage parseUrl head with body := msg.body })

theorem carries_addsHeaders {head : Head} {msg : HttpMessage} {t : MessageTrace}
    {body : List UInt8} (hvalid : head.Valid) (ht : Reports t head)
    (h : AddsHeaders Field.Valid { requestMessage parseUrl head with body := body } msg) :
    Carries parseUrl head msg ∧ msg.body = body := by
  obtain ⟨headers, rfl, hnames, hentries⟩ := h
  rw [requestMessage_eq] at hnames hentries
  refine ⟨⟨⟨headers, body, rfl⟩, fun e he => hnames e.1 fun hnone => ?_, hentries fun e he => ?_,
    hvalid, t.method, ht.method⟩, rfl⟩
  · exact OrderedMap.find?_ofList_eq_none.mp hnone e he rfl
  · exact hvalid.fields e (OrderedMap.mem_of_mem_ofList he)

variable {bytes rest : List UInt8} {head : Head} {msg : HttpMessage}

theorem Delivered.spec (h : Delivered parseUrl user s bytes head msg rest) :
    user.onMessage ≠ none ∧ Carries parseUrl head msg ∧
      Delivered.Spec parseUrl user bytes head msg rest := by
  cases h with
  | @withoutBody t rest _ hhead ht hresult hmsg =>
    have hvalid := Rfc7230.valid_of_parseHead hhead
    obtain ⟨huser, rfl⟩ := (callsBack_iff List.not_mem_nil).mp hmsg
    rw [headResult_of_reports hvalid ht] at hresult
    rw [callbacks_nil, httpMessage_of_reports hvalid ht]
    have hadds : AddsHeaders Field.Valid { requestMessage parseUrl head with body := [] }
        (requestMessage parseUrl head) := by
      rw [requestMessage_eq]
      exact .refl _ _
    exact ⟨huser, (carries_addsHeaders hvalid ht hadds).1, .withoutBody hhead hresult rfl⟩
  | @withBody t after data rest kind body trailer _ hhead ht hresult hframing hbody hdata hmsg =>
    have hvalid := Rfc7230.valid_of_parseHead hhead
    obtain ⟨huser, rfl⟩ := (callsBack_iff (not_mem_tailCallbacks body trailer)).mp hmsg
    rw [headResult_of_reports hvalid ht] at hresult
    obtain ⟨hvalue, hpending⟩ : (s.afterHeaders parseUrl user t).lastIsValue = true ∧
        (s.afterHeaders parseUrl user t).curField = [] := pending_afterHeaders t
    have hmessage : ((s.afterHeaders parseUrl user t).onBody data).httpMessage =
        { requestMessage parseUrl head with body := data } := by
      rw [onBody, httpMessage_of_reports hvalid ht, requestMessage_eq]
      rfl
    have hadds : AddsHeaders Field.Valid ((s.afterHeaders parseUrl user t).onBody data).httpMessage
        (((s.afterHeaders parseUrl user t).onBody data).callbacks parseUrl user
          (trailer.flatMap HeaderTrace.callbacks)).httpMessage :=
      addsHeaders_trailer (s := (s.afterHeaders parseUrl user t).onBody data) hvalue
        (absurd hpending) fun header hheader =>
          Rfc7230.valid_of_parseBody hbody header.whole (List.mem_map.mpr ⟨header, hheader, rfl⟩)
    rw [hmessage] at hadds
    obtain ⟨hcarries, hdelivered⟩ := carries_addsHeaders hvalid ht hadds
    rw [tailCallbacks, callbacks_append, callbacks_body, hdata]
    refine ⟨huser, hcarries, .withBody hhead hresult hframing (hdelivered.symm ▸ hbody) ?_⟩
    intro hnil
    rw [List.map_eq_nil_iff.mp hnil, List.flatMap_nil, callbacks_nil, hmessage]

/-! ## A request that is not cut -/

/-- The fragments of a request whose parts are not cut. -/
def uncut (head : Head) (method : ℕ) : MessageTrace where
  url := [head.target]
  status := []
  statusCode := 0
  headers := head.fields.map fun e => ⟨[e.1], [e.2], List.cons_ne_nil _ _, List.cons_ne_nil _ _⟩
  method := method
  body := []

theorem reports_uncut {method : ℕ} (h : methodStrings[method]? = some head.method) :
    Reports (uncut head method) head where
  url := List.append_nil _
  headers := by
    simp only [MessageTrace.wholeHeaders, uncut, List.map_map]
    refine (List.map_congr_left fun e _ => ?_).trans (List.map_id head.fields)
    simp [HeaderTrace.whole]
  method := h
  status := rfl

theorem exists_delivered_withoutBody {method : ℕ} (huser : user.onMessage ≠ none)
    (hmethod : methodStrings[method]? = some head.method)
    (hhead : parseHead bytes = some (head, rest))
    (hresult : headersResult parseUrl user (requestMessage parseUrl head) = 1 ∨
      headersResult parseUrl user (requestMessage parseUrl head) = 2) :
    ∃ msg, Delivered parseUrl user s bytes head msg rest := by
  have hvalid := Rfc7230.valid_of_parseHead hhead
  refine ⟨_, .withoutBody hhead (reports_uncut hmethod) ?_
    ((callsBack_iff List.not_mem_nil).mpr ⟨huser, rfl⟩)⟩
  rwa [headResult_of_reports hvalid (reports_uncut hmethod)]

theorem exists_delivered_withBody {method : ℕ} {after data : List UInt8} {kind : Framing}
    (huser : user.onMessage ≠ none) (hmethod : methodStrings[method]? = some head.method)
    (hhead : parseHead bytes = some (head, after))
    (hresult : headersResult parseUrl user (requestMessage parseUrl head) = 0)
    (hframing : framing head.fields = some kind)
    (hbody : parseBody kind after = some (data, [], rest)) :
    ∃ msg, Delivered parseUrl user s bytes head msg rest := by
  have hvalid := Rfc7230.valid_of_parseHead hhead
  have hdata : [BodyTrace.fragment data].flatMap BodyTrace.bytes = data := List.append_nil data
  have htrailer : parseBody kind after =
      some (data, ([] : List HeaderTrace).map HeaderTrace.whole, rest) := hbody
  refine ⟨_, .withBody hhead (reports_uncut hmethod) ?_ hframing htrailer hdata
    ((callsBack_iff (not_mem_tailCallbacks _ _)).mpr ⟨huser, rfl⟩)⟩
  rwa [headResult_of_reports hvalid (reports_uncut hmethod)]

/-! ## The written message -/

/-- The request line and the header fields that are written. -/
def written (msg : HttpMessage) : Head where
  method := msg.method
  target := msg.url
  version := msg.version
  fields := msg.headers.toList

theorem getRequestAsString_eq (msg : HttpMessage) :
    msg.getRequestAsString = encodeHead (written msg) ++ msg.body := by
  have hlines : msg.headers.toList.flatMap HttpMessage.headerLine =
      (written msg).fields.flatMap Rfc7230.encodeField := rfl
  rw [HttpMessage.getRequestAsString, hlines]
  rfl

theorem Carries.written_valid (h : Carries parseUrl head msg) : (written msg).Valid := by
  obtain ⟨headers, body, heq⟩ := h.eq
  rw [requestMessage_eq] at heq
  refine ⟨?_, ?_, ?_, h.valid⟩
  · rw [written, heq]
    exact h.head_valid.method
  · rw [written, heq]
    exact h.head_valid.target
  · have hversion : Rfc7230.isVersion (asciiBytes "HTTP/1.1") = true := by decide
    rw [written, heq]
    exact hversion

theorem Carries.parseHead (h : Carries parseUrl head msg) :
    Rfc7230.parseHead msg.getRequestAsString = some (written msg, msg.body) := by
  rw [getRequestAsString_eq]
  exact Rfc7230.parseHead_encodeHead h.written_valid msg.body

/-- A path depends on the URL only. -/
theorem path_withPath {msg msg' : HttpMessage} (hurl : msg.url = msg'.url)
    (hpath : msg.path = msg'.path) :
    (withPath parseUrl msg).path = (withPath parseUrl msg').path := by
  simp only [withPath, hurl]
  cases (parseUrl msg'.url).getD none with
  | none => exact hpath
  | some field => simp only [setUrlPath, HttpMessage.setPath, hurl]

/-- The written message is read as the message without its body. -/
theorem Carries.requestMessage_written (h : Carries parseUrl head msg) :
    requestMessage parseUrl (written msg) = { msg with body := [] } := by
  obtain ⟨headers, body, rfl⟩ := h.eq
  have hpath : (requestMessage parseUrl (written
      { requestMessage parseUrl head with headers := headers, body := body })).path =
      (requestMessage parseUrl head).path := by
    refine path_withPath ?_ rfl
    rw [written, requestMessage_eq]
  rw [requestMessage_eq, hpath, requestMessage_eq head]
  simp only [written, OrderedMap.ofList_toList]

theorem Carries.isMethod_written (h : Carries parseUrl head msg) :
    ∃ method : ℕ, methodStrings[method]? = some (written msg).method := by
  obtain ⟨headers, body, rfl⟩ := h.eq
  obtain ⟨method, hmethod⟩ := h.isMethod
  rw [requestMessage_eq]
  exact ⟨method, hmethod⟩

theorem Carries.names_written (h : Carries parseUrl head msg) :
    ∀ e ∈ head.fields, ∃ e' ∈ (written msg).fields, e'.1 = e.1 := by
  intro e he
  obtain ⟨value, hvalue⟩ := Option.ne_none_iff_exists'.mp (h.names e he)
  exact ⟨(e.1, value), OrderedMap.mem_toList_iff.mpr hvalue, rfl⟩

/-! ## Which requests survive -/

/-- What a fresh session makes of the written message. -/
theorem Carries.spec_written (h : Carries parseUrl head msg) {head' : Head} {msg' : HttpMessage}
    {rest' : List UInt8}
    (h' : Delivered parseUrl user {} msg.getRequestAsString head' msg' rest') :
    Delivered.Spec parseUrl user msg.getRequestAsString (written msg) msg' rest' := by
  obtain ⟨-, -, hspec⟩ := h'.spec
  have hhead : head' = written msg := by
    cases hspec with
    | withoutBody hhead => exact (Prod.mk.inj (Option.some.inj (hhead.symm.trans h.parseHead))).1
    | withBody hhead => exact (Prod.mk.inj (Option.some.inj (hhead.symm.trans h.parseHead))).1
  exact hhead ▸ hspec

/-- A message without a body survives if the session is told that there is none. -/
theorem survives_withoutBody (huser : user.onMessage ≠ none) (h : Carries parseUrl head msg)
    (hbody : msg.body = [])
    (hresult : headersResult parseUrl user msg = 1 ∨ headersResult parseUrl user msg = 2) :
    Survives parseUrl user msg := by
  have hmsg : requestMessage parseUrl (written msg) = msg := by
    rw [h.requestMessage_written, ← hbody]
  rw [← hmsg] at hresult
  obtain ⟨method, hmethod⟩ := h.isMethod_written
  refine ⟨⟨written msg, ?_⟩, fun head' msg' rest' h' => ?_⟩
  · obtain ⟨msg', hdelivered⟩ := exists_delivered_withoutBody (s := {}) huser hmethod h.parseHead
      hresult
    exact ⟨msg', msg.body, hdelivered⟩
  · have hspec := h.spec_written h'
    cases hspec with
    | withoutBody hhead _ hmsg' =>
      obtain ⟨-, rfl⟩ := Prod.mk.inj (Option.some.inj (hhead.symm.trans h.parseHead))
      rw [hmsg', hmsg]
      exact ⟨hbody, rfl, rfl, rfl, rfl⟩
    | withBody _ hzero =>
      rw [hzero] at hresult
      omega

/-- A message survives if its length is still the one of its body. -/
theorem survives_withBody (huser : user.onMessage ≠ none) (h : Carries parseUrl head msg)
    (hresult : headersResult parseUrl user { msg with body := [] } = 0)
    (hframing : framing (written msg).fields = some (.length msg.body.length)) :
    Survives parseUrl user msg := by
  rw [← h.requestMessage_written] at hresult
  obtain ⟨method, hmethod⟩ := h.isMethod_written
  have hbody : parseBody (.length msg.body.length) msg.body = some (msg.body, [], []) := by
    simp [parseBody]
  refine ⟨⟨written msg, ?_⟩, fun head' msg' rest' h' => ?_⟩
  · obtain ⟨msg', hdelivered⟩ := exists_delivered_withBody (s := {}) huser hmethod h.parseHead
      hresult hframing hbody
    exact ⟨msg', [], hdelivered⟩
  · have hspec := h.spec_written h'
    cases hspec with
    | withoutBody _ hskip =>
      rw [hresult] at hskip
      omega
    | withBody hhead _ hframing' hbody' hmsg' =>
      obtain ⟨-, rfl⟩ := Prod.mk.inj (Option.some.inj (hhead.symm.trans h.parseHead))
      obtain rfl := Option.some.inj (hframing'.symm.trans hframing)
      obtain ⟨hdata, htail⟩ := Prod.mk.inj (Option.some.inj (hbody'.symm.trans hbody))
      obtain ⟨htrailer, hrest⟩ := Prod.mk.inj htail
      rw [hdata, h.requestMessage_written] at hmsg'
      rw [hmsg' htrailer]
      exact ⟨hrest, rfl, rfl, rfl, rfl⟩

/-- Bytes that are not chunked cannot be read as the same body. -/
theorem not_survives_withBody (h : Carries parseUrl head msg)
    (hcoding : ∃ e ∈ msg.headers.toList, Field.isTransferEncoding e = true)
    (hsurvives : Survives parseUrl user msg) :
    msg.body = [] ∧
      (headersResult parseUrl user msg = 1 ∨ headersResult parseUrl user msg = 2) := by
  obtain ⟨⟨head', msg', rest', h'⟩, hall⟩ := hsurvives
  obtain ⟨hrest, hsame⟩ := hall head' msg' rest' h'
  have hspec := h.spec_written h'
  cases hspec with
  | withoutBody hhead hresult =>
    obtain ⟨-, hbody⟩ := Prod.mk.inj (Option.some.inj (hhead.symm.trans h.parseHead))
    have hnil : msg.body = [] := hbody.symm.trans hrest
    rw [h.requestMessage_written, ← hnil] at hresult
    exact ⟨hnil, hresult⟩
  | withBody hhead _ hframing hbody =>
    obtain ⟨-, rfl⟩ := Prod.mk.inj (Option.some.inj (hhead.symm.trans h.parseHead))
    obtain ⟨e, he, htransfer⟩ := hcoding
    obtain rfl := Rfc7230.framing_of_isTransferEncoding he htransfer hframing
    have hlt := Rfc7230.length_lt_of_parseChunks hbody
    rw [hsame.body] at hlt
    exact absurd hlt (lt_irrefl _)

/-- The length of a message without a transfer coding is still the one of its body. -/
theorem framing_written (h : Carries parseUrl head msg)
    (hno : ∀ e ∈ msg.headers.toList, Field.isTransferEncoding e = false)
    {after : List UInt8} {kind : Framing} {trailer : List Field}
    (hframing : framing head.fields = some kind)
    (hbody : parseBody kind after = some (msg.body, trailer, rest))
    (hmsg : trailer = [] → msg = { requestMessage parseUrl head with body := msg.body }) :
    msg = { requestMessage parseUrl head with body := msg.body } ∧
      framing (written msg).fields = some (.length msg.body.length) := by
  have hcoding : ∀ e ∈ head.fields, Field.isTransferEncoding e = false := by
    intro e he
    obtain ⟨e', he', hname⟩ := h.names_written e he
    rw [Field.isTransferEncoding, ← hname]
    exact hno e' he'
  have hlength := hframing
  rw [Rfc7230.framing_of_no_transferEncoding hcoding] at hlength
  obtain ⟨n, -, rfl⟩ := Option.map_eq_some_iff.mp hlength
  obtain ⟨rfl, htrailer⟩ := Rfc7230.parseBody_length hbody
  have hwhole := hmsg htrailer
  have hheaders : msg.headers = .ofList head.fields := by rw [hwhole, requestMessage_eq]
  refine ⟨hwhole, Rfc7230.framing_of_subset hcoding (fun e he => ?_) h.names_written hframing⟩
  have hmem : e ∈ msg.headers.toList := he
  rw [hheaders] at hmem
  exact OrderedMap.mem_of_mem_ofList hmem

/-- A request that has been delivered survives exactly when no stored header is a transfer coding;
or there is no body, and the session tells the parser so before it looks for one. -/
theorem survives_iff (h : Delivered parseUrl user s bytes head msg rest) :
    Survives parseUrl user msg ↔
      (∀ e ∈ msg.headers.toList, Field.isTransferEncoding e = false) ∨
        msg.body = [] ∧
          (headersResult parseUrl user msg = 1 ∨ headersResult parseUrl user msg = 2) := by
  obtain ⟨huser, hcarries, hspec⟩ := h.spec
  constructor
  · intro hsurvives
    by_cases hno : ∀ e ∈ msg.headers.toList, Field.isTransferEncoding e = false
    · exact .inl hno
    · refine .inr (not_survives_withBody hcarries ?_ hsurvives)
      simpa using hno
  · rintro (hno | ⟨hbody, hresult⟩)
    · cases hspec with
      | withoutBody _ hresult hmsg =>
        have hbody : msg.body = [] := by rw [hmsg, requestMessage_eq]
        exact survives_withoutBody huser hcarries hbody (hmsg.symm ▸ hresult)
      | withBody _ hresult hframing hbody hmsg =>
        obtain ⟨hwhole, hlength⟩ := framing_written hcarries hno hframing hbody hmsg
        have hhead : { msg with body := [] } = requestMessage parseUrl head := by
          rw [hwhole, requestMessage_eq]
        exact survives_withBody huser hcarries (hhead.symm ▸ hresult) hlength
    · exact survives_withoutBody huser hcarries hbody hresult

/-! ## An identity body and a chunked one -/

/-- A URL that is a path. -/
def parseOrigin : ParseUrl := fun url =>
  if url.head? = some 47 then some (some (0, url.length)) else none

/-- A server that takes messages, as the chat server does. -/
def server : HttpCallbacks where
  onMessage := some fun _ => 0

/-- A request with one header field. -/
def postHead (name value : String) : Head where
  method := asciiBytes "POST"
  target := asciiBytes "/"
  version := asciiBytes "HTTP/1.1"
  fields := [(asciiBytes name, asciiBytes value)]

def identityHead : Head := postHead "Content-Length" "2"

def chunkedHead : Head := postHead "Transfer-Encoding" "chunked"

theorem survives_iff_identity : ∃ msg,
    Delivered parseOrigin server {} (encodeHead identityHead ++ asciiBytes "hi") identityHead
      msg [] ∧
      (Survives parseOrigin server msg ↔
        (∀ e ∈ msg.headers.toList, Field.isTransferEncoding e = false) ∨
          msg.body = [] ∧ (headersResult parseOrigin server msg = 1 ∨
            headersResult parseOrigin server msg = 2)) := by
  have hhead : parseHead (encodeHead identityHead ++ asciiBytes "hi") =
      some (identityHead, asciiBytes "hi") := rfl
  have hresult : headersResult parseOrigin server (requestMessage parseOrigin identityHead) = 0 :=
    rfl
  have hmethod : methodStrings[3]? = some identityHead.method := rfl
  obtain ⟨msg, h⟩ := exists_delivered_withBody (s := {}) (Option.some_ne_none _) hmethod hhead
    hresult rfl rfl
  exact ⟨msg, h, survives_iff h⟩

/-- A chunked body is stored without its chunks, but the header still says that it has them. -/
theorem exists_not_survives : ∃ msg,
    Delivered parseOrigin server {}
      (encodeHead chunkedHead ++ asciiBytes "2\r\nhi\r\n0\r\n\r\n") chunkedHead msg [] ∧
    ¬Survives parseOrigin server msg := by
  have hhead : parseHead (encodeHead chunkedHead ++ asciiBytes "2\r\nhi\r\n0\r\n\r\n") =
      some (chunkedHead, asciiBytes "2\r\nhi\r\n0\r\n\r\n") := rfl
  have hresult : headersResult parseOrigin server (requestMessage parseOrigin chunkedHead) = 0 :=
    rfl
  have hmethod : methodStrings[3]? = some chunkedHead.method := rfl
  obtain ⟨msg, h⟩ := exists_delivered_withBody (s := {}) (Option.some_ne_none _) hmethod hhead
    hresult rfl rfl
  refine ⟨msg, h, fun hsurvives => ?_⟩
  obtain ⟨-, hcarries, -⟩ := h.spec
  obtain ⟨value, hvalue⟩ := Option.ne_none_iff_exists'.mp
    (hcarries.names _ (List.mem_singleton.mpr rfl))
  have hcoding : (Rfc7230.lower (asciiBytes "Transfer-Encoding") ==
      asciiBytes "transfer-encoding") = true := by decide
  obtain ⟨-, hresult⟩ := not_survives_withBody hcarries
    ⟨_, OrderedMap.mem_toList_iff.mpr hvalue, hcoding⟩ hsurvives
  have hzero : headersResult parseOrigin server msg = 0 := by
    obtain ⟨headers, body, rfl⟩ := hcarries.eq
    rw [requestMessage_eq]
    rfl
  rw [hzero] at hresult
  omega

end CodingDemo.Libcpp.HttpSession
