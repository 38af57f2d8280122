import CodingDemo.Http.HttpSession

/-!
# The text of a response

The start line of a response ends with `hint_`. Both `setStatus` and `getResponseAsString` append
the reason phrase to it, so the text depends on how often they have been called before.

## Main definitions

* `Origin`: how a message has been built or received
* `responses`: the texts of calls of `getResponseAsString`, one after the other
* `response`: the text with exactly one reason phrase

## Main results

* `responses_eq_iff`: in which cases the texts have one reason phrase
-/

namespace CodingDemo.Libcpp

namespace HttpMessage

/-! ## Calls of `getResponseAsString` -/

/-- The text of a response with this hint. -/
def responseWith (msg : HttpMessage) (hint : List UInt8) : List UInt8 :=
  msg.version ++ [32] ++ decimal msg.status ++ [32] ++ hint ++ crlf ++
    msg.headers.toList.flatMap headerLine ++ crlf ++ msg.body

/-- The text whose start line has the version, the code and one reason phrase. -/
def response (msg : HttpMessage) : List UInt8 := msg.responseWith (http_status_str msg.status)

/-- The texts of `n` calls. -/
def responses (msg : HttpMessage) : ℕ → List (List UInt8)
  | 0 => []
  | n + 1 => msg.getResponseAsString.1 :: msg.getResponseAsString.2.responses n

variable {msg : HttpMessage} {hint hint' : List UInt8} {n : ℕ}

/-- Every status has a reason phrase. -/
theorem http_status_str_ne_nil (status : ℕ) : http_status_str status ≠ [] := by
  have hphrases : ∀ e ∈ statusStrings, e.2 ≠ [] := by
    refine List.forall_mem_map.mpr fun e he => asciiBytes_ne_nil ?_
    revert e he
    decide
  unfold http_status_str
  cases h : statusStrings.lookup status with
  | none => exact List.cons_ne_nil _ _
  | some text =>
    obtain ⟨l₁, l₂, heq, -⟩ := List.lookup_eq_some_iff.mp h
    exact hphrases (status, text) (heq ▸ List.mem_append_right l₁ List.mem_cons_self)

theorem responseWith_inj : msg.responseWith hint = msg.responseWith hint' ↔ hint = hint' := by
  unfold responseWith
  rw [List.append_left_inj, List.append_left_inj, List.append_left_inj, List.append_left_inj,
    List.append_right_inj]

theorem getResponseAsString_eq (msg : HttpMessage) :
    msg.getResponseAsString.1 = msg.responseWith (msg.hint ++ http_status_str msg.status) := rfl

/-- The first call appends a reason phrase. -/
theorem getResponseAsString_eq_response_iff :
    msg.getResponseAsString.1 = msg.response ↔ msg.hint = [] := by
  rw [getResponseAsString_eq, response, responseWith_inj]
  exact List.append_left_eq_self

/-- The second call finds the reason phrase of the first. -/
theorem getResponseAsString_twice_ne : msg.getResponseAsString.2.getResponseAsString.1 ≠
    msg.response := by
  rw [getResponseAsString_eq]
  refine fun heq => http_status_str_ne_nil msg.status ?_
  have hhint : msg.hint ++ http_status_str msg.status ++ http_status_str msg.status =
      http_status_str msg.status := responseWith_inj.mp heq
  exact (List.append_eq_nil_iff.mp (List.append_left_eq_self.mp hhint)).2

theorem responses_eq_iff_hint : (∀ text ∈ msg.responses n, text = msg.response) ↔
    n = 0 ∨ n = 1 ∧ msg.hint = [] := by
  match n with
  | 0 => exact iff_of_true (fun _ h => absurd h List.not_mem_nil) (.inl rfl)
  | 1 =>
    rw [responses, responses, List.forall_mem_singleton, getResponseAsString_eq_response_iff]
    exact ⟨fun h => .inr ⟨rfl, h⟩, fun h => (h.resolve_left Nat.one_ne_zero).2⟩
  | n + 2 =>
    refine iff_of_false (fun h => getResponseAsString_twice_ne (h _ ?_)) (by omega)
    exact List.mem_cons_of_mem _ List.mem_cons_self

end HttpMessage

/-! ## Messages that are built, and messages that are received -/

/-- The calls that build a response. -/
inductive BuildCall
  | setStatus (status : ℕ)
  | addHeader (field value : List UInt8)
  | appendBody (body : List UInt8)

def BuildCall.apply (msg : HttpMessage) : BuildCall → HttpMessage
  | .setStatus status => msg.setStatus status
  | .addHeader field value => msg.addHeader field value
  | .appendBody body => msg.appendBody body

/-- How a message has come about. -/
inductive Origin
  | built (calls : List BuildCall)
  /-- A session has received the fragments of a message. -/
  | received (s : HttpSession) (t : HttpSession.MessageTrace)

namespace Origin

variable (parseUrl : ParseUrl) (user : HttpCallbacks)

def message : Origin → HttpMessage
  | .built calls => calls.foldl BuildCall.apply {}
  | .received s t => (s.afterMessage parseUrl user t).httpMessage

/-- The status has not been set. -/
def Unset : Origin → Prop
  | .built calls => ∀ status, BuildCall.setStatus status ∉ calls
  | .received _ t => t.status = []

variable {parseUrl : ParseUrl} {user : HttpCallbacks}

theorem hint_foldl_apply_eq_nil_iff {calls : List BuildCall} {msg : HttpMessage} :
    (calls.foldl BuildCall.apply msg).hint = [] ↔
      msg.hint = [] ∧ ∀ status, BuildCall.setStatus status ∉ calls := by
  induction calls generalizing msg with
  | nil => simp
  | cons c calls ih =>
    rw [List.foldl_cons, ih]
    cases c with
    | setStatus status =>
      refine iff_of_false (fun h => ?_) fun h => h.2 status List.mem_cons_self
      exact HttpMessage.http_status_str_ne_nil status (List.append_eq_nil_iff.mp h.1).2
    | addHeader field value => simp [BuildCall.apply, HttpMessage.addHeader]
    | appendBody body => simp [BuildCall.apply, HttpMessage.appendBody]

/-- Each fragment of a status has appended a reason phrase. -/
theorem hint_afterMessage (s : HttpSession) (t : HttpSession.MessageTrace) :
    (s.afterMessage parseUrl user t).httpMessage.hint =
      (List.replicate t.status.length (http_status_str t.statusCode)).flatten := by
  rw [HttpSession.httpMessage_afterMessage, HttpSession.withPath_eq]
  rfl

theorem hint_message_eq_nil_iff (o : Origin) : (o.message parseUrl user).hint = [] ↔ o.Unset := by
  cases o with
  | built calls => exact hint_foldl_apply_eq_nil_iff.trans (and_iff_right rfl)
  | received s t =>
    rw [message, hint_afterMessage, List.flatten_eq_nil_iff, Unset]
    constructor
    · intro hall
      by_contra hne
      have hphrase : http_status_str t.statusCode ∈
          List.replicate t.status.length (http_status_str t.statusCode) :=
        List.mem_replicate.mpr ⟨mt List.length_eq_zero_iff.mp hne, rfl⟩
      exact HttpMessage.http_status_str_ne_nil t.statusCode (hall _ hphrase)
    · intro hnil phrase hphrase
      rw [hnil] at hphrase
      exact absurd hphrase List.not_mem_nil

/-- **The text of a response is repeatable** only if there is no second call, and no reason phrase
before the first one. -/
theorem responses_eq_iff (o : Origin) (n : ℕ) :
    (∀ text ∈ (o.message parseUrl user).responses n, text = (o.message parseUrl user).response) ↔
      n = 0 ∨ n = 1 ∧ o.Unset := by
  rw [HttpMessage.responses_eq_iff_hint, hint_message_eq_nil_iff]

/-- With `setStatus(HTTP_STATUS_OK)` and one call the start line ends with `OKOK`. -/
theorem exists_two_phrases : ∃ (o : Origin) (n : ℕ),
    ¬∀ text ∈ (o.message (fun _ => none) {}).responses n,
      text = (o.message (fun _ => none) {}).response := by
  refine ⟨.built [.setStatus 200], 1, fun h => ?_⟩
  have hhint := HttpMessage.getResponseAsString_eq_response_iff.mp (h _ List.mem_cons_self)
  exact HttpMessage.http_status_str_ne_nil 200 hhint

end Origin

end CodingDemo.Libcpp
