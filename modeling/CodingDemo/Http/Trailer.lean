import CodingDemo.Http.Forward

/-!
# Trailers

The parser reports the trailer of a chunked message as it does headers, but after the end of the
headers. A header is added when the next one begins, or when the headers end; the end of the message
adds none.

## Main definitions

* `atMessageComplete`: a chunked message when `onMessageComplete` is called

## Main results

* `headers_atMessageComplete`: the headers that are stored
* `trailer_stored_iff`: when the whole trailer is stored
-/

namespace CodingDemo.Libcpp.HttpSession

open OrderedMap (LastOfKey)

variable {parseUrl : ParseUrl} {user : HttpCallbacks} {s : HttpSession}

/-- The session when `onMessageComplete` is called, for a chunked message with a trailer. -/
def atMessageComplete (parseUrl : ParseUrl) (user : HttpCallbacks) (s : HttpSession)
    (t : MessageTrace) (trailer : List HeaderTrace) : HttpSession :=
  (s.afterHeaders parseUrl user t).callbacks parseUrl user
    (tailCallbacks t.body trailer ++ [.chunkComplete])

/-- The last field of a trailer is pending when the trailer ends. -/
theorem callbacks_trailer (hvalue : s.lastIsValue = true) (hpending : s.curField = [])
    (trailer : List HeaderTrace) :
    (s.callbacks parseUrl user (trailer.flatMap HeaderTrace.callbacks)).httpMessage =
      (trailer.map HeaderTrace.whole).dropLast.foldl addEntry s.httpMessage := by
  have hcurrent : s.addCurrent.httpMessage = s.httpMessage := if_pos hpending
  rcases List.eq_nil_or_concat trailer with rfl | ⟨init, last, rfl⟩
  · rfl
  · obtain ⟨hinit, hadded⟩ := @callbacks_headers parseUrl user s hvalue init
    rw [List.concat_eq_append, List.flatMap_append, callbacks_append, List.flatMap_singleton,
      callbacks_header hinit, hadded, List.map_append, List.map_singleton, List.dropLast_concat,
      hcurrent]

theorem headers_atMessageComplete (t : MessageTrace) (trailer : List HeaderTrace) :
    (s.atMessageComplete parseUrl user t trailer).httpMessage.headers =
      .ofList ((t.wholeHeaders ++ (trailer.map HeaderTrace.whole).dropLast).filter
        fun e => e.1 ≠ []) := by
  obtain ⟨hvalue, hpending⟩ : (s.afterHeaders parseUrl user t).lastIsValue = true ∧
      (s.afterHeaders parseUrl user t).curField = [] := pending_afterHeaders t
  have hcomplete : (s.atMessageComplete parseUrl user t trailer).httpMessage =
      (((s.afterHeaders parseUrl user t).onBody t.wholeBody).callbacks parseUrl user
        (trailer.flatMap HeaderTrace.callbacks)).httpMessage := by
    rw [atMessageComplete, tailCallbacks, callbacks_append, callbacks_append, callbacks_body]
    rfl
  rw [hcomplete, callbacks_trailer (s := (s.afterHeaders parseUrl user t).onBody t.wholeBody)
    hvalue hpending, foldl_addEntry, onBody, httpMessage_afterHeaders, withPath_eq,
    List.filter_append, OrderedMap.ofList, List.foldl_append]
  rfl

/-- A field with an empty name is never stored. -/
theorem find?_ofList_named_eq_some_iff {fields : List (List UInt8 × List UInt8)}
    {e : List UInt8 × List UInt8} :
    (OrderedMap.ofList (fields.filter fun f => f.1 ≠ [])).find? e.1 = some e.2 ↔
      e.1 ≠ [] ∧ LastOfKey fields e := by
  rw [OrderedMap.find?_ofList_eq_some_iff, LastOfKey, LastOfKey, List.filter_filter]
  by_cases hname : e.1 = []
  · refine iff_of_false (fun h => ?_) fun h => h.1 hname
    obtain ⟨-, hmem⟩ := List.mem_filter.mp (List.mem_of_getLast? h)
    simp [hname] at hmem
  · rw [and_iff_right hname]
    refine Eq.congr_left (congrArg List.getLast? (List.filter_congr fun f _ => ?_))
    by_cases hkey : f.1 = e.1 <;> simp [hkey, hname]

/-- **The trailer is stored** exactly when each of its fields is already the last one of its name
before the last field of the trailer, since that one is lost. -/
theorem trailer_stored_iff (parseUrl : ParseUrl) (user : HttpCallbacks) (s : HttpSession)
    (t : MessageTrace) (trailer : List HeaderTrace) :
    (∀ e ∈ trailer.map HeaderTrace.whole,
      (s.atMessageComplete parseUrl user t trailer).httpMessage.headers.find? e.1 = some e.2) ↔
      ∀ e ∈ trailer.map HeaderTrace.whole,
        e.1 ≠ [] ∧ LastOfKey (t.wholeHeaders ++ (trailer.map HeaderTrace.whole).dropLast) e := by
  rw [headers_atMessageComplete]
  exact forall₂_congr fun e _ => find?_ofList_named_eq_some_iff

/-- A chunked message without a body. -/
def chunkedTrace : MessageTrace where
  url := [asciiBytes "/"]
  status := []
  statusCode := 0
  headers := [⟨[asciiBytes "Transfer-Encoding"], [asciiBytes "chunked"], List.cons_ne_nil _ _,
    List.cons_ne_nil _ _⟩]
  method := 3
  body := [.chunkHeader]

/-- A trailer field in fragments. -/
def checksumTrace : HeaderTrace where
  field := [asciiBytes "Check", asciiBytes "sum"]
  value := [asciiBytes "42"]
  field_ne_nil := List.cons_ne_nil _ _
  value_ne_nil := List.cons_ne_nil _ _

/-- The only field of a trailer is lost. -/
theorem exists_trailer_not_stored : ∃ (t : MessageTrace) (trailer : List HeaderTrace),
    ¬∀ e ∈ trailer.map HeaderTrace.whole,
      (({} : HttpSession).atMessageComplete (fun _ => none) {} t
        trailer).httpMessage.headers.find? e.1 = some e.2 := by
  refine ⟨chunkedTrace, [checksumTrace], fun h => ?_⟩
  have hstored := h checksumTrace.whole List.mem_cons_self
  rw [headers_atMessageComplete, find?_ofList_named_eq_some_iff] at hstored
  have hother : ¬LastOfKey chunkedTrace.wholeHeaders checksumTrace.whole := by
    unfold LastOfKey
    decide
  exact hother hstored.2

end CodingDemo.Libcpp.HttpSession
