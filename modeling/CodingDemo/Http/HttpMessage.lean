import CodingDemo.Container.OrderedMap
import CodingDemo.Text.Ascii
import CodingDemo.Text.Decimal

/-!
# HTTP messages

A message has the method and the URL of a request, or the status of a response, the headers as a
map, and the body.

## Main definitions

* `methodStrings`, `http_method_str`: the methods
* `statusStrings`, `http_status_str`: the reason phrases
* `HttpMessage`: a message
* `getRequestAsString`, `getResponseAsString`: the text of a request, and of a response
-/

namespace CodingDemo.Libcpp

/-- The names of the methods, in the order of their numbers. -/
def methodStrings : List (List UInt8) :=
  ["DELETE", "GET", "HEAD", "POST", "PUT", "CONNECT", "OPTIONS", "TRACE", "COPY", "LOCK", "MKCOL",
    "MOVE", "PROPFIND", "PROPPATCH", "SEARCH", "UNLOCK", "BIND", "REBIND", "UNBIND", "ACL",
    "REPORT", "MKACTIVITY", "CHECKOUT", "MERGE", "M-SEARCH", "NOTIFY", "SUBSCRIBE", "UNSUBSCRIBE",
    "PATCH", "PURGE", "MKCALENDAR", "LINK", "UNLINK", "SOURCE"].map asciiBytes

def http_method_str (method : ℕ) : List UInt8 :=
  methodStrings[method]?.getD (asciiBytes "<unknown>")

/-- The codes of the statuses with their reason phrases. -/
def statusStrings : List (ℕ × List UInt8) :=
  [(100, "Continue"), (101, "Switching Protocols"), (102, "Processing"), (200, "OK"),
    (201, "Created"), (202, "Accepted"), (203, "Non-Authoritative Information"),
    (204, "No Content"), (205, "Reset Content"), (206, "Partial Content"), (207, "Multi-Status"),
    (208, "Already Reported"), (226, "IM Used"), (300, "Multiple Choices"),
    (301, "Moved Permanently"), (302, "Found"), (303, "See Other"), (304, "Not Modified"),
    (305, "Use Proxy"), (307, "Temporary Redirect"), (308, "Permanent Redirect"),
    (400, "Bad Request"), (401, "Unauthorized"), (402, "Payment Required"), (403, "Forbidden"),
    (404, "Not Found"), (405, "Method Not Allowed"), (406, "Not Acceptable"),
    (407, "Proxy Authentication Required"), (408, "Request Timeout"), (409, "Conflict"),
    (410, "Gone"), (411, "Length Required"), (412, "Precondition Failed"),
    (413, "Payload Too Large"), (414, "URI Too Long"), (415, "Unsupported Media Type"),
    (416, "Range Not Satisfiable"), (417, "Expectation Failed"), (421, "Misdirected Request"),
    (422, "Unprocessable Entity"), (423, "Locked"), (424, "Failed Dependency"),
    (426, "Upgrade Required"), (428, "Precondition Required"), (429, "Too Many Requests"),
    (431, "Request Header Fields Too Large"), (451, "Unavailable For Legal Reasons"),
    (500, "Internal Server Error"), (501, "Not Implemented"), (502, "Bad Gateway"),
    (503, "Service Unavailable"), (504, "Gateway Timeout"), (505, "HTTP Version Not Supported"),
    (506, "Variant Also Negotiates"), (507, "Insufficient Storage"), (508, "Loop Detected"),
    (510, "Not Extended"),
    (511, "Network Authentication Required")].map fun (status, text) => (status, asciiBytes text)

def http_status_str (status : ℕ) : List UInt8 :=
  (statusStrings.lookup status).getD (asciiBytes "<unknown>")

abbrev Headers := OrderedMap (List UInt8) (List UInt8)

structure HttpMessage where
  method : List UInt8 := []
  url : List UInt8 := []
  status : ℕ := 200
  /-- The reason phrase. -/
  hint : List UInt8 := []
  version : List UInt8 := asciiBytes "HTTP/1.1"
  headers : Headers := .empty
  body : List UInt8 := []
  path : List UInt8 := []

namespace HttpMessage

def setMethod (msg : HttpMessage) (method : ℕ) : HttpMessage :=
  { msg with method := http_method_str method }

def appendUrl (msg : HttpMessage) (url : List UInt8) : HttpMessage :=
  { msg with url := msg.url ++ url }

def setStatus (msg : HttpMessage) (status : ℕ) : HttpMessage :=
  { msg with status := status, hint := msg.hint ++ http_status_str status }

def addHeader (msg : HttpMessage) (field value : List UInt8) : HttpMessage :=
  { msg with headers := msg.headers.insert field value }

def appendBody (msg : HttpMessage) (body : List UInt8) : HttpMessage :=
  { msg with body := msg.body ++ body }

def setPath (msg : HttpMessage) (path : List UInt8) : HttpMessage := { msg with path := path }

/-- The value of a header, which is empty if there is none. -/
def getValueByHeader (msg : HttpMessage) (header : List UInt8) : List UInt8 :=
  (msg.headers.find? header).getD []

def crlf : List UInt8 := [13, 10]

/-- The line of a header. -/
def headerLine (kv : List UInt8 × List UInt8) : List UInt8 := kv.1 ++ [58, 32] ++ kv.2 ++ crlf

def getRequestAsString (msg : HttpMessage) : List UInt8 :=
  msg.method ++ [32] ++ msg.url ++ [32] ++ msg.version ++ crlf ++
    msg.headers.toList.flatMap headerLine ++ crlf ++ msg.body

/-- The text, and the message with the hint that the call leaves. -/
def getResponseAsString (msg : HttpMessage) : List UInt8 × HttpMessage :=
  let hint := msg.hint ++ http_status_str msg.status
  (msg.version ++ [32] ++ decimal msg.status ++ [32] ++ hint ++ crlf ++
    msg.headers.toList.flatMap headerLine ++ crlf ++ msg.body, { msg with hint := hint })

end HttpMessage

end CodingDemo.Libcpp
