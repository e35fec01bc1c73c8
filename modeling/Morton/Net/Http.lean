import Morton.Base.Table
import Morton.Base.Text

/-! HTTP between a client and the matchmaker: how the server reads a request, and the escaping
and looking up of the values in a response. Headers other than the length are left out. -/
namespace Morton.Net
open Text

/-- A `std::string`. -/
abbrev HttpText := List UInt8

def kMaxRequestBytes : Nat := 256 * 1024

/-- The value of a hexadecimal digit. -/
def hex (c : UInt8) : Option Nat :=
  if 48 ≤ c ∧ c ≤ 57 then some (c.toNat - 48)
  else if 97 ≤ c ∧ c ≤ 102 then some (c.toNat - 97 + 10)
  else if 65 ≤ c ∧ c ≤ 70 then some (c.toNat - 65 + 10)
  else none

/-- The byte that two hexadecimal digits stand for. -/
def hexByte (high low : UInt8) : Option UInt8 :=
  match hex high, hex low with
  | some h, some l => some (UInt8.ofNat (h * 16 + l))
  | _, _ => none

/-- A plus is a space, and a percent sign with two hexadecimal digits is a byte. -/
def urlDecode : HttpText → HttpText
  | [] => []
  | c :: high :: low :: rest =>
    if c = 43 then 32 :: urlDecode (high :: low :: rest)
    else if c = 37 then
      match hexByte high low with
      | some b => b :: urlDecode rest
      | none => c :: urlDecode (high :: low :: rest)
    else c :: urlDecode (high :: low :: rest)
  | c :: rest => (if c = 43 then 32 else c) :: urlDecode rest

/-- One round of the loop of `json_escape`. -/
def escapeByte (c : UInt8) : HttpText :=
  if c = 34 then [92, 34]
  else if c = 92 then [92, 92]
  else if c = 10 then [92, 110]
  else if c = 13 then [92, 114]
  else if c = 9 then [92, 116]
  else if c < 32 then ascii "\\u00" ++ [hexDigit (c.toNat / 16), hexDigit (c.toNat % 16)]
  else [c]
where
  /-- A digit of `%04x`. -/
  hexDigit (n : Nat) : UInt8 := UInt8.ofNat (if n < 10 then 48 + n else 87 + n)

def jsonEscape (text : HttpText) : HttpText := text.flatMap escapeByte

/-- A text up to the next quote, or a value up to a comma or a brace. -/
def jsonValue : HttpText → HttpText
  | [] => []
  | c :: rest =>
    if c = 34 then ((find [34] rest).map rest.take).getD []
    else (c :: rest).takeWhile fun c => c != 44 && c != 125

/-- The empty string if the key is not there. -/
def jsonLookup (json key : HttpText) : HttpText :=
  let needle := 34 :: (key ++ [34, 58])
  ((find needle json).map fun start => jsonValue (json.drop (start + needle.length))).getD []

structure HttpRequest where
  method : HttpText
  path : HttpText
  query : Table HttpText HttpText

def HttpRequest.queryValue (request : HttpRequest) (key : HttpText) : HttpText :=
  (request.query.lookup key).getD []

structure HttpResponse where
  status : Nat := 200
  contentType : HttpText := ascii "text/plain; charset=utf-8"
  body : HttpText
  deriving DecidableEq

namespace HttpResponse

def json (body : HttpText) : HttpResponse := { contentType := ascii "application/json", body }

def notFound : HttpResponse := { status := 404, body := ascii "not found" }

def badRequest (reason : HttpText) : HttpResponse := { status := 400, body := reason }

end HttpResponse

/-- The length announced in the header that ends at `headerEnd`. -/
def contentLength (buffer : HttpText) (headerEnd : Nat) : Nat :=
  match (find (ascii "Content-Length:") buffer).or (find (ascii "content-length:") buffer) with
  | none => 0
  | some marker => if marker < headerEnd then strtoull (buffer.drop (marker + 15)) else 0

/-- Header and body are there; the sum is a `size_t`. -/
def complete (buffer : HttpText) : Bool :=
  match find (crlf ++ crlf) buffer with
  | none => false
  | some headerEnd =>
    decide ((headerEnd + 4 + contentLength buffer headerEnd) % 2 ^ 64 ≤ buffer.length)

/-- The reading loop of `handle_client` over what `recv` returns. An empty chunk is a closed
connection, and no chunk is a timeout. -/
def receive (buffer : HttpText) : List HttpText → Option HttpText
  | [] => none
  | chunk :: chunks =>
    if chunk = [] then none
    else
      let buffer := buffer ++ chunk
      if complete buffer || decide (kMaxRequestBytes ≤ buffer.length) then
        if (find (crlf ++ crlf) buffer).isSome then some buffer else none
      else receive buffer chunks

/-- One round of the loop over the query. -/
def addPair (query : Table HttpText HttpText) (pair : HttpText) : Table HttpText HttpText :=
  if pair = [] then query
  else
    match find [61] pair with
    | none => query.insert (urlDecode pair) []
    | some equals =>
      query.insert (urlDecode (pair.take equals)) (urlDecode (pair.drop (equals + 1)))

/-- The next word of a line, and the rest: `>>` on a stream. -/
def word (line : HttpText) : HttpText × HttpText :=
  let line := line.dropWhile isSpace
  (line.takeWhile (! isSpace ·), line.dropWhile (! isSpace ·))

def parseTarget (method target : HttpText) : HttpRequest :=
  match find [63] target with
  | none => { method, path := urlDecode target, query := ∅ }
  | some question =>
    { method
      path := urlDecode (target.take question)
      query := ((target.drop (question + 1)).splitOn 38).foldl addPair ∅ }

/-- `handle_client` from the first line of the buffer to the query. -/
def parseRequest (buffer : HttpText) : Option HttpRequest :=
  (find crlf buffer).map fun stop =>
    let (method, rest) := word (buffer.take stop)
    parseTarget method (word rest).1

/-- The routes are found by method and path. -/
def dispatch (routes : HttpText → Option (HttpRequest → HttpResponse)) (request : HttpRequest) :
    HttpResponse :=
  match routes (request.method ++ 32 :: request.path) with
  | some handler => handler request
  | none => .notFound

def handleClient (routes : HttpText → Option (HttpRequest → HttpResponse))
    (chunks : List HttpText) : Option HttpResponse :=
  (receive [] chunks).bind fun buffer => (parseRequest buffer).map (dispatch routes)

/-- What `http_fetch` sends. -/
def httpRequestText (method target host body : HttpText) : HttpText :=
  method ++ ascii " " ++ target ++ ascii " HTTP/1.1\r\n" ++ ascii "Host: " ++ host ++ crlf ++
    ascii "Connection: close\r\n" ++ ascii "Content-Length: " ++ decimal body.length ++
    crlf ++ crlf ++ body

end Morton.Net
