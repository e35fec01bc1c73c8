import Morton.Net.Http

/-! An HTTP exchange on the wire: the whole request as `handle_client` reads it, the response
as it writes it, and what `http_fetch` makes of the bytes that arrive. -/
namespace Morton.Net
open Text

/-- A request with its headers and its body. -/
structure HeardRequest extends HttpRequest where
  headers : Table HttpText HttpText
  body : HttpText

/-- `read_line`: a line, and what follows it. -/
def readLine (text : HttpText) : Option (HttpText × HttpText) :=
  (find crlf text).map fun stop => (text.take stop, text.drop (stop + 2))

/-- `std::tolower` -/
def toLower (c : UInt8) : UInt8 := if 65 ≤ c ∧ c ≤ 90 then c + 32 else c

/-- One round of the loop over the headers. -/
def addHeader (headers : Table HttpText HttpText) (line : HttpText) : Table HttpText HttpText :=
  match find [58] line with
  | none => headers
  | some colon =>
    headers.insert ((line.take colon).map toLower)
      ((line.drop (colon + 1)).dropWhile fun c => c == 32 || c == 9)

/-- The loop over the headers; each round reads a line, so the length of the text bounds it. -/
def readHeaders : Nat → HttpText → Table HttpText HttpText → Table HttpText HttpText
  | 0, _, headers => headers
  | fuel+1, text, headers =>
    match readLine text with
    | none => headers
    | some (line, rest) => if line = [] then headers else readHeaders fuel rest (addHeader headers line)

/-- `handle_client` from the first line of the buffer to the body. -/
def hearRequest (buffer : HttpText) : Option HeardRequest :=
  (readLine buffer).bind fun (_, rest) =>
    (parseRequest buffer).map fun request =>
      { request with
        headers := readHeaders buffer.length rest ∅
        body := ((find (crlf ++ crlf) buffer).map fun headerEnd => buffer.drop (headerEnd + 4)).getD [] }

def statusText : Nat → HttpText
  | 200 => ascii "OK"
  | 400 => ascii "Bad Request"
  | 404 => ascii "Not Found"
  | 409 => ascii "Conflict"
  | 500 => ascii "Internal Server Error"
  | 503 => ascii "Service Unavailable"
  | _ => ascii "OK"

/-- What the server sends for a response; no handler adds headers. -/
def httpResponseText (response : HttpResponse) : HttpText :=
  ascii "HTTP/1.1 " ++ decimal response.status ++ ascii " " ++ statusText response.status ++ crlf ++
    ascii "Content-Type: " ++ response.contentType ++ crlf ++ ascii "Content-Length: " ++
    decimal response.body.length ++ crlf ++ ascii "Connection: close" ++ crlf ++ crlf ++
    response.body

/-- The routes of an `HttpServer`, and its fallback. -/
structure HttpServer where
  routes : HttpText → Option (HeardRequest → HttpResponse)
  fallback : Option (HeardRequest → HttpResponse) := none

namespace HttpServer

def dispatch (server : HttpServer) (request : HeardRequest) : HttpResponse :=
  match server.routes (request.method ++ 32 :: request.path), server.fallback with
  | some handler, _ => handler request
  | none, some fallback => fallback request
  | none, none => .notFound

/-- What `handle_client` answers to the chunks it receives, if it answers. -/
def handleClient (server : HttpServer) (chunks : List HttpText) : Option HttpResponse :=
  (receive [] chunks).bind fun buffer => (hearRequest buffer).map server.dispatch

/-- Handlers that look at neither the headers nor the body, and no fallback. -/
def plain (routes : HttpText → Option (HttpRequest → HttpResponse)) : HttpServer where
  routes route := (routes route).map fun handler request => handler request.toHttpRequest

theorem dispatch_plain (routes : HttpText → Option (HttpRequest → HttpResponse))
    (request : HeardRequest) :
    (plain routes).dispatch request = Net.dispatch routes request.toHttpRequest := by
  unfold dispatch Net.dispatch plain
  dsimp only
  cases routes (request.method ++ 32 :: request.path) with
  | none => rfl
  | some handler => rfl

/-- A server with such handlers answers as the model without headers and body does. -/
theorem handleClient_plain (routes : HttpText → Option (HttpRequest → HttpResponse))
    (chunks : List HttpText) :
    (plain routes).handleClient chunks = Net.handleClient routes chunks := by
  unfold handleClient Net.handleClient
  cases receive [] chunks with
  | none => rfl
  | some buffer =>
    rw [Option.bind_some, Option.bind_some, hearRequest, parseRequest, readLine]
    cases find crlf buffer with
    | none => rfl
    | some stop => exact congrArg some (dispatch_plain routes _)

end HttpServer

def kMaxResponseBytes : Nat := 1024 * 1024

/-- What `http_fetch` returns. -/
structure HttpFetched where
  ok : Bool := false
  status : ℤ := 0
  body : HttpText := []
  error : HttpText := []
  deriving DecidableEq

/-- The reading loop of `http_fetch`; an empty chunk is a closed connection or a timeout. -/
def collect (response : HttpText) : List HttpText → HttpText
  | [] => response
  | chunk :: chunks =>
    if kMaxResponseBytes ≤ response.length ∨ chunk = [] then response
    else collect (response ++ chunk) chunks

/-- The end of `http_fetch`; the status is an `int`. -/
def parseResponse (response : HttpText) : HttpFetched :=
  match find (crlf ++ crlf) response with
  | none => { error := ascii "malformed response" }
  | some headerEnd =>
    if response.length < 12 then { error := ascii "malformed response" }
    else
      let status := (strtoll (response.drop 9)).bmod (2 ^ 32)
      { ok := decide (200 ≤ status ∧ status < 300), status, body := response.drop (headerEnd + 4) }

/-- `http_fetch` once its request is sent. -/
def httpFetch (chunks : List HttpText) : HttpFetched := parseResponse (collect [] chunks)

/-- Lines, each with its end. -/
def lineTexts (lines : List HttpText) : HttpText := lines.flatMap (· ++ crlf)

theorem lineTexts_cons (line : HttpText) (lines : List HttpText) :
    lineTexts (line :: lines) = line ++ (crlf ++ lineTexts lines) := by
  simp [lineTexts]

/-- A line of a header that is not its end. -/
def HeaderLine (line : HttpText) : Prop := line ≠ [] ∧ 13 ∉ line

instance (line : HttpText) : Decidable (HeaderLine line) :=
  inferInstanceAs (Decidable (line ≠ [] ∧ 13 ∉ line))

section Lines

/-- A needle without the separator is not found across it. -/
theorem clear_of_absent {α : Type*} {needle first rest : List α} {a : α} (ha : a ∉ needle)
    (h : ¬ needle <:+: first) : Clear needle first (a :: rest) := by
  intro j hj hstarts
  rw [List.drop_append_of_le_length (Nat.le_of_lt hj)] at hstarts
  have hlong : ¬ (first.drop j ++ [a]) <+: needle := fun hwithin => ha (hwithin.mem (by simp))
  have hends : first.drop j ++ [a] <+: first.drop j ++ a :: rest := by simp
  cases List.prefix_or_prefix_of_prefix hends hstarts with
  | inl hwithin => exact hlong hwithin
  | inr hshort =>
    cases List.prefix_concat_iff.mp hshort with
    | inl hsame => exact hlong (hsame ▸ List.prefix_rfl)
    | inr hpart => exact h (hpart.isInfix.trans (List.drop_suffix j first).isInfix)

/-- A needle that is in no line and has no end of a line in it is not in the lines. -/
theorem clear_lineTexts {needle : HttpText} (hreturn : 13 ∉ needle) (hfeed : 10 ∉ needle)
    (hne : needle ≠ []) {lines : List HttpText} (h : ∀ line ∈ lines, ¬ needle <:+: line)
    (rest : HttpText) : Clear needle (lineTexts lines) rest := by
  have hstart : ∀ (c : UInt8) (text : HttpText), c ∉ needle → ¬ needle <+: c :: text := by
    intro c text hc hstarts
    obtain ⟨b, more, rfl⟩ := List.exists_cons_of_ne_nil hne
    exact hc ((List.cons_prefix_cons.mp hstarts).1 ▸ List.mem_cons_self)
  induction lines with
  | nil => exact clear_nil _ _
  | cons line lines ih =>
    have hbreak : crlf ++ lineTexts lines = 13 :: 10 :: lineTexts lines := rfl
    rw [lineTexts_cons, hbreak, clear_append, clear_cons, clear_cons]
    refine ⟨clear_of_absent hreturn (h line List.mem_cons_self), ?_⟩
    exact ⟨hstart 13 _ hreturn, hstart 10 _ hfeed, ih fun l hl => h l (List.mem_cons_of_mem _ hl)⟩

/-- Two ends of lines in a row do not start within the header. -/
theorem clear_header {lines : List HttpText} {last : HttpText}
    (h : ∀ line ∈ lines ++ [last], HeaderLine line) (rest : HttpText) :
    Clear (crlf ++ crlf) (lineTexts lines ++ last) rest := by
  induction lines with
  | nil => exact clear_of_not_mem (h last (by simp)).2 rest
  | cons line lines ih =>
    have hrest := ih fun l hl => h l (List.mem_cons_of_mem _ hl)
    rw [lineTexts_cons, List.append_assoc, List.append_assoc, clear_append, clear_append]
    refine ⟨clear_of_not_mem (h line (by simp)).2 _, ?_, hrest⟩
    obtain ⟨c, more, hnext, hc⟩ : ∃ c more, lineTexts lines ++ last = c :: more ∧ c ≠ 13 := by
      cases lines with
      | nil =>
        obtain ⟨hne, hplain⟩ := h last (by simp)
        obtain ⟨c, more, rfl⟩ := List.exists_cons_of_ne_nil hne
        exact ⟨c, more, rfl, fun heq => hplain (heq ▸ List.mem_cons_self)⟩
      | cons next lines =>
        obtain ⟨hne, hplain⟩ := h next (by simp)
        obtain ⟨c, more, rfl⟩ := List.exists_cons_of_ne_nil hne
        exact ⟨c, _, by rw [lineTexts_cons]; rfl, fun heq => hplain (heq ▸ List.mem_cons_self)⟩
    rw [hnext]
    have hfirst : ¬ crlf ++ crlf <+: 13 :: ([10] ++ ((c :: more) ++ rest)) := by
      intro hstarts
      have hthird := (List.cons_prefix_cons.mp (List.cons_prefix_cons.mp hstarts).2).2
      exact hc (List.cons_prefix_cons.mp hthird).1.symm
    exact clear_cons.mpr ⟨hfirst, clear_of_not_mem (a := 13) (by decide) _⟩

theorem find_header {lines : List HttpText} {last : HttpText}
    (h : ∀ line ∈ lines ++ [last], HeaderLine line) (rest : HttpText) :
    find (crlf ++ crlf) (lineTexts lines ++ last ++ (crlf ++ crlf ++ rest)) =
      some (lineTexts lines ++ last).length :=
  find_of_clear (clear_header h _)

/-- Where the end of the header has arrived, the header has, and a part of the body. -/
theorem header_arrived {head body buffer : HttpText} {found : Nat}
    (hheader : find (crlf ++ crlf) (head ++ (crlf ++ crlf ++ body)) = some head.length)
    (h : buffer <+: head ++ (crlf ++ crlf ++ body))
    (hfind : find (crlf ++ crlf) buffer = some found) :
    found = head.length ∧ ∃ part, part <+: body ∧ buffer = head ++ (crlf ++ crlf ++ part) := by
  obtain ⟨more, hmore⟩ := h
  have hsame := find_append_right hfind more
  rw [hmore, hheader] at hsame
  obtain rfl := Option.some.inj hsame
  obtain ⟨part, hsplit, -⟩ := find_splits hfind
  have htake : buffer.take head.length = head := by
    have hboth := congrArg (List.take head.length) hmore
    have hbound := find_bound hfind
    rwa [List.take_left, List.take_append_of_le_length (by omega)] at hboth
  rw [htake] at hsplit
  refine ⟨rfl, part, ⟨more, ?_⟩, hsplit⟩
  rw [hsplit, List.append_assoc, List.append_assoc] at hmore
  exact List.append_cancel_left (List.append_cancel_left hmore)

theorem readLine_line {line : HttpText} (h : 13 ∉ line) (rest : HttpText) :
    readLine (line ++ (crlf ++ rest)) = some (line, rest) := by
  have hfind : find crlf (line ++ (crlf ++ rest)) = some line.length :=
    find_of_clear (clear_of_not_mem h _)
  have hrest : (line ++ (crlf ++ rest)).drop (line.length + 2) = rest := by
    rw [← List.append_assoc]
    exact List.drop_left' (by simp [crlf])
  rw [readLine, hfind, Option.map_some, List.take_left, hrest]

/-- The headers are read line by line up to the empty line. -/
theorem readHeaders_lines {lines : List HttpText} (h : ∀ line ∈ lines, HeaderLine line)
    (rest : HttpText) {fuel : Nat} (hfuel : lines.length < fuel)
    (headers : Table HttpText HttpText) :
    readHeaders fuel (lineTexts lines ++ (crlf ++ rest)) headers = lines.foldl addHeader headers := by
  induction lines generalizing fuel headers with
  | nil =>
    obtain ⟨fuel, rfl⟩ := Nat.exists_eq_succ_of_ne_zero (Nat.ne_of_gt hfuel)
    have hempty : readLine (crlf ++ rest) = some ([], rest) := readLine_line List.not_mem_nil rest
    simp only [readHeaders, lineTexts, List.flatMap_nil, List.nil_append, hempty, if_true,
      List.foldl_nil]
  | cons line lines ih =>
    obtain ⟨fuel, rfl⟩ := Nat.exists_eq_succ_of_ne_zero (Nat.ne_zero_of_lt hfuel)
    obtain ⟨hne, hplain⟩ := h line List.mem_cons_self
    rw [lineTexts_cons, List.append_assoc, List.append_assoc, readHeaders, readLine_line hplain]
    simp only [hne, if_false]
    exact ih (fun l hl => h l (List.mem_cons_of_mem _ hl)) (Nat.lt_of_succ_lt_succ hfuel) _

end Lines

section Numbers

theorem scanNumber_space (text : HttpText) : scanNumber (32 :: text) = scanNumber text := by
  unfold scanNumber
  rw [List.dropWhile_cons_of_pos (by decide)]

/-- Digits before something else are scanned as their value. -/
theorem scanNumber_stop {digits rest : HttpText} {stop : UInt8} (hne : digits ≠ [])
    (h : ∀ b ∈ digits, isDigit b = true) (hstop : isDigit stop = false) :
    scanNumber (digits ++ stop :: rest) = (false, value digits) := by
  obtain ⟨b, more, rfl⟩ := List.exists_cons_of_ne_nil hne
  have hb := digit_bounds (h b List.mem_cons_self)
  have hspace : ¬ isSpace b = true := by
    rw [isSpace, Bool.or_eq_true, beq_iff_eq, Bool.and_eq_true, decide_eq_true_eq,
      decide_eq_true_eq, UInt8.le_iff_toNat_le, UInt8.le_iff_toNat_le]
    rintro (heq | ⟨-, hle⟩)
    · rw [heq] at hb
      exact absurd hb.1 (by decide)
    · exact absurd (Nat.le_trans hb.1 hle) (by decide)
  have hdigits : (b :: more ++ stop :: rest).takeWhile isDigit = b :: more := by
    rw [takeWhile_append_stop hstop, takeWhile_digits h]
  unfold scanNumber
  rw [List.cons_append, List.dropWhile_cons_of_neg hspace, ← List.cons_append]
  split
  · rename_i heq
    rw [(List.cons.inj heq).1] at hb
    exact absurd hb.1 (by decide)
  · rename_i heq
    rw [(List.cons.inj heq).1] at hb
    exact absurd hb.1 (by decide)
  · rw [hdigits]

/-- A numeral that ends with something else. -/
theorem scanNumber_decimal (n : Nat) {stop : UInt8} (hstop : isDigit stop = false)
    (rest : HttpText) : scanNumber (decimal n ++ stop :: rest) = (false, n) := by
  rw [scanNumber_stop (decimal_ne_nil n) (fun _ hb => isDigit_of_mem_decimal hb) hstop,
    value_decimal]

end Numbers

def requestLine (method target : HttpText) : HttpText :=
  method ++ ascii " " ++ target ++ ascii " HTTP/1.1"

def hostLine (host : HttpText) : HttpText := ascii "Host: " ++ host

/-- What `http_fetch` is asked to send. The method and the target are words, and nothing in front
of the length looks like it. -/
structure ClientRequest where
  method : HttpText
  target : HttpText
  host : HttpText
  body : HttpText := []
  method_ne : method ≠ []
  method_plain : ∀ c ∈ method, isSpace c = false
  target_ne : target ≠ []
  target_plain : ∀ c ∈ target, isSpace c = false
  host_plain : ∀ c ∈ host, isSpace c = false
  unannounced : ∀ line ∈ [requestLine method target, hostLine host],
    ¬ ascii "Content-Length:" <:+: line

namespace ClientRequest
variable (r : ClientRequest)

def text : HttpText := httpRequestText r.method r.target r.host r.body

/-- The lines in front of the length. -/
def front : List HttpText :=
  [requestLine r.method r.target, hostLine r.host, ascii "Connection: close"]

def lengthLine : HttpText := ascii "Content-Length: " ++ decimal r.body.length

theorem text_eq : r.text = lineTexts r.front ++ r.lengthLine ++ (crlf ++ crlf ++ r.body) := by
  simp [text, front, lineTexts, requestLine, hostLine, lengthLine, httpRequestText, crlf, ascii]

theorem no_return {part : HttpText} (h : ∀ c ∈ part, isSpace c = false) : 13 ∉ part :=
  fun hmem => absurd (h 13 hmem) (by decide)

theorem decimal_no_return (n : Nat) : 13 ∉ decimal n :=
  fun hmem => absurd (isDigit_of_mem_decimal hmem) (by decide)

theorem headerLines : ∀ line ∈ r.front ++ [r.lengthLine], HeaderLine line := by
  have hmethod := no_return r.method_plain
  have htarget := no_return r.target_plain
  have hhost := no_return r.host_plain
  have hlength := decimal_no_return r.body.length
  simp only [front, List.cons_append, List.nil_append, List.forall_mem_cons, List.not_mem_nil,
    false_implies, implies_true, and_true]
  refine ⟨⟨by simp [requestLine, r.method_ne], ?_⟩, ⟨by simp [hostLine, ascii], ?_⟩, by decide,
    ⟨by simp [lengthLine, ascii], ?_⟩⟩
  · simp only [requestLine, List.mem_append, not_or]
    exact ⟨⟨⟨hmethod, by decide⟩, htarget⟩, by decide⟩
  · simp only [hostLine, List.mem_append, not_or]
    exact ⟨by decide, hhost⟩
  · simp only [lengthLine, List.mem_append, not_or]
    exact ⟨by decide, hlength⟩

/-- The server finds the length that was announced. -/
theorem find_announcement (rest : HttpText) :
    find (ascii "Content-Length:") (lineTexts r.front ++ (ascii "Content-Length:" ++ rest)) =
      some (lineTexts r.front).length := by
  refine find_of_clear (clear_lineTexts (by decide) (by decide) (by decide) ?_ _)
  intro line hline
  rcases List.mem_cons.mp hline with rfl | hline
  · exact r.unannounced _ (by simp)
  · rcases List.mem_cons.mp hline with rfl | hline
    · exact r.unannounced _ (by simp)
    · rw [List.mem_singleton.mp hline]
      decide

theorem contentLength_eq (rest : HttpText) (hsmall : r.body.length < 2 ^ 64) :
    contentLength (lineTexts r.front ++ r.lengthLine ++ (crlf ++ crlf ++ rest))
      (lineTexts r.front ++ r.lengthLine).length = r.body.length := by
  have hshape : lineTexts r.front ++ r.lengthLine ++ (crlf ++ crlf ++ rest) =
      lineTexts r.front ++ (ascii "Content-Length:" ++
        32 :: (decimal r.body.length ++ 13 :: (10 :: crlf ++ rest))) := by
    simp [lengthLine, crlf, ascii]
  have hwithin : (lineTexts r.front).length < (lineTexts r.front ++ r.lengthLine).length := by
    rw [List.length_append]
    exact Nat.lt_add_of_pos_right (by simp [lengthLine, ascii])
  have hvalue : (lineTexts r.front ++ (ascii "Content-Length:" ++
      32 :: (decimal r.body.length ++ 13 :: (10 :: crlf ++ rest)))).drop
        ((lineTexts r.front).length + 15) =
      32 :: (decimal r.body.length ++ 13 :: (10 :: crlf ++ rest)) := by
    rw [← List.append_assoc]
    exact List.drop_left' (by simp [ascii])
  rw [contentLength, hshape, r.find_announcement, Option.some_or]
  dsimp only
  rw [if_pos hwithin, hvalue, strtoull, scanNumber_space, scanNumber_decimal _ (by decide)]
  dsimp only
  rw [if_neg (Nat.not_le.mpr hsmall), if_neg Bool.false_ne_true]

/-- What has arrived is complete when all of it has arrived. -/
theorem complete_iff {buffer : HttpText} (hfits : r.text.length ≤ kMaxRequestBytes)
    (h : buffer <+: r.text) : complete buffer = true ↔ buffer = r.text := by
  have hheader := find_header r.headerLines r.body
  have hlength : r.text.length =
      (lineTexts r.front ++ r.lengthLine).length + 4 + r.body.length := by
    have hend : crlf.length = 2 := rfl
    rw [r.text_eq]
    simp only [List.length_append, hend]
    omega
  have hmax : kMaxRequestBytes < 2 ^ 64 := by decide
  unfold complete
  cases hfind : find (crlf ++ crlf) buffer with
  | none =>
    refine iff_of_false Bool.false_ne_true fun heq => ?_
    rw [heq, r.text_eq, hheader] at hfind
    cases hfind
  | some found =>
    obtain ⟨rfl, rest, -, hrest⟩ := header_arrived hheader (r.text_eq ▸ h) hfind
    have hannounced : contentLength buffer (lineTexts r.front ++ r.lengthLine).length =
        r.body.length := by
      rw [hrest]
      exact r.contentLength_eq rest (by omega)
    dsimp only
    rw [hannounced, ← hlength, Nat.mod_eq_of_lt (by omega), decide_eq_true_eq]
    constructor
    · intro hle
      exact h.eq_of_length_le hle
    · rintro rfl
      exact Nat.le_refl _

/-- However the request is cut into chunks, the server reads it as a whole. -/
theorem receive_text (hfits : r.text.length ≤ kMaxRequestBytes) {buffer : HttpText}
    {chunks : List HttpText} (hall : buffer ++ chunks.flatten = r.text) (hne : [] ∉ chunks)
    (hmore : chunks ≠ []) : receive buffer chunks = some r.text := by
  have hheader := find_header r.headerLines r.body
  rw [← r.text_eq] at hheader
  induction chunks generalizing buffer with
  | nil => exact absurd rfl hmore
  | cons chunk chunks ih =>
    have hchunk : chunk ≠ [] := fun h => hne (h ▸ List.mem_cons_self)
    have hrest : [] ∉ chunks := fun h => hne (List.mem_cons_of_mem _ h)
    rw [List.flatten_cons, ← List.append_assoc] at hall
    rw [receive, if_neg hchunk]
    dsimp only
    cases chunks with
    | nil =>
      rw [List.flatten_nil, List.append_nil] at hall
      rw [hall, (r.complete_iff hfits List.prefix_rfl).mpr rfl, hheader]
      rfl
    | cons next chunks =>
      have hnext : 0 < next.length :=
        List.length_pos_iff.mpr fun h => hrest (h ▸ List.mem_cons_self)
      have hlength := congrArg List.length hall
      simp only [List.length_append, List.flatten_cons] at hlength
      have hpart : complete (buffer ++ chunk) = false := by
        rw [← Bool.not_eq_true, r.complete_iff hfits ⟨_, hall⟩]
        intro heq
        have hsame := congrArg List.length heq
        rw [List.length_append] at hsame
        omega
      have hsmall : ¬ kMaxRequestBytes ≤ (buffer ++ chunk).length := by
        rw [List.length_append]
        omega
      rw [hpart, decide_eq_false hsmall, Bool.or_false, if_neg Bool.false_ne_true]
      exact ih hall hrest (List.cons_ne_nil _ _)

/-- The request the server should hear. -/
def heard : HeardRequest :=
  { parseTarget r.method r.target with
    headers := ([hostLine r.host, ascii "Connection: close", r.lengthLine] : List HttpText).foldl
      addHeader ∅
    body := r.body }

theorem word_of_plain {part : HttpText} (hplain : ∀ c ∈ part, isSpace c = false) (hne : part ≠ [])
    (rest : HttpText) : word (part ++ 32 :: rest) = (part, 32 :: rest) := by
  obtain ⟨c, more, rfl⟩ := List.exists_cons_of_ne_nil hne
  have hall : ∀ b ∈ c :: more, (! isSpace b) = true := by
    intro b hb
    rw [hplain b hb]
    rfl
  have hstart : (c :: more ++ 32 :: rest).dropWhile isSpace = c :: more ++ 32 :: rest :=
    List.dropWhile_cons_of_neg (by rw [hplain c List.mem_cons_self]; exact Bool.false_ne_true)
  unfold word
  rw [hstart]
  dsimp only
  rw [List.takeWhile_append_of_pos hall, List.dropWhile_append_of_pos hall]
  simp [isSpace]

theorem word_space (text : HttpText) : word (32 :: text) = word text := by
  unfold word
  rw [List.dropWhile_cons_of_pos (by decide)]

/-- The header behind the request line, the empty line, and the body. -/
theorem text_split : r.text = requestLine r.method r.target ++ (crlf ++
    (lineTexts [hostLine r.host, ascii "Connection: close", r.lengthLine] ++ (crlf ++ r.body))) := by
  rw [text_eq]
  simp [front, lineTexts]

theorem parseRequest_text : parseRequest r.text = some (parseTarget r.method r.target) := by
  have hplain : 13 ∉ requestLine r.method r.target :=
    (r.headerLines _ (by simp [front])).2
  have hfind : ∀ rest, find crlf (requestLine r.method r.target ++ (crlf ++ rest)) =
      some (requestLine r.method r.target).length :=
    fun rest => find_of_clear (clear_of_not_mem hplain _)
  have hline : requestLine r.method r.target =
      r.method ++ 32 :: (r.target ++ 32 :: ascii "HTTP/1.1") := by
    simp [requestLine, ascii]
  rw [parseRequest, text_split, hfind, Option.map_some, List.take_left, hline,
    word_of_plain r.method_plain r.method_ne]
  dsimp only
  rw [word_space, word_of_plain r.target_plain r.target_ne]

/-- The server hears the request that was sent. -/
theorem hearRequest_text : hearRequest r.text = some r.heard := by
  have hplain : 13 ∉ requestLine r.method r.target :=
    (r.headerLines _ (by simp [front])).2
  have hread : readLine r.text = some (requestLine r.method r.target,
      lineTexts [hostLine r.host, ascii "Connection: close", r.lengthLine] ++ (crlf ++ r.body)) := by
    rw [text_split]
    exact readLine_line hplain _
  have hheaders : ∀ line ∈ [hostLine r.host, ascii "Connection: close", r.lengthLine],
      HeaderLine line := fun line hline => r.headerLines line (List.mem_cons_of_mem _ hline)
  have hfuel : [hostLine r.host, ascii "Connection: close", r.lengthLine].length < r.text.length := by
    rw [text_eq]
    simp [front, lineTexts, hostLine, ascii]
    omega
  have hbody : r.text.drop ((lineTexts r.front ++ r.lengthLine).length + 4) = r.body := by
    rw [text_eq, ← List.append_assoc]
    exact List.drop_left' (by simp only [List.length_append]; rfl)
  have hfind := find_header r.headerLines r.body
  rw [← r.text_eq] at hfind
  rw [hearRequest, hread, Option.bind_some, parseRequest_text]
  dsimp only
  rw [Option.map_some, readHeaders_lines hheaders _ hfuel, hfind, Option.map_some, hbody]
  rfl

end ClientRequest

section Response

variable {response : HttpResponse}

def responseLines (response : HttpResponse) : List HttpText :=
  [ascii "HTTP/1.1 " ++ decimal response.status ++ ascii " " ++ statusText response.status,
    ascii "Content-Type: " ++ response.contentType,
    ascii "Content-Length: " ++ decimal response.body.length]

theorem httpResponseText_eq (response : HttpResponse) : httpResponseText response =
    lineTexts (responseLines response) ++ ascii "Connection: close" ++
      (crlf ++ crlf ++ response.body) := by
  simp [httpResponseText, responseLines, lineTexts]

theorem statusText_plain (status : Nat) : 13 ∉ statusText status := by
  unfold statusText
  split <;> decide

theorem responseLines_plain (h : 13 ∉ response.contentType) :
    ∀ line ∈ responseLines response ++ [ascii "Connection: close"], HeaderLine line := by
  have hstatus := ClientRequest.decimal_no_return response.status
  have hlength := ClientRequest.decimal_no_return response.body.length
  have htext := statusText_plain response.status
  simp only [responseLines, List.cons_append, List.nil_append, List.forall_mem_cons,
    List.not_mem_nil, false_implies, implies_true, and_true]
  refine ⟨⟨by simp [ascii], ?_⟩, ⟨by simp [ascii], ?_⟩, ⟨by simp [ascii], ?_⟩, by decide⟩
  · simp only [List.mem_append, not_or]
    exact ⟨⟨⟨by decide, hstatus⟩, by decide⟩, htext⟩
  · simp only [List.mem_append, not_or]
    exact ⟨by decide, h⟩
  · simp only [List.mem_append, not_or]
    exact ⟨by decide, hlength⟩

/-- The client reads what arrives, as far as its limit goes. -/
theorem collect_starts (buffer : HttpText) (chunks : List HttpText) :
    collect buffer chunks <+: buffer ++ chunks.flatten := by
  induction chunks generalizing buffer with
  | nil => simp [collect]
  | cons chunk chunks ih =>
    rw [collect, List.flatten_cons, ← List.append_assoc]
    split
    · rw [List.append_assoc]
      exact List.prefix_append _ _
    · exact ih (buffer ++ chunk)

theorem collect_all {buffer : HttpText} {chunks : List HttpText} (hne : [] ∉ chunks)
    (hfits : (buffer ++ chunks.flatten).length ≤ kMaxResponseBytes) :
    collect buffer chunks = buffer ++ chunks.flatten := by
  induction chunks generalizing buffer with
  | nil => simp [collect]
  | cons chunk chunks ih =>
    have hchunk : chunk ≠ [] := fun h => hne (h ▸ List.mem_cons_self)
    have hpos := List.length_pos_iff.mpr hchunk
    rw [List.flatten_cons] at hfits ⊢
    have hsmall : ¬ (kMaxResponseBytes ≤ buffer.length ∨ chunk = []) := by
      rintro (hfull | hempty)
      · simp only [List.length_append] at hfits
        omega
      · exact hchunk hempty
    rw [collect, if_neg hsmall, ih (fun h => hne (List.mem_cons_of_mem _ h)) (by
      rwa [List.append_assoc]), List.append_assoc]

/-- What the client should make of a response of which this body arrives. -/
def reported (response : HttpResponse) (body : HttpText) : HttpFetched :=
  { ok := decide (200 ≤ response.status ∧ response.status < 300), status := response.status, body }

theorem parseResponse_text (hplain : 13 ∉ response.contentType) (hstatus : response.status < 2 ^ 31)
    (part : HttpText) :
    parseResponse (lineTexts (responseLines response) ++ ascii "Connection: close" ++
      (crlf ++ crlf ++ part)) = reported response part := by
  have hfind := find_header (responseLines_plain hplain) part
  generalize hhead : lineTexts (responseLines response) ++ ascii "Connection: close" = head at hfind ⊢
  obtain ⟨more, hmore⟩ : ∃ more, head ++ (crlf ++ crlf ++ part) =
      ascii "HTTP/1.1 " ++ (decimal response.status ++ 32 :: more) := by
    refine ⟨statusText response.status ++ (crlf ++ (lineTexts ((responseLines response).drop 1) ++
      ascii "Connection: close" ++ (crlf ++ crlf ++ part))), ?_⟩
    rw [← hhead]
    simp [responseLines, lineTexts, ascii]
  have hlong : ¬ (head ++ (crlf ++ crlf ++ part)).length < 12 := by
    rw [← hhead]
    simp [lineTexts, responseLines, ascii]
    omega
  have hdrop : (head ++ (crlf ++ crlf ++ part)).drop 9 = decimal response.status ++ 32 :: more := by
    rw [hmore]
    rfl
  have hbody : (head ++ (crlf ++ crlf ++ part)).drop (head.length + 4) = part := by
    rw [← List.append_assoc]
    exact List.drop_left' (by simp only [List.length_append]; rfl)
  have hvalue : (strtoll (decimal response.status ++ 32 :: more)).bmod (2 ^ 32) = response.status := by
    rw [strtoll, scanNumber_decimal _ (by decide)]
    dsimp only
    rw [if_neg Bool.false_ne_true, min_eq_left (by omega),
      Int.bmod_eq_of_le (by omega) (by omega)]
  rw [parseResponse, hfind]
  dsimp only
  rw [if_neg hlong, hdrop, hvalue, hbody, reported]
  congr 2
  exact propext (by omega)

/-- A reply that is cut short is malformed, or its body is cut short. -/
theorem parseResponse_cut (hplain : 13 ∉ response.contentType) (hstatus : response.status < 2 ^ 31)
    {arrived : HttpText} (h : arrived <+: httpResponseText response) :
    parseResponse arrived = { error := ascii "malformed response" } ∨
      ∃ part, part <+: response.body ∧ parseResponse arrived = reported response part := by
  have hheader := find_header (responseLines_plain hplain) response.body
  rw [httpResponseText_eq] at h
  cases hfind : find (crlf ++ crlf) arrived with
  | none =>
    left
    rw [parseResponse, hfind]
  | some found =>
    right
    obtain ⟨-, part, hpart, heq⟩ := header_arrived hheader h hfind
    rw [heq]
    exact ⟨part, hpart, parseResponse_text hplain hstatus part⟩

end Response

def stateServer : HttpServer where
  routes route :=
    if route = ascii "GET /state" then some fun request => .json (request.queryValue (ascii "q"))
    else none

def stateRequest : ClientRequest where
  method := ascii "GET"
  target := ascii "/state?q=a+b"
  host := ascii "10.0.0.1:80"
  method_ne := by decide
  method_plain := by decide +kernel
  target_ne := by decide
  target_plain := by decide +kernel
  host_plain := by decide +kernel
  unannounced := by decide +kernel

end Morton.Net
