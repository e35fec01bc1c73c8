import Morton.Cluster.Resp

/-! Well-formed replies are read back exactly, however they are cut into chunks. A stream that
breaks off gives the same replies or none. -/
namespace Morton.Cluster
open Proto Text

/-- A decimal number with or without a sign. -/
def Numeral (text : Bytes) (n : ℤ) : Prop :=
  ∃ digits : Bytes, digits ≠ [] ∧ (∀ b ∈ digits, isDigit b = true) ∧
    (text = digits ∧ n = value digits ∨ text = 43 :: digits ∧ n = value digits ∨
      text = 45 :: digits ∧ n = -value digits)

/-- The bytes of a sequence of well-formed replies whose bulk strings have sizes that fit. A
line is any text without a line end, and a count is an `i64`. -/
inductive Serialises (Fits : Nat → Prop) : List RespReply → Bytes → Prop
  | done : Serialises Fits [] []
  | status {line : Bytes} {replies : List RespReply} {rest : Bytes} (hline : ¬ crlf <:+: line)
      (hrest : Serialises Fits replies rest) :
      Serialises Fits (.status line :: replies) (43 :: line ++ crlf ++ rest)
  | error {line : Bytes} {replies : List RespReply} {rest : Bytes} (hline : ¬ crlf <:+: line)
      (hrest : Serialises Fits replies rest) :
      Serialises Fits (.error line :: replies) (45 :: line ++ crlf ++ rest)
  | integer {text : Bytes} {n : ℤ} {replies : List RespReply} {rest : Bytes}
      (hnumeral : Numeral text n) (hlow : -2 ^ 63 ≤ n) (hhigh : n < 2 ^ 63)
      (hrest : Serialises Fits replies rest) :
      Serialises Fits (.integer n :: replies) (58 :: text ++ crlf ++ rest)
  | nilString {replies : List RespReply} {rest : Bytes} (hrest : Serialises Fits replies rest) :
      Serialises Fits (.nil :: replies) (36 :: [45, 49] ++ crlf ++ rest)
  | nilArray {replies : List RespReply} {rest : Bytes} (hrest : Serialises Fits replies rest) :
      Serialises Fits (.nil :: replies) (42 :: [45, 49] ++ crlf ++ rest)
  | string {text payload : Bytes} {replies : List RespReply} {rest : Bytes}
      (hnumeral : Numeral text payload.length) (hfits : Fits payload.length)
      (hrest : Serialises Fits replies rest) :
      Serialises Fits (.string payload :: replies)
        (36 :: text ++ crlf ++ (payload ++ crlf) ++ rest)
  | array {text : Bytes} {elements : List RespReply} {inner : Bytes} {replies : List RespReply}
      {rest : Bytes} (hnumeral : Numeral text elements.length) (hcount : elements.length < 2 ^ 63)
      (helements : Serialises Fits elements inner) (hrest : Serialises Fits replies rest) :
      Serialises Fits (.array elements :: replies) (42 :: text ++ crlf ++ inner ++ rest)

theorem value_sign {sign : UInt8} (h : isSpace sign = false) (digits : Bytes) :
    (sign :: digits).dropWhile isSpace = sign :: digits :=
  List.dropWhile_cons_of_neg (by rw [h]; exact Bool.false_ne_true)

theorem strtoll_numeral {text : Bytes} {n : ℤ} (h : Numeral text n) :
    strtoll text = max (-2 ^ 63) (min n (2 ^ 63 - 1)) := by
  obtain ⟨digits, -, hdigits, ⟨rfl, rfl⟩ | ⟨rfl, rfl⟩ | ⟨rfl, rfl⟩⟩ := h
  · rw [strtoll, scanNumber_digits hdigits]
    dsimp only
    rw [if_neg Bool.false_ne_true]
    omega
  · have hscan : scanNumber (43 :: digits) = (false, value digits) := by
      rw [scanNumber, value_sign rfl]
      exact congrArg (fun ds => (false, value ds)) (takeWhile_digits hdigits)
    rw [strtoll, hscan]
    dsimp only
    rw [if_neg Bool.false_ne_true]
    omega
  · have hscan : scanNumber (45 :: digits) = (true, value digits) := by
      rw [scanNumber, value_sign rfl]
      exact congrArg (fun ds => (true, value ds)) (takeWhile_digits hdigits)
    rw [strtoll, hscan]
    dsimp only
    rw [if_pos rfl]
    omega

theorem numeral_decimal (n : Nat) : Numeral (decimal n) n :=
  ⟨decimal n, decimal_ne_nil n, fun _ => isDigit_of_mem_decimal,
    Or.inl ⟨rfl, by rw [value_decimal]⟩⟩

theorem not_infix_crlf {line : Bytes} (h : 13 ∉ line) : ¬ crlf <:+: line :=
  fun hwithin => h (hwithin.subset List.mem_cons_self)

theorem not_infix_crlf_cons {tag : UInt8} (htag : tag ≠ 13) {line : Bytes}
    (h : ¬ crlf <:+: line) : ¬ crlf <:+: tag :: line := by
  rw [List.infix_cons_iff, not_or]
  exact ⟨fun hstarts => htag (List.cons_prefix_cons.mp hstarts).1.symm, h⟩

theorem numeral_no_crlf {text : Bytes} {n : ℤ} (h : Numeral text n) : ¬ crlf <:+: text := by
  obtain ⟨digits, -, hdigits, htext⟩ := h
  have hno : (13 : UInt8) ∉ digits := fun hmem => absurd (hdigits 13 hmem) (by decide)
  rcases htext with ⟨rfl, -⟩ | ⟨rfl, -⟩ | ⟨rfl, -⟩
  · exact not_infix_crlf hno
  · exact not_infix_crlf_cons (by decide) (not_infix_crlf hno)
  · exact not_infix_crlf_cons (by decide) (not_infix_crlf hno)

/-- The end of a line is the first there is. -/
theorem clear_line {line : Bytes} (h : ¬ crlf <:+: line) (rest : Bytes) :
    Clear crlf line (crlf ++ rest) := by
  induction line with
  | nil => exact clear_nil _ _
  | cons c line ih =>
    rw [List.infix_cons_iff, not_or] at h
    refine clear_cons.mpr ⟨fun hstarts => h.1 ?_, ih h.2⟩
    obtain ⟨hhead, htail⟩ := List.cons_prefix_cons.mp hstarts
    cases line with
    | nil => exact absurd (List.cons_prefix_cons.mp htail).1 (by decide)
    | cons d line =>
      have hnext := (List.cons_prefix_cons.mp htail).1
      rw [← hhead, ← hnext]
      exact ⟨line, rfl⟩

namespace RespReader

/-- The outcome of reading bytes that mean `a`: nothing, which takes an incomplete stream or a
string over the cap, or `a`, and the bytes are gone. -/
def Reads {α : Type} (r : RespReader) (bytes : Bytes) (capped : Prop) (a : α)
    (outcome : RespReader × Option α) : Prop :=
  outcome.2 = none ∧ (bytes <+: r.unread → ¬ capped) ∨
    outcome.2 = some a ∧ outcome.1.InBuffer ∧ r.unread = bytes ++ outcome.1.unread

variable {capped : Prop}

theorem reads_nothing {α : Type} {r : RespReader} (hr : r.InBuffer) (a : α) :
    Reads r [] capped a (r, some a) := Or.inr ⟨rfl, hr, rfl⟩

theorem Reads.andThen {α β : Type} {r : RespReader} {first second : Bytes} {a : α} {b : β}
    {outcome : RespReader × Option α} {next : α → RespReader → RespReader × Option β}
    (h : Reads r first capped a outcome)
    (hnext : ∀ r' : RespReader, r'.InBuffer → r.unread = first ++ r'.unread →
      Reads r' second capped b (next a r')) :
    Reads r (first ++ second) capped b (andThen outcome next) := by
  obtain ⟨r', o⟩ := outcome
  cases h with
  | inl hnone =>
    obtain ⟨hnone, hcut⟩ := hnone
    cases hnone
    exact Or.inl ⟨rfl, fun hstarts => hcut ((List.prefix_append _ _).trans hstarts)⟩
  | inr hsome =>
    obtain ⟨hsome, hin, hunread⟩ := hsome
    cases hsome
    cases hnext r' hin hunread with
    | inl hnone =>
      refine Or.inl ⟨hnone.1, fun hstarts => hnone.2 ?_⟩
      rw [hunread] at hstarts
      exact (List.prefix_append_right_inj _).mp hstarts
    | inr hsome =>
      refine Or.inr ⟨hsome.1, hsome.2.1, ?_⟩
      rw [hunread, hsome.2.2, List.append_assoc]
      rfl

theorem Reads.map {α β : Type} {r : RespReader} {bytes : Bytes} {a : α}
    {outcome : RespReader × Option α} (h : Reads r bytes capped a outcome) (f : α → β) :
    Reads r bytes capped (f a) (RespReader.andThen outcome fun a r => (r, some (f a))) := by
  have hboth : Reads r (bytes ++ []) capped (f a)
      (RespReader.andThen outcome fun a r => (r, some (f a))) :=
    h.andThen fun r' hr' _ => reads_nothing hr' (f a)
  rw [List.append_nil] at hboth
  exact hboth

theorem reads_line {r : RespReader} (hr : r.InBuffer) {line more tail : Bytes}
    (hline : ¬ crlf <:+: line) (hstream : r.unread ++ more = line ++ crlf ++ tail) :
    Reads r (line ++ crlf) capped line r.readLine := by
  cases hfind : find crlf r.unread with
  | none =>
    refine Or.inl ⟨readLine_none hr hfind, fun hstarts => ?_⟩
    exact absurd ((List.suffix_append line crlf).isInfix.trans hstarts.isInfix)
      (find_eq_none_iff.mp hfind)
  | some stop =>
    have hend : stop = line.length := by
      have hwhole := find_append_right hfind more
      rw [hstream, List.append_assoc, find_of_clear (clear_line hline tail)] at hwhole
      exact (Option.some.inj hwhole).symm
    obtain ⟨r', hread, hin, hunread⟩ := readLine_some hr hfind
    have hbound := find_bound hfind
    have hcrlf : crlf.length = 2 := rfl
    obtain ⟨rest, hrest⟩ : line ++ crlf <+: r.unread := by
      have hhead : line ++ crlf <+: r.unread ++ more := ⟨tail, hstream.symm⟩
      apply List.prefix_of_prefix_length_le hhead (List.prefix_append _ _)
      rw [List.length_append]
      omega
    rw [hread]
    refine Or.inr ⟨?_, hin, ?_⟩
    · rw [hend, ← hrest, List.append_assoc, List.take_left]
    · have hlength : stop + 2 = (line ++ crlf).length := by
        rw [List.length_append]
        omega
      rw [hunread, hlength, ← hrest, List.drop_left]

theorem reads_exact {r : RespReader} (hr : r.InBuffer) {payload more tail : Bytes}
    (hstream : r.unread ++ more = payload ++ tail) :
    Reads r payload capped payload (r.readExact payload.length) := by
  by_cases hlong : payload.length ≤ r.unread.length
  · obtain ⟨r', hread, hin, hunread⟩ := readExact_some hr hlong
    obtain ⟨rest, hrest⟩ : payload <+: r.unread :=
      List.prefix_of_prefix_length_le ⟨tail, hstream.symm⟩ (List.prefix_append _ more) hlong
    rw [hread]
    refine Or.inr ⟨?_, hin, ?_⟩
    · rw [← hrest, List.take_left]
    · rw [hunread, ← hrest, List.drop_left]
  · refine Or.inl ⟨readExact_none hr (Nat.lt_of_not_le hlong), fun hstarts => ?_⟩
    exact absurd hstarts.length_le hlong

/-- What is left of the stream after its first part. -/
theorem stream_rest {r r' : RespReader} {first second more tail : Bytes}
    (hstream : r.unread ++ more = first ++ second ++ tail)
    (hunread : r.unread = first ++ r'.unread) : r'.unread ++ more = second ++ tail := by
  rw [hunread, List.append_assoc, List.append_assoc] at hstream
  exact List.append_cancel_left hstream

/-- A reply of a line and a body. -/
theorem reads_reply {r : RespReader} (hr : r.InBuffer) {depth : Nat} {line body more tail : Bytes}
    {reply : RespReply} (hline : ¬ crlf <:+: line)
    (hstream : r.unread ++ more = line ++ crlf ++ body ++ tail)
    (hbody : ∀ r' : RespReader, r'.InBuffer → r'.unread ++ more = body ++ tail →
      Reads r' body capped reply (readBody (readReplyWithin depth) line r')) :
    Reads r (line ++ crlf ++ body) capped reply (readReplyWithin (depth + 1) r) := by
  have hlineStream : r.unread ++ more = line ++ crlf ++ (body ++ tail) := by
    rw [hstream, List.append_assoc]
  apply (reads_line hr hline hlineStream).andThen
  intro r' hr' hunread
  exact hbody r' hr' (stream_rest hstream hunread)

/-- A reply before others. -/
theorem reads_cons {r : RespReader} {read : RespReader → RespReader × Option RespReply}
    {reply : RespReply} {replies : List RespReply} {first rest more tail : Bytes}
    (hstream : r.unread ++ more = first ++ rest ++ tail)
    (hfirst : Reads r first capped reply (read r))
    (hrest : ∀ r' : RespReader, r'.InBuffer → r'.unread ++ more = rest ++ tail →
      Reads r' rest capped replies (readElements read replies.length r')) :
    Reads r (first ++ rest) capped (reply :: replies)
      (readElements read (reply :: replies).length r) := by
  apply hfirst.andThen
  intro r' hr' hunread
  exact (hrest r' hr' (stream_rest hstream hunread)).map (reply :: ·)

/-- A reply that is a line. -/
theorem reads_line_reply {r : RespReader} (hr : r.InBuffer) {depth : Nat} (hdepth : 0 < depth)
    {line more tail : Bytes} {reply : RespReply} (hline : ¬ crlf <:+: line)
    (hstream : r.unread ++ more = line ++ crlf ++ tail)
    (hbody : ∀ element r', readBody element line r' = (r', some reply)) :
    Reads r (line ++ crlf) capped reply (readReplyWithin depth r) := by
  obtain ⟨depth, rfl⟩ : ∃ d, depth = d + 1 := ⟨depth - 1, by omega⟩
  rw [← List.append_nil (line ++ crlf)] at hstream ⊢
  apply reads_reply hr hline hstream
  intro r' hr' _
  rw [hbody]
  exact reads_nothing hr' reply

/-- A reply that is a line, before others. -/
theorem reads_line_cons {r : RespReader} (hr : r.InBuffer) {depth : Nat} (hdepth : 0 < depth)
    {line rest more tail : Bytes} {reply : RespReply} {replies : List RespReply}
    (hline : ¬ crlf <:+: line) (hstream : r.unread ++ more = line ++ crlf ++ rest ++ tail)
    (hbody : ∀ element r', readBody element line r' = (r', some reply))
    (hrest : ∀ r' : RespReader, r'.InBuffer → r'.unread ++ more = rest ++ tail →
      Reads r' rest capped replies (readElements (readReplyWithin depth) replies.length r')) :
    Reads r (line ++ crlf ++ rest) capped (reply :: replies)
      (readElements (readReplyWithin depth) (reply :: replies).length r) := by
  apply reads_cons hstream _ hrest
  rw [List.append_assoc] at hstream
  exact reads_line_reply hr hdepth hline hstream hbody

/-- The body of a bulk string, which is refused over the cap. -/
theorem reads_string {r : RespReader} (hr : r.InBuffer) {text payload more tail : Bytes}
    (hnumeral : Numeral text payload.length)
    (hstream : r.unread ++ more = payload ++ crlf ++ tail)
    (hcap : capped → payload.length ≤ kMaxBulkSize)
    (element : RespReader → RespReader × Option RespReply) :
    Reads r (payload ++ crlf) capped (.string payload) (readBody element (36 :: text) r) := by
  have hvalue := strtoll_numeral hnumeral
  have hmax : kMaxBulkSize = 67108864 := rfl
  have hnot : ¬ strtoll text < 0 := by
    rw [hvalue]
    omega
  by_cases hlarge : kMaxBulkSize < payload.length
  · have hover : kMaxBulkSize < (strtoll text).toNat := by
      rw [hvalue]
      omega
    refine Or.inl ⟨?_, fun _ hcapped => absurd (hcap hcapped) (Nat.not_le.mpr hlarge)⟩
    simp [readBody, hnot, hover]
  · have hlength : strtoll text = payload.length := by
      rw [hvalue]
      omega
    have hsize : payload.length + 2 = (payload ++ crlf).length := by
      rw [List.length_append]
      rfl
    have hread : readBody element (36 :: text) r =
        RespReader.andThen (r.readExact (payload ++ crlf).length) fun bytes r =>
          (r, some (.string (bytes.take payload.length))) := by
      rw [← hsize]
      simp [readBody, hlength, hlarge]
    have hexact : Reads r (payload ++ crlf) capped _ _ := reads_exact hr hstream
    have hmap := hexact.map fun bytes => RespReply.string (bytes.take payload.length)
    rw [List.take_left] at hmap
    rw [hread]
    exact hmap

/-- Reading a sequence of replies from a stream that starts like it. -/
theorem reads_serialised {Fits : Nat → Prop} {replies : List RespReply} {bytes : Bytes}
    (h : Serialises Fits replies bytes) {depth : Nat} (hdepth : bytes.length < depth)
    {r : RespReader} (hr : r.InBuffer) {more tail : Bytes}
    (hstream : r.unread ++ more = bytes ++ tail) :
    Reads r bytes (∀ n, Fits n → n ≤ kMaxBulkSize) replies
      (readElements (readReplyWithin depth) replies.length r) := by
  induction h generalizing depth r tail with
  | done => exact reads_nothing hr []
  | status hline _ ih =>
    simp only [List.length_append, List.length_cons] at hdepth
    apply reads_line_cons hr (by omega) (not_infix_crlf_cons (by decide) hline) hstream
    · exact fun element r' => rfl
    · exact fun r' hr' hrest => ih (by omega) hr' hrest
  | error hline _ ih =>
    simp only [List.length_append, List.length_cons] at hdepth
    apply reads_line_cons hr (by omega) (not_infix_crlf_cons (by decide) hline) hstream
    · exact fun element r' => rfl
    · exact fun r' hr' hrest => ih (by omega) hr' hrest
  | integer hnumeral hlow hhigh _ ih =>
    simp only [List.length_append, List.length_cons] at hdepth
    apply reads_line_cons hr (by omega)
      (not_infix_crlf_cons (by decide) (numeral_no_crlf hnumeral)) hstream
    · intro element r'
      have hvalue := strtoll_numeral hnumeral
      rw [min_eq_left (by omega), max_eq_right hlow] at hvalue
      simp [readBody, hvalue]
    · exact fun r' hr' hrest => ih (by omega) hr' hrest
  | nilString _ ih =>
    simp only [List.length_append, List.length_cons] at hdepth
    apply reads_line_cons hr (by omega) (not_infix_crlf (by decide)) hstream
    · exact fun element r' => rfl
    · exact fun r' hr' hrest => ih (by omega) hr' hrest
  | nilArray _ ih =>
    simp only [List.length_append, List.length_cons] at hdepth
    apply reads_line_cons hr (by omega) (not_infix_crlf (by decide)) hstream
    · exact fun element r' => rfl
    · exact fun r' hr' hrest => ih (by omega) hr' hrest
  | @string text payload replies rest hnumeral hfits _ ih =>
    simp only [List.length_append, List.length_cons] at hdepth
    obtain ⟨depth, rfl⟩ : ∃ d, depth = d + 1 := ⟨depth - 1, by omega⟩
    apply reads_cons hstream
    · rw [List.append_assoc _ rest tail] at hstream
      apply reads_reply hr (not_infix_crlf_cons (by decide) (numeral_no_crlf hnumeral)) hstream
      intro r' hr' hbody
      exact reads_string hr' hnumeral hbody (fun hcapped => hcapped _ hfits) _
    · exact fun r' hr' hrest => ih (by omega) hr' hrest
  | @array text elements inner replies rest hnumeral hcount _ _ ihElements ih =>
    simp only [List.length_append, List.length_cons] at hdepth
    obtain ⟨depth, rfl⟩ : ∃ d, depth = d + 1 := ⟨depth - 1, by omega⟩
    apply reads_cons hstream
    · rw [List.append_assoc _ rest tail] at hstream
      apply reads_reply hr (not_infix_crlf_cons (by decide) (numeral_no_crlf hnumeral)) hstream
      intro r' hr' hbody
      have hlength : strtoll text = elements.length := by
        rw [strtoll_numeral hnumeral]
        omega
      have hread : readBody (readReplyWithin depth) (42 :: text) r' =
          RespReader.andThen (readElements (readReplyWithin depth) elements.length r')
            fun elements r => (r, some (.array elements)) := by
        simp [readBody, hlength]
      rw [hread]
      exact (ihElements (by omega) hr' hbody).map RespReply.array
    · exact fun r' hr' hrest => ih (by omega) hr' hrest

/-- Replies that follow each other, read one after the other. -/
theorem readElements_readReply {depth : Nat} {r : RespReader} (hr : r.InBuffer)
    (h : r.unread.length < depth) (count : Nat) :
    readElements readReply count r = readElements (readReplyWithin depth) count r := by
  symm
  apply readElements_congr (readReplyWithin_orderly depth) _ count hr (Nat.le_refl _)
  intro r' hr' hn
  exact (readReply_eq hr' (by omega)).symm

end RespReader

/-- A command is an array of its arguments. -/
theorem serialises_command {Fits : Nat → Prop} {args : List Bytes} (hcount : args.length < 2 ^ 63)
    (hfits : ∀ arg ∈ args, Fits arg.length) {replies : List RespReply} {rest : Bytes}
    (hrest : Serialises Fits replies rest) :
    Serialises Fits (.array (args.map .string) :: replies) (encodeRespCommand args ++ rest) := by
  have hargs : Serialises Fits (args.map .string)
      (args.flatMap fun arg => ascii "$" ++ decimal arg.length ++ crlf ++ arg ++ crlf) := by
    clear hcount
    induction args with
    | nil => exact .done
    | cons arg args ih =>
      have htail := ih fun other h => hfits other (List.mem_cons_of_mem _ h)
      have hall := Serialises.string (numeral_decimal arg.length) (hfits arg List.mem_cons_self) htail
      simpa [ascii] using hall
  have hnumeral : Numeral (decimal args.length) (args.map RespReply.string).length := by
    rw [List.length_map]
    exact numeral_decimal _
  have hall := Serialises.array hnumeral (by rw [List.length_map]; exact hcount) hargs hrest
  simpa [encodeRespCommand, ascii] using hall

namespace RespReader

theorem readElements_one {read : RespReader → RespReader × Option RespReply} {r r' : RespReader}
    {reply : RespReply} (h : readElements read 1 r = (r', some [reply])) :
    read r = (r', some reply) := by
  unfold readElements readElements at h
  generalize read r = outcome at h
  obtain ⟨r₁, o₁⟩ := outcome
  cases o₁ with
  | none => cases h
  | some first =>
    cases h
    rfl

/-- Whatever the buffer holds and however the rest is cut, a sequence of well-formed replies is
read as what it is, and so is a command; the cursor ends where they end. -/
theorem replies_read_exactly (r : RespReader) (hr : r.InBuffer) :
    (∀ replies bytes rest, Serialises (· ≤ kMaxBulkSize) replies bytes →
      r.unread = bytes ++ rest →
      ∃ r', readElements readReply replies.length r = (r', some replies) ∧ r'.InBuffer ∧
        r'.unread = rest) ∧
    ∀ args rest, args.length < 2 ^ 63 → (∀ arg ∈ args, arg.length ≤ kMaxBulkSize) →
      r.unread = encodeRespCommand args ++ rest →
      ∃ r', r.readReply = (r', some (.array (args.map .string))) ∧ r'.InBuffer ∧
        r'.unread = rest := by
  have hexact : ∀ replies bytes rest, Serialises (· ≤ kMaxBulkSize) replies bytes →
      r.unread = bytes ++ rest →
      ∃ r', readElements readReply replies.length r = (r', some replies) ∧ r'.InBuffer ∧
        r'.unread = rest := by
    intro replies bytes rest hserialises hstream
    have hlength : bytes.length ≤ r.unread.length := by
      rw [hstream, List.length_append]
      omega
    have hreads := reads_serialised hserialises (Nat.lt_succ_of_le hlength) hr
      ((List.append_nil _).trans hstream)
    rw [readElements_readReply hr (Nat.lt_succ_self _)]
    cases hreads with
    | inl hnone => exact absurd (fun _ h => h) (hnone.2 ⟨rest, hstream.symm⟩)
    | inr hsome =>
      obtain ⟨hreplies, hin, hunread⟩ := hsome
      refine ⟨_, Prod.ext rfl hreplies, hin, ?_⟩
      exact List.append_cancel_left (hunread.symm.trans hstream)
  refine ⟨hexact, fun args rest hcount hfits hstream => ?_⟩
  have hcommand : Serialises (· ≤ kMaxBulkSize) [.array (args.map .string)]
      (encodeRespCommand args ++ []) := serialises_command hcount hfits .done
  rw [List.append_nil] at hcommand
  obtain ⟨r', hread, hin, hunread⟩ := hexact _ _ rest hcommand hstream
  exact ⟨r', readElements_one hread, hin, hunread⟩

/-- Two replies that look like others inside, cut in the middle of a line end. -/
def cutReplies : RespReader :=
  { incoming := [.got ⟨ascii "*2\r\n$6\r\na\r", by decide⟩, .interrupted,
      .got ⟨ascii "\n+b\r\r\n$-1\r", by decide⟩, .got ⟨ascii "\n+OK\r\n", by decide⟩] }

def cutCommand : RespReader :=
  { incoming := [.got ⟨ascii "*2\r\n$3\r\nGE", by decide⟩,
      .got ⟨ascii "T\r\n$1\r\nk\r\n", by decide⟩] }

theorem replies_read_exactly_cut :
    (∃ r', readElements readReply 2 cutReplies =
        (r', some [.array [.string (ascii "a\r\n+b\r"), .nil], .status (ascii "OK")]) ∧
        r'.InBuffer ∧ r'.unread = []) ∧
      ∃ r', cutCommand.readReply =
        (r', some (.array [.string (ascii "GET"), .string (ascii "k")])) ∧
        r'.InBuffer ∧ r'.unread = [] := by
  have hfree : ¬ crlf <:+: ascii "OK" := by decide
  have hinner : Serialises (· ≤ kMaxBulkSize) [.string (ascii "a\r\n+b\r"), .nil] _ :=
    .string (numeral_decimal 6) (by decide) (.nilString .done)
  have hreplies : Serialises (· ≤ kMaxBulkSize)
      [.array [.string (ascii "a\r\n+b\r"), .nil], .status (ascii "OK")] _ :=
    .array (numeral_decimal 2) (by decide) hinner (.status hfree .done)
  constructor
  · exact (replies_read_exactly cutReplies (Nat.le_refl _)).1 _ _ [] hreplies (by decide +kernel)
  · apply (replies_read_exactly cutCommand (Nat.le_refl _)).2 [ascii "GET", ascii "k"] []
    · decide
    · decide
    · decide +kernel

end RespReader
end Morton.Cluster
