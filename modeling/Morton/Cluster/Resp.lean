import Morton.Base.Text
import Morton.Proto.Messages

/-! The Redis wire format, as the client writes commands and reads replies. Replies come in
chunks of any size into a buffer that is compacted between two of them. -/
namespace Morton.Cluster
open Proto Text

def kMaxBulkSize : Nat := 64 * 1024 * 1024

def kCompactThreshold : Nat := 2 ^ 16

/-- `encode_resp_command` -/
def encodeRespCommand (args : List Bytes) : Bytes :=
  ascii "*" ++ decimal args.length ++ crlf ++
    args.flatMap fun arg => ascii "$" ++ decimal arg.length ++ crlf ++ arg ++ crlf

/-- A `RedisReply`, with the members its type uses. -/
inductive RespReply
  | nil
  | status (str : Bytes)
  | error (str : Bytes)
  | integer (value : ℤ)
  | string (str : Bytes)
  | array (elements : List RespReply)

/-- What one `recv` returns until it fails. -/
inductive Recv
  | got (chunk : { bytes : Bytes // bytes ≠ [] })
  | interrupted
  deriving DecidableEq

/-- The reading side of a `RedisClient`, and what its socket has still to return. -/
structure RespReader where
  buffer : Bytes := []
  cursor : Nat := 0
  incoming : List Recv := []
  /-- Why `recv` fails after that. -/
  ending : Bytes := ascii "connection closed"
  lastError : Bytes := []
  deriving DecidableEq

namespace RespReader

def fail (r : RespReader) (error : Bytes) : RespReader := { r with lastError := error }

/-- `fill_buffer` once a chunk is there. -/
def append (r : RespReader) (chunk : Bytes) : RespReader :=
  if kCompactThreshold < r.cursor then
    { r with buffer := r.buffer.drop r.cursor ++ chunk, cursor := 0 }
  else { r with buffer := r.buffer ++ chunk }

/-- The loop of `read_line` and `read_exact`: `fill_buffer` until the buffer has enough. -/
def fillLoop (enough : RespReader → Option (Bytes × RespReader)) (r : RespReader) :
    List Recv → RespReader × Option Bytes
  | [] =>
    match enough r with
    | some (bytes, r) => ({ r with incoming := [] }, some bytes)
    | none => ({ r.fail r.ending with incoming := [] }, none)
  | event :: rest =>
    match enough r with
    | some (bytes, r) => ({ r with incoming := event :: rest }, some bytes)
    | none =>
      match event with
      | .interrupted => fillLoop enough r rest
      | .got chunk => fillLoop enough (r.append chunk) rest

/-- The bytes in the buffer that have not been read. -/
def buffered (r : RespReader) : Bytes := r.buffer.drop r.cursor

def lineReady (r : RespReader) : Option (Bytes × RespReader) :=
  (find crlf r.buffered).map fun stop =>
    (r.buffered.take stop, { r with cursor := r.cursor + stop + 2 })

def readLine (r : RespReader) : RespReader × Option Bytes := fillLoop lineReady r r.incoming

def exactReady (count : Nat) (r : RespReader) : Option (Bytes × RespReader) :=
  if r.buffer.length - r.cursor < count then none
  else some (r.buffered.take count, { r with cursor := r.cursor + count })

def readExact (count : Nat) (r : RespReader) : RespReader × Option Bytes :=
  fillLoop (exactReady count) r r.incoming

/-- Goes on with what was read, unless that failed. -/
def andThen {α β : Type} (outcome : RespReader × Option α)
    (next : α → RespReader → RespReader × Option β) : RespReader × Option β :=
  match outcome with
  | (r, none) => (r, none)
  | (r, some a) => next a r

/-- The loop of `read_reply` over the elements of an array. -/
def readElements (read : RespReader → RespReader × Option RespReply) :
    Nat → RespReader → RespReader × Option (List RespReply)
  | 0, r => (r, some [])
  | count + 1, r =>
    andThen (read r) fun reply r =>
      andThen (readElements read count r) fun replies r => (r, some (reply :: replies))

/-- `read_reply` after its line; `element` reads an element of an array. -/
def readBody (element : RespReader → RespReader × Option RespReply) (line : Bytes)
    (r : RespReader) : RespReader × Option RespReply :=
  match line with
  | [] => (r.fail (ascii "empty reply line"), none)
  | tag :: rest =>
    if tag = 43 then (r, some (.status rest))
    else if tag = 45 then (r, some (.error rest))
    else if tag = 58 then (r, some (.integer (strtoll rest)))
    else if tag = 36 then
      let length := strtoll rest
      if length < 0 then (r, some .nil)
      else if kMaxBulkSize < length.toNat then (r.fail (ascii "bulk reply exceeds cap"), none)
      else
        andThen (r.readExact (length.toNat + 2)) fun payload r =>
          (r, some (.string (payload.take length.toNat)))
    else if tag = 42 then
      let count := strtoll rest
      if count < 0 then (r, some .nil)
      else andThen (readElements element count.toNat r) fun elements r => (r, some (.array elements))
    else (r.fail (ascii "unknown reply tag '" ++ [tag] ++ ascii "'"), none)

/-- `read_reply` on arrays nested less deep than a bound. -/
def readReplyWithin : Nat → RespReader → RespReader × Option RespReply
  | 0, r => (r, none)
  | depth + 1, r => andThen r.readLine (readBody (readReplyWithin depth))

/-- The bytes of what `recv` returns. -/
def delivered : List Recv → Bytes
  | [] => []
  | .interrupted :: rest => delivered rest
  | .got chunk :: rest => chunk ++ delivered rest

/-- The bytes that can still be read. -/
def unread (r : RespReader) : Bytes := r.buffered ++ delivered r.incoming

/-- `read_reply`. An array takes more bytes than its elements, so this is deep enough. -/
def readReply (r : RespReader) : RespReader × Option RespReply :=
  readReplyWithin (r.unread.length + 1) r

/-- The cursor is in the buffer. -/
def InBuffer (r : RespReader) : Prop := r.cursor ≤ r.buffer.length

/-- What a loop picks from the buffer does not depend on what comes after it. -/
structure Picks (enough : RespReader → Option (Bytes × RespReader))
    (pick : Bytes → Option (Bytes × Bytes)) : Prop where
  none : ∀ r : RespReader, r.InBuffer → enough r = none → pick r.buffered = none
  some : ∀ (r : RespReader) bytes r', r.InBuffer → enough r = some (bytes, r') →
    r'.InBuffer ∧ ∀ more, pick (r.buffered ++ more) = some (bytes, r'.buffered ++ more)

theorem append_buffered {r : RespReader} (h : r.InBuffer) (chunk : Bytes) :
    (r.append chunk).InBuffer ∧ (r.append chunk).buffered = r.buffered ++ chunk := by
  unfold append
  split
  · exact ⟨Nat.zero_le _, rfl⟩
  · refine ⟨?_, ?_⟩
    · exact Nat.le_trans h (by rw [List.length_append]; exact Nat.le_add_right _ _)
    · exact List.drop_append_of_le_length h

theorem fillLoop_spec {enough : RespReader → Option (Bytes × RespReader)}
    {pick : Bytes → Option (Bytes × Bytes)} (hpicks : Picks enough pick) {r : RespReader}
    (hr : r.InBuffer) (incoming : List Recv) :
    match pick (r.buffered ++ delivered incoming) with
    | .none => (fillLoop enough r incoming).2 = .none
    | .some (bytes, rest) => ∃ r', fillLoop enough r incoming = (r', .some bytes) ∧
        r'.InBuffer ∧ r'.unread = rest := by
  induction incoming generalizing r with
  | nil =>
    unfold fillLoop
    cases henough : enough r with
    | none =>
      have hpick := hpicks.none r hr henough
      rw [delivered, List.append_nil, hpick]
    | some picked =>
      obtain ⟨hin, hpick⟩ := hpicks.some r picked.1 picked.2 hr henough
      rw [hpick]
      exact ⟨_, rfl, hin, rfl⟩
  | cons event rest ih =>
    unfold fillLoop
    cases henough : enough r with
    | some picked =>
      obtain ⟨hin, hpick⟩ := hpicks.some r picked.1 picked.2 hr henough
      rw [hpick]
      exact ⟨_, rfl, hin, rfl⟩
    | none =>
      cases event with
      | interrupted => exact ih hr
      | got chunk =>
        obtain ⟨hin, happend⟩ := append_buffered hr chunk
        rw [delivered, ← List.append_assoc, ← happend]
        exact ih hin

theorem lineReady_picks : Picks lineReady fun bytes =>
    (find crlf bytes).map fun stop => (bytes.take stop, bytes.drop (stop + 2)) where
  none r _ h := by
    unfold lineReady at h
    rw [Option.map_eq_none_iff] at h
    rw [h]
    rfl
  some r bytes r' hr h := by
    unfold lineReady at h
    obtain ⟨stop, hstop, heq⟩ := Option.map_eq_some_iff.mp h
    cases heq
    have hbound := find_bound hstop
    have hlength : r.buffered.length = r.buffer.length - r.cursor := List.length_drop
    have hcrlf : crlf.length = 2 := rfl
    refine ⟨?_, fun more => ?_⟩
    · have hcursor : r.cursor ≤ r.buffer.length := hr
      unfold InBuffer
      dsimp only
      omega
    · rw [find_append_right hstop, Option.map_some, List.take_append_of_le_length (by omega),
        List.drop_append_of_le_length (by omega)]
      simp only [buffered, List.drop_drop]
      rw [Nat.add_assoc]

theorem exactReady_picks (count : Nat) : Picks (exactReady count) fun bytes =>
    if bytes.length < count then none else some (bytes.take count, bytes.drop count) where
  none r _ h := by
    have hlength : r.buffered.length = r.buffer.length - r.cursor := List.length_drop
    unfold exactReady at h
    split at h
    · rename_i hshort
      exact if_pos (by omega)
    · cases h
  some r bytes r' hr h := by
    have hlength : r.buffered.length = r.buffer.length - r.cursor := List.length_drop
    unfold exactReady at h
    split at h
    · cases h
    · rename_i hlong
      cases h
      refine ⟨?_, fun more => ?_⟩
      · have hcursor : r.cursor ≤ r.buffer.length := hr
        unfold InBuffer
        dsimp only
        omega
      · rw [if_neg (by rw [List.length_append]; omega), List.take_append_of_le_length (by omega),
          List.drop_append_of_le_length (by omega)]
        simp only [buffered, List.drop_drop]

/-- A line is read from what `recv` still has to return, however it comes. -/
theorem readLine_some {r : RespReader} (hr : r.InBuffer) {stop : Nat}
    (h : find crlf r.unread = some stop) :
    ∃ r', r.readLine = (r', some (r.unread.take stop)) ∧ r'.InBuffer ∧
      r'.unread = r.unread.drop (stop + 2) := by
  have hspec := fillLoop_spec lineReady_picks hr r.incoming
  unfold unread at h ⊢
  rw [h] at hspec
  exact hspec

theorem readLine_none {r : RespReader} (hr : r.InBuffer) (h : find crlf r.unread = none) :
    r.readLine.2 = none := by
  have hspec := fillLoop_spec lineReady_picks hr r.incoming
  unfold unread at h
  rw [h] at hspec
  exact hspec

theorem readExact_some {r : RespReader} (hr : r.InBuffer) {count : Nat}
    (h : count ≤ r.unread.length) :
    ∃ r', r.readExact count = (r', some (r.unread.take count)) ∧ r'.InBuffer ∧
      r'.unread = r.unread.drop count := by
  have hspec := fillLoop_spec (exactReady_picks count) hr r.incoming
  unfold unread at h ⊢
  rw [if_neg (Nat.not_lt.mpr h)] at hspec
  exact hspec

theorem readExact_none {r : RespReader} (hr : r.InBuffer) {count : Nat}
    (h : r.unread.length < count) : (r.readExact count).2 = none := by
  have hspec := fillLoop_spec (exactReady_picks count) hr r.incoming
  unfold unread at h
  rw [if_pos h] at hspec
  exact hspec

/-- What was read left the cursor in the buffer, and no more unread bytes than `n`. -/
def Within {α : Type} (n : Nat) (outcome : RespReader × Option α) : Prop :=
  ∀ a, outcome.2 = some a → outcome.1.InBuffer ∧ outcome.1.unread.length ≤ n

theorem within_none {α : Type} (n : Nat) (r : RespReader) :
    Within n ((r, none) : RespReader × Option α) := fun _ h => by cases h

theorem within_some {α : Type} {n : Nat} {r : RespReader} (hr : r.InBuffer)
    (hn : r.unread.length ≤ n) (a : α) : Within n (r, some a) := fun _ _ => ⟨hr, hn⟩

theorem Within.andThen {α β : Type} {n : Nat} {outcome : RespReader × Option α}
    {next : α → RespReader → RespReader × Option β} (h : Within n outcome)
    (hnext : ∀ a (r : RespReader), r.InBuffer → r.unread.length ≤ n → Within n (next a r)) :
    Within n (andThen outcome next) := by
  obtain ⟨r, o⟩ := outcome
  cases o with
  | none => exact within_none n r
  | some a => exact hnext a r (h a rfl).1 (h a rfl).2

/-- Ways to go on that agree wherever the first part ends agree after it. -/
theorem andThen_congr {α β : Type} {n : Nat} {outcome : RespReader × Option α}
    {f g : α → RespReader → RespReader × Option β} (h : Within n outcome)
    (hsame : ∀ a (r : RespReader), r.InBuffer → r.unread.length ≤ n → f a r = g a r) :
    andThen outcome f = andThen outcome g := by
  obtain ⟨r, o⟩ := outcome
  cases o with
  | none => rfl
  | some a => exact hsame a r (h a rfl).1 (h a rfl).2

theorem andThen_none {α β : Type} {outcome : RespReader × Option α}
    {f g : α → RespReader → RespReader × Option β} (h : outcome.2 = none) :
    andThen outcome f = andThen outcome g := by
  obtain ⟨r, o⟩ := outcome
  cases h
  rfl

theorem andThen_fails {α β : Type} {outcome : RespReader × Option α}
    {next : α → RespReader → RespReader × Option β} (h : outcome.2 = none) :
    (andThen outcome next).2 = none := by
  obtain ⟨r, o⟩ := outcome
  cases h
  rfl

/-- A line is at least its end. -/
theorem readLine_within {r : RespReader} (hr : r.InBuffer) :
    Within (r.unread.length - 2) r.readLine := by
  cases hfind : find crlf r.unread with
  | none =>
    intro line h
    rw [readLine_none hr hfind] at h
    cases h
  | some stop =>
    obtain ⟨r', hread, hin, hunread⟩ := readLine_some hr hfind
    rw [hread]
    apply within_some hin
    rw [hunread, List.length_drop]
    omega

/-- Less than the end of a line is no line. -/
theorem readLine_short {r : RespReader} (hr : r.InBuffer) (h : r.unread.length < 2) :
    r.readLine.2 = none := by
  cases hfind : find crlf r.unread with
  | none => exact readLine_none hr hfind
  | some stop =>
    have hbound := find_bound hfind
    have hcrlf : crlf.length = 2 := rfl
    omega

theorem readExact_within {r : RespReader} (hr : r.InBuffer) (count : Nat) :
    Within r.unread.length (r.readExact count) := by
  by_cases hlong : count ≤ r.unread.length
  · obtain ⟨r', hread, hin, hunread⟩ := readExact_some hr hlong
    rw [hread]
    apply within_some hin
    rw [hunread, List.length_drop]
    omega
  · intro payload h
    rw [readExact_none hr (Nat.lt_of_not_le hlong)] at h
    cases h

/-- A way to read one reply that keeps the cursor in the buffer. -/
def Orderly (read : RespReader → RespReader × Option RespReply) : Prop :=
  ∀ (n : Nat) (r : RespReader), r.InBuffer → r.unread.length ≤ n → Within n (read r)

theorem Orderly.readElements {read : RespReader → RespReader × Option RespReply}
    (h : Orderly read) {n : Nat} (count : Nat) {r : RespReader} (hr : r.InBuffer)
    (hn : r.unread.length ≤ n) : Within n (readElements read count r) := by
  induction count generalizing r with
  | zero => exact within_some hr hn []
  | succ count ih =>
    apply (h n r hr hn).andThen
    intro reply r₁ hr₁ hn₁
    apply (ih hr₁ hn₁).andThen
    exact fun replies r₂ hr₂ hn₂ => within_some hr₂ hn₂ _

theorem Orderly.readBody {element : RespReader → RespReader × Option RespReply}
    (h : Orderly element) {n : Nat} {r : RespReader} (hr : r.InBuffer) (hn : r.unread.length ≤ n)
    (line : Bytes) : Within n (readBody element line r) := by
  unfold RespReader.readBody
  cases line with
  | nil => exact within_none n _
  | cons tag rest =>
    dsimp only
    split_ifs with hstatus herror hinteger hbulk hnil hcap harray hnil
    · exact within_some hr hn _
    · exact within_some hr hn _
    · exact within_some hr hn _
    · exact within_some hr hn _
    · exact within_none n _
    · have hexact : Within n (r.readExact ((strtoll rest).toNat + 2)) := by
        intro payload hpayload
        obtain ⟨hin, hle⟩ := readExact_within hr _ payload hpayload
        exact ⟨hin, Nat.le_trans hle hn⟩
      exact hexact.andThen fun payload r₁ hr₁ hn₁ => within_some hr₁ hn₁ _
    · exact within_some hr hn _
    · apply (h.readElements _ hr hn).andThen
      exact fun elements r₁ hr₁ hn₁ => within_some hr₁ hn₁ _
    · exact within_none n _

theorem readReplyWithin_orderly (depth : Nat) : Orderly (readReplyWithin depth) := by
  induction depth with
  | zero => exact fun n r _ _ => within_none n r
  | succ depth ih =>
    intro n r hr hn
    have hline : Within n r.readLine := by
      intro line h
      obtain ⟨hin, hle⟩ := readLine_within hr line h
      exact ⟨hin, by omega⟩
    exact hline.andThen fun line r₁ hr₁ hn₁ => ih.readBody hr₁ hn₁ line

/-- Two ways to read an element that agree on short input read the same elements. -/
theorem readElements_congr {f g : RespReader → RespReader × Option RespReply} {n : Nat}
    (hf : Orderly f)
    (hsame : ∀ r : RespReader, r.InBuffer → r.unread.length ≤ n → f r = g r) (count : Nat)
    {r : RespReader} (hr : r.InBuffer) (hn : r.unread.length ≤ n) :
    readElements f count r = readElements g count r := by
  induction count generalizing r with
  | zero => rfl
  | succ count ih =>
    unfold readElements
    rw [← hsame r hr hn]
    apply andThen_congr (hf n r hr hn)
    intro reply r₁ hr₁ hn₁
    rw [ih hr₁ hn₁]

/-- The bound on the nesting does not matter once it exceeds the number of unread bytes. -/
theorem readReplyWithin_stable {depth depth' : Nat} {r : RespReader} (hr : r.InBuffer)
    (h : r.unread.length < depth) (h' : r.unread.length < depth') :
    readReplyWithin depth r = readReplyWithin depth' r := by
  induction depth generalizing depth' r with
  | zero => exact absurd h (Nat.not_lt_zero _)
  | succ depth ih =>
    cases depth' with
    | zero => exact absurd h' (Nat.not_lt_zero _)
    | succ depth' =>
      by_cases hshort : r.unread.length < 2
      · exact andThen_none (readLine_short hr hshort)
      · apply andThen_congr (readLine_within hr)
        intro line r₁ hr₁ hn₁
        have hsame : ∀ count, readElements (readReplyWithin depth) count r₁ =
            readElements (readReplyWithin depth') count r₁ := by
          intro count
          apply readElements_congr (readReplyWithin_orderly depth) _ count hr₁ hn₁
          intro r₂ hr₂ hn₂
          exact ih hr₂ (by omega) (by omega)
        cases line with
        | nil => rfl
        | cons tag rest =>
          dsimp only [readBody]
          rw [hsame]

theorem readReply_eq {depth : Nat} {r : RespReader} (hr : r.InBuffer)
    (h : r.unread.length < depth) : r.readReply = readReplyWithin depth r :=
  readReplyWithin_stable hr (Nat.lt_succ_self _) h

/-- Less than the end of a line is no reply. -/
theorem readReply_short {r : RespReader} (hr : r.InBuffer) (h : r.unread.length < 2) :
    r.readReply.2 = none := by
  unfold readReply readReplyWithin
  exact andThen_fails (readLine_short hr h)

/-- Some replies, and then the others. -/
theorem readElements_add (read : RespReader → RespReader × Option RespReply) (m n : Nat)
    (r : RespReader) :
    readElements read (m + n) r =
      andThen (readElements read m r) fun first r =>
        andThen (readElements read n r) fun rest r => (r, some (first ++ rest)) := by
  have hassoc : ∀ {α β γ : Type} (outcome : RespReader × Option α)
      (f : α → RespReader → RespReader × Option β) (g : β → RespReader → RespReader × Option γ),
      andThen (andThen outcome f) g = andThen outcome fun a r => andThen (f a r) g := by
    intro α β γ outcome f g
    obtain ⟨r', o⟩ := outcome
    cases o <;> rfl
  induction m generalizing r with
  | zero =>
    have hid : ∀ outcome : RespReader × Option (List RespReply),
        andThen outcome (fun rest r => (r, some ([] ++ rest))) = outcome := by
      intro outcome
      obtain ⟨r', o⟩ := outcome
      cases o <;> rfl
    rw [Nat.zero_add]
    exact (hid _).symm
  | succ m ih =>
    rw [Nat.succ_add, readElements, readElements]
    simp only [ih, hassoc]
    rfl

end RespReader
end Morton.Cluster
