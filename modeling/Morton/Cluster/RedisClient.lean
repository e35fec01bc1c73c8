import Morton.Cluster.RespExact

/-! The Redis client with its pipeline and its socket: what `flush` sends, and what it returns
under any outcome of the system calls. The server executes commands as it receives them and
replies in order. -/
namespace Morton.Cluster
open Proto Text

/-- What Redis replies to a command in the state in which it executes it, and the bytes. -/
structure RedisServer (σ : Type) where
  answer : σ → List Bytes → RespReply
  bytes : σ → List Bytes → Bytes

/-- What the protocol says of Redis: the bytes are those of the reply. -/
def RedisServer.WellFormed {σ : Type} (server : RedisServer σ) : Prop :=
  ∀ s args, Serialises (fun _ => True) [server.answer s args] (server.bytes s args)

/-- What one `send` returns. -/
inductive SendResult
  | wrote (count : Nat)
  | interrupted
  | failed (error : Bytes)
  deriving DecidableEq

/-- What one `recv` returns: how many of the bytes that are there, or why none. -/
inductive RecvResult
  | got (count : Nat)
  | interrupted
  | failed (error : Bytes)
  deriving DecidableEq

/-- What happens in one attempt. The server executes the listed commands that it has received,
each in the state it is in then; other clients change that state in between. -/
structure Weather (σ : Type) where
  /-- Why `connect` fails, if it is called and does. -/
  refused : Option Bytes := none
  sends : List SendResult := []
  executes : List (σ × List Bytes) := []
  receives : List RecvResult := []

/-- An open socket: what the server has received and not executed, and what it has replied
and `recv` has not returned. -/
structure Connection where
  input : Bytes := []
  output : Bytes := []
  deriving DecidableEq

structure RedisClient where
  /-- `fd_` -/
  connection : Option Connection := none
  pipeline : Bytes := []
  queuedCount : Nat := 0
  /-- `buffer_`, `cursor_` and `last_error_` -/
  reader : RespReader := {}

/-- The server executes commands, of those that are whole at the start of its input. -/
def Connection.serve {σ : Type} (server : RedisServer σ) (link : Connection) :
    List (σ × List Bytes) → Connection × List (σ × List Bytes)
  | [] => (link, [])
  | (s, args) :: rest =>
    if (encodeRespCommand args).isPrefixOf link.input then
      let link : Connection :=
        { input := link.input.drop (encodeRespCommand args).length
          output := link.output ++ server.bytes s args }
      ((link.serve server rest).1, (s, args) :: (link.serve server rest).2)
    else link.serve server rest

/-- The chunks that `recv` returns, why it fails after them, and what it leaves. -/
def deliver (output : Bytes) : List RecvResult → List Recv × Bytes × Bytes
  | [] => ([], ascii "Resource temporarily unavailable", output)
  | .interrupted :: rest => (.interrupted :: (deliver output rest).1, (deliver output rest).2)
  | .failed error :: _ => ([], error, output)
  | .got count :: rest =>
    if h : output.take count ≠ [] then
      (.got ⟨output.take count, h⟩ :: (deliver (output.drop count) rest).1,
        (deliver (output.drop count) rest).2)
    else ([], ascii "connection closed", output)

def transportError (error : Bytes) : RespReply := .error (ascii "transport: " ++ error)

theorem encodeRespCommand_ne_nil (args : List Bytes) : encodeRespCommand args ≠ [] := by
  simp [encodeRespCommand, ascii]

/-- No command starts another one. -/
theorem encodeRespCommand_inj {args args' : List Bytes} {rest rest' : Bytes}
    (h : encodeRespCommand args ++ rest = encodeRespCommand args' ++ rest') :
    args = args' ∧ rest = rest' := by
  unfold encodeRespCommand at h
  simp only [List.append_assoc] at h
  obtain ⟨hcount, hargs⟩ := decimal_line_inj (List.append_cancel_left h)
  clear h
  induction args generalizing args' with
  | nil =>
    cases args' with
    | nil => exact ⟨rfl, hargs⟩
    | cons arg args' => cases hcount
  | cons arg args ih =>
    cases args' with
    | nil => cases hcount
    | cons arg' args' =>
      simp only [List.flatMap_cons, List.append_assoc] at hargs
      obtain ⟨hlength, hbulk⟩ := decimal_line_inj (List.append_cancel_left hargs)
      obtain ⟨hsame, hmore⟩ := List.append_inj hbulk hlength
      obtain ⟨hothers, hrest⟩ := ih (Nat.succ.inj hcount) (List.append_cancel_left hmore)
      exact ⟨by rw [hsame, hothers], hrest⟩

/-- What the server executed stood at the start of its input, and its replies are in its
output. -/
theorem Connection.serve_spec {σ : Type} (server : RedisServer σ) (link : Connection)
    (plan : List (σ × List Bytes)) :
    link.input = (link.serve server plan).2.flatMap (encodeRespCommand ·.2) ++
        (link.serve server plan).1.input ∧
      (link.serve server plan).1.output =
        link.output ++ (link.serve server plan).2.flatMap fun e => server.bytes e.1 e.2 := by
  induction plan generalizing link with
  | nil => exact ⟨rfl, (List.append_nil _).symm⟩
  | cons entry rest ih =>
    obtain ⟨s, args⟩ := entry
    rw [serve]
    split
    · rename_i hwhole
      obtain ⟨more, hmore⟩ := List.isPrefixOf_iff_prefix.mp hwhole
      dsimp only
      obtain ⟨hinput, houtput⟩ := ih
        { input := link.input.drop (encodeRespCommand args).length
          output := link.output ++ server.bytes s args }
      refine ⟨?_, ?_⟩
      · rw [List.flatMap_cons, List.append_assoc, ← hinput, ← hmore, List.drop_left]
      · rw [houtput, List.flatMap_cons, List.append_assoc]
    · exact ih link

/-- Nothing of the output is lost. -/
theorem deliver_spec (output : Bytes) (receives : List RecvResult) :
    RespReader.delivered (deliver output receives).1 ++ (deliver output receives).2.2 = output := by
  induction receives generalizing output with
  | nil => rfl
  | cons result rest ih =>
    cases result with
    | interrupted => exact ih output
    | failed error => rfl
    | got count =>
      rw [deliver]
      split
      · rw [RespReader.delivered, List.append_assoc, ih (output.drop count)]
        exact List.take_append_drop count output
      · rfl

namespace RedisClient
variable {σ : Type} (server : RedisServer σ)

/-- `send_all`: what was sent, and the error that stopped it. -/
def sendAll (data : Bytes) : List SendResult → Bytes × Option Bytes
  | [] => if data = [] then ([], none) else ([], some (ascii "Resource temporarily unavailable"))
  | result :: rest =>
    if data = [] then ([], none)
    else
      match result with
      | .interrupted => sendAll data rest
      | .failed error => ([], some error)
      | .wrote count =>
        if count = 0 then ([], some (ascii "connection closed"))
        else (data.take count ++ (sendAll (data.drop count) rest).1, (sendAll (data.drop count) rest).2)

def openSocket (c : RedisClient) (w : Weather σ) : RedisClient × Bool :=
  match w.refused with
  | some error => ({ c with connection := none, reader := c.reader.fail error }, false)
  | none => ({ c with connection := some {}, reader := { lastError := c.reader.lastError } }, true)

/-- `disconnect` -/
def disconnect (c : RedisClient) : RedisClient := { reader := { lastError := c.reader.lastError } }

/-- `connect` -/
def connect (c : RedisClient) (w : Weather σ) : RedisClient × Bool := c.disconnect.openSocket w

def queue (c : RedisClient) (args : List Bytes) : RedisClient :=
  { c with pipeline := c.pipeline ++ encodeRespCommand args, queuedCount := c.queuedCount + 1 }

/-- The end of an attempt that failed. -/
def close (c : RedisClient) (lastError : Bytes) : RedisClient :=
  { c with connection := none, reader := { lastError } }

/-- One attempt of `flush` on an open socket. With the client come the commands that were
executed, and the replies if all of them were read. -/
def attempt (c : RedisClient) (link : Connection) (w : Weather σ) (payload : Bytes)
    (expected : Nat) : RedisClient × List (σ × List Bytes) × Option (List RespReply) :=
  let (sent, error) := sendAll payload w.sends
  let (link, executed) := Connection.serve server { link with input := link.input ++ sent } w.executes
  match error with
  | some error => (c.close error, executed, none)
  | none =>
    let (incoming, ending, left) := deliver link.output w.receives
    match RespReader.readElements RespReader.readReply expected
      { c.reader with incoming, ending } with
    | (r, none) => (c.close r.lastError, executed, none)
    | (r, some replies) =>
      ({ c with
          connection := some { link with output := RespReader.delivered r.incoming ++ left }
          reader := { r with incoming := [] } },
        executed, some replies)

/-- An attempt opens the socket if it is closed. -/
def reopen (c : RedisClient) (w : Weather σ) : RedisClient :=
  if c.connection.isSome then c else (c.openSocket w).1

/-- The loop of `flush`, over what happens in each attempt. -/
def attempts (payload : Bytes) (expected : Nat) :
    List (Weather σ) → RedisClient → RedisClient × List (σ × List Bytes) × Option (List RespReply)
  | [], c => (c, [], none)
  | w :: rest, c =>
    let c := c.reopen w
    match c.connection with
    | none => (c, [], none)
    | some link =>
      match c.attempt server link w payload expected with
      | (c, executed, some replies) => (c, executed, some replies)
      | (c, executed, none) =>
        let later := attempts payload expected rest c
        (later.1, executed ++ later.2.1, later.2.2)

structure FlushResult (σ : Type) where
  client : RedisClient
  /-- What the server executed meanwhile. -/
  executed : List (σ × List Bytes) := []
  ok : Bool
  replies : List RespReply

def flush (c : RedisClient) (first second : Weather σ) : FlushResult σ :=
  if c.queuedCount = 0 then { client := c, ok := true, replies := [] }
  else
    match attempts server c.pipeline c.queuedCount [first, second]
        { c with pipeline := [], queuedCount := 0 } with
    | (client, executed, some replies) => { client, executed, ok := true, replies }
    | (client, executed, none) =>
      { client, executed, ok := false
        replies := List.replicate c.queuedCount (transportError client.reader.lastError) }

theorem sendAll_spec (data : Bytes) (sends : List SendResult) :
    (sendAll data sends).1 <+: data ∧
      ((sendAll data sends).2 = none → (sendAll data sends).1 = data) := by
  induction sends generalizing data with
  | nil =>
    unfold sendAll
    split
    · rename_i hdone
      exact ⟨List.nil_prefix, fun _ => hdone.symm⟩
    · exact ⟨List.nil_prefix, fun h => by cases h⟩
  | cons result rest ih =>
    unfold sendAll
    split
    · rename_i hdone
      exact ⟨List.nil_prefix, fun _ => hdone.symm⟩
    · cases result with
      | interrupted => exact ih data
      | failed error => exact ⟨List.nil_prefix, fun h => by cases h⟩
      | wrote count =>
        dsimp only
        split
        · exact ⟨List.nil_prefix, fun h => by cases h⟩
        · obtain ⟨hstarts, hall⟩ := ih (data.drop count)
          refine ⟨?_, fun h => ?_⟩
          · have hboth := (List.prefix_append_right_inj (data.take count)).mpr hstarts
            rw [List.take_append_drop] at hboth
            exact hboth
          · dsimp only at h ⊢
            rw [hall h, List.take_append_drop]

/-- Nothing is under way on the connection, if there is one. -/
def Quiet (c : RedisClient) : Prop :=
  ∀ link, c.connection = some link →
    link = {} ∧ c.reader.buffered = [] ∧ c.reader.InBuffer

/-- What is in the pipeline, and nothing under way. -/
structure InStep (c : RedisClient) (queued : List (List Bytes)) : Prop where
  pipeline : c.pipeline = queued.flatMap encodeRespCommand
  count : c.queuedCount = queued.length
  quiet : c.Quiet

/-- The replies are those to the executed commands. -/
def Answers (executed : List (σ × List Bytes)) (args : List Bytes) (reply : RespReply) : Prop :=
  ∃ s, (s, args) ∈ executed ∧ reply = server.answer s args

theorem serialises_append {Fits : Nat → Prop} {xs ys : List RespReply} {first second : Bytes}
    (h : Serialises Fits xs first) (h' : Serialises Fits ys second) :
    Serialises Fits (xs ++ ys) (first ++ second) := by
  induction h with
  | done => exact h'
  | status hline _ ih => simpa using Serialises.status hline ih
  | error hline _ ih => simpa using Serialises.error hline ih
  | integer hnumeral hlow hhigh _ ih => simpa using Serialises.integer hnumeral hlow hhigh ih
  | nilString _ ih => simpa using Serialises.nilString ih
  | nilArray _ ih => simpa using Serialises.nilArray ih
  | string hnumeral hfits _ ih => simpa using Serialises.string hnumeral hfits ih
  | array hnumeral hcount helements _ _ ih =>
    simpa using Serialises.array hnumeral hcount helements ih

section
variable {server} (hserver : server.WellFormed)
include hserver

theorem serialises_executed (executed : List (σ × List Bytes)) :
    Serialises (fun _ => True) (executed.map fun e => server.answer e.1 e.2)
      (executed.flatMap fun e => server.bytes e.1 e.2) := by
  induction executed with
  | nil => exact .done
  | cons e executed ih =>
    rw [List.map_cons, List.flatMap_cons]
    exact serialises_append (hserver e.1 e.2) ih

/-- A reader that finds some of the server's replies, and asks for as many or more, gets them
all or nothing; then there was nothing else to read. -/
theorem reads_executed {executed : List (σ × List Bytes)} {r : RespReader} (hr : r.InBuffer)
    {more : Bytes} (hstream : r.unread ++ more = executed.flatMap fun e => server.bytes e.1 e.2)
    {expected : Nat} (hexpected : executed.length ≤ expected) {r' : RespReader}
    {replies : List RespReply}
    (h : RespReader.readElements RespReader.readReply expected r = (r', some replies)) :
    expected = executed.length ∧ replies = (executed.map fun e => server.answer e.1 e.2) ∧
      r'.InBuffer ∧ r'.unread = [] ∧ more = [] := by
  have hserialises := serialises_executed hserver executed
  obtain ⟨others, rfl⟩ := Nat.exists_eq_add_of_le hexpected
  have hshort : r.unread.length ≤ (executed.flatMap fun e => server.bytes e.1 e.2).length := by
    rw [← hstream, List.length_append]
    omega
  have hreads := RespReader.reads_serialised hserialises (Nat.lt_succ_self _) hr
    (hstream.trans (List.append_nil _).symm)
  rw [RespReader.readElements_add, RespReader.readElements_readReply hr (Nat.lt_succ_of_le hshort)]
    at h
  rw [List.length_map] at hreads
  generalize RespReader.readElements (RespReader.readReplyWithin _) executed.length r = outcome
    at hreads h
  obtain ⟨r₁, o₁⟩ := outcome
  cases hreads with
  | inl hnone =>
    obtain ⟨hnone, -⟩ := hnone
    cases hnone
    cases h
  | inr hsome =>
    obtain ⟨hsome, hin, hunread⟩ := hsome
    cases hsome
    dsimp only at hin hunread
    have hlengths := congrArg List.length hstream
    rw [hunread, List.length_append, List.length_append] at hlengths
    have hnothing : r₁.unread = [] := List.length_eq_zero_iff.mp (by omega)
    have hmore : more = [] := List.length_eq_zero_iff.mp (by omega)
    cases others with
    | zero =>
      cases h
      exact ⟨rfl, List.append_nil _, hin, hnothing, hmore⟩
    | succ others =>
      have hnone : (RespReader.readElements RespReader.readReply (others + 1) r₁).2 = none :=
        RespReader.andThen_fails
          (RespReader.readReply_short hin (by rw [hnothing]; exact Nat.zero_lt_two))
      have hfails := congrArg Prod.snd h
      rw [RespReader.andThen, RespReader.andThen_fails hnone] at hfails
      cases hfails

/-- An attempt on a quiet connection: nothing, or the replies of the server to the commands that
were sent, and then nothing is under way. -/
theorem attempt_spec {c : RedisClient} (hquiet : c.Quiet) {link : Connection}
    (hlink : c.connection = some link) (w : Weather σ) (commands : List (List Bytes)) :
    let outcome := c.attempt server link w (commands.flatMap encodeRespCommand) commands.length
    outcome.1.Quiet ∧ outcome.1.pipeline = c.pipeline ∧
      outcome.1.queuedCount = c.queuedCount ∧
      (outcome.2.2 = none ∧ outcome.1.connection = none ∨
        outcome.2.1.map Prod.snd = commands ∧
          outcome.2.2 = some (outcome.2.1.map fun e => server.answer e.1 e.2)) := by
  obtain ⟨rfl, hbuffered, hin⟩ := hquiet link hlink
  have hclosed : ∀ error, (c.close error).Quiet := fun _ _ h => by cases h
  obtain ⟨hsent, hall⟩ := sendAll_spec (commands.flatMap encodeRespCommand) w.sends
  intro outcome
  have houtcome : outcome =
    c.attempt server {} w (commands.flatMap encodeRespCommand) commands.length := rfl
  clear_value outcome
  subst houtcome
  unfold attempt
  generalize sendAll (commands.flatMap encodeRespCommand) w.sends = sending at hsent hall
  obtain ⟨sent, error⟩ := sending
  obtain ⟨hinput, houtput⟩ := Connection.serve_spec server { input := [] ++ sent, output := [] }
    w.executes
  dsimp only at hsent hall hinput houtput ⊢
  generalize Connection.serve server { input := [] ++ sent, output := [] } w.executes = served
    at hinput houtput
  obtain ⟨after, executed⟩ := served
  dsimp only at hinput houtput ⊢
  cases error with
  | some error => exact ⟨hclosed error, rfl, rfl, Or.inl ⟨rfl, rfl⟩⟩
  | none =>
    have hstarts : executed.map Prod.snd <+: commands := by
      apply prefix_of_codes encodeRespCommand_ne_nil fun _ _ _ _ => encodeRespCommand_inj
      rw [List.flatMap_map, ← hall rfl]
      exact ⟨after.input, hinput.symm⟩
    have hfewer := hstarts.length_le
    rw [List.length_map] at hfewer
    have hdelivered := deliver_spec after.output w.receives
    generalize deliver after.output w.receives = delivery at hdelivered
    obtain ⟨incoming, ending, left⟩ := delivery
    dsimp only at hdelivered ⊢
    generalize hread : RespReader.readElements RespReader.readReply commands.length
      { c.reader with incoming, ending } = reading
    obtain ⟨r, o⟩ := reading
    cases o with
    | none => exact ⟨hclosed _, rfl, rfl, Or.inl ⟨rfl, rfl⟩⟩
    | some replies =>
      have hstream : RespReader.unread { c.reader with incoming, ending } ++ left =
          executed.flatMap fun e => server.bytes e.1 e.2 := by
        have hsame : RespReader.buffered { c.reader with incoming, ending } = [] := hbuffered
        rw [RespReader.unread, hsame, List.nil_append, hdelivered, houtput, List.nil_append]
      have hinAgain : RespReader.InBuffer { c.reader with incoming, ending } := hin
      obtain ⟨hcount, hreplies, hin', hunread, hleft⟩ :=
        reads_executed hserver hinAgain hstream hfewer hread
      have hcommands : executed.map Prod.snd = commands :=
        hstarts.eq_of_length (by rw [List.length_map]; exact hcount.symm)
      refine ⟨?_, rfl, rfl, Or.inr ⟨hcommands, by rw [hreplies]⟩⟩
      intro link' hlink'
      cases hlink'
      obtain ⟨hbuffered', hdelivered'⟩ := List.append_eq_nil_iff.mp hunread
      refine ⟨?_, hbuffered', hin'⟩
      have hrest : after.input = [] := by
        have hlengths := congrArg List.length hinput
        rw [List.nil_append, hall rfl, ← hcommands, List.flatMap_map, List.length_append]
          at hlengths
        exact List.length_eq_zero_iff.mp (by omega)
      rw [hrest, hdelivered', hleft]
      rfl

end

variable {server}

theorem Answers.mono {executed executed' : List (σ × List Bytes)}
    (h : ∀ e ∈ executed, e ∈ executed') {args : List Bytes} {reply : RespReply}
    (ha : Answers server executed args reply) : Answers server executed' args reply := by
  obtain ⟨s, hmem, hreply⟩ := ha
  exact ⟨s, h _ hmem, hreply⟩

theorem answers_executed (executed : List (σ × List Bytes)) :
    List.Forall₂ (Answers server executed) (executed.map Prod.snd)
      (executed.map fun e => server.answer e.1 e.2) := by
  rw [List.forall₂_map_left_iff, List.forall₂_map_right_iff, List.forall₂_same]
  exact fun e he => ⟨e.1, he, rfl⟩

theorem reopen_quiet {c : RedisClient} (hquiet : c.Quiet) (w : Weather σ) :
    (c.reopen w).Quiet ∧ (c.reopen w).pipeline = c.pipeline ∧
      (c.reopen w).queuedCount = c.queuedCount := by
  unfold reopen
  split
  · exact ⟨hquiet, rfl, rfl⟩
  · unfold openSocket
    split
    · exact ⟨fun _ h => (Option.some_ne_none _ h.symm).elim, rfl, rfl⟩
    · refine ⟨fun link h => ?_, rfl, rfl⟩
      cases h
      exact ⟨rfl, rfl, Nat.le_refl _⟩

section
variable (hserver : server.WellFormed)
include hserver

/-- However many attempts there are, the replies are those of the last one. -/
theorem attempts_spec (commands : List (List Bytes)) (weathers : List (Weather σ))
    {c : RedisClient} (hquiet : c.Quiet) :
    let outcome := attempts server (commands.flatMap encodeRespCommand) commands.length weathers c
    outcome.1.Quiet ∧ outcome.1.pipeline = c.pipeline ∧ outcome.1.queuedCount = c.queuedCount ∧
      ∀ replies, outcome.2.2 = some replies →
        List.Forall₂ (Answers server outcome.2.1) commands replies := by
  induction weathers generalizing c with
  | nil => exact ⟨hquiet, rfl, rfl, fun _ h => by cases h⟩
  | cons w rest ih =>
    obtain ⟨hopen, hpipeline, hcount⟩ := reopen_quiet hquiet w
    unfold attempts
    dsimp only
    cases hlink : (c.reopen w).connection with
    | none => exact ⟨hopen, hpipeline, hcount, fun _ h => by cases h⟩
    | some link =>
      have hattempt := attempt_spec hserver hopen hlink w commands
      dsimp only at hattempt ⊢
      generalize (c.reopen w).attempt server link w (commands.flatMap encodeRespCommand)
        commands.length = outcome at hattempt
      obtain ⟨c', executed, o⟩ := outcome
      obtain ⟨hquiet', hpipeline', hcount', hanswer⟩ := hattempt
      cases o with
      | some replies =>
        refine ⟨hquiet', hpipeline'.trans hpipeline, hcount'.trans hcount, ?_⟩
        intro found hfound
        cases hfound
        cases hanswer with
        | inl hnone => cases hnone.1
        | inr hsome =>
          obtain ⟨hcommands, hreplies⟩ := hsome
          rw [← hcommands, Option.some.inj hreplies]
          exact answers_executed executed
      | none =>
        obtain ⟨hlast, hpipe, hcnt, hreplies⟩ := ih hquiet'
        refine ⟨hlast, hpipe.trans (hpipeline'.trans hpipeline),
          hcnt.trans (hcount'.trans hcount), fun replies h => ?_⟩
        apply (hreplies replies h).imp
        exact fun args reply => Answers.mono fun e he => List.mem_append_right _ he

/-- What a caller of `flush` gets: the replies to the commands in the pipeline, or as many
errors. Either way the pipeline is empty after it. -/
theorem flush_spec {c : RedisClient} {queued : List (List Bytes)} (h : c.InStep queued)
    (first second : Weather σ) :
    (c.flush server first second).client.InStep [] ∧
      ((c.flush server first second).ok = true ∧
          List.Forall₂ (Answers server (c.flush server first second).executed) queued
            (c.flush server first second).replies ∨
        (c.flush server first second).ok = false ∧ ∃ error,
          (c.flush server first second).replies =
            List.replicate queued.length (transportError error)) := by
  obtain ⟨hpipeline, hcount, hquiet⟩ := h
  unfold flush
  split
  · rename_i hzero
    have hnil : queued = [] := List.length_eq_zero_iff.mp (by omega)
    subst hnil
    exact ⟨⟨hpipeline, hcount, hquiet⟩, Or.inl ⟨rfl, .nil⟩⟩
  · rw [hpipeline, hcount]
    have hcleared : Quiet { c with pipeline := [], queuedCount := 0 } := hquiet
    obtain ⟨hquiet', hpipe, hcnt, hreplies⟩ :=
      attempts_spec hserver queued [first, second] hcleared
    dsimp only at hquiet' hpipe hcnt hreplies
    generalize attempts server (queued.flatMap encodeRespCommand) queued.length [first, second]
      { c with pipeline := [], queuedCount := 0 } = outcome at hquiet' hpipe hcnt hreplies
    obtain ⟨c', executed, o⟩ := outcome
    cases o with
    | some replies => exact ⟨⟨hpipe, hcnt, hquiet'⟩, Or.inl ⟨rfl, hreplies replies rfl⟩⟩
    | none => exact ⟨⟨hpipe, hcnt, hquiet'⟩, Or.inr ⟨rfl, _, rfl⟩⟩

end

theorem queue_spec {c : RedisClient} {queued : List (List Bytes)} (h : c.InStep queued)
    (args : List Bytes) : (c.queue args).InStep (queued ++ [args]) where
  pipeline := by
    unfold queue
    rw [h.pipeline, List.flatMap_append, List.flatMap_singleton]
  count := by
    unfold queue
    rw [h.count, List.length_append, List.length_singleton]
  quiet := h.quiet

theorem connect_spec (c : RedisClient) (w : Weather σ) : (c.connect w).1.InStep [] := by
  unfold connect openSocket
  split
  · exact ⟨rfl, rfl, fun _ h => (Option.some_ne_none _ h.symm).elim⟩
  · refine ⟨rfl, rfl, fun link h => ?_⟩
    cases h
    exact ⟨rfl, rfl, Nat.le_refl _⟩

theorem disconnect_spec (c : RedisClient) : c.disconnect.InStep [] :=
  ⟨rfl, rfl, fun _ h => (Option.some_ne_none _ h.symm).elim⟩

end RedisClient
end Morton.Cluster
