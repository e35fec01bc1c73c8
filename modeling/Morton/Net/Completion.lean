import Morton.Net.Agreement

/-! The handshake completes. A request, the challenge, the response and the acceptance that
arrive are enough, whatever else happens to the servers between them, as long as the server
does not forget the attempt. -/
namespace Morton.Net
open Proto Bits

namespace ClientConnection

/-- What `send_connection_request` sends. -/
def request (c : ClientConnection) : List UInt8 :=
  writeDatagram kMaxDatagramSize .connectionRequest fun w =>
    (List.range kConnectionRequestPadding).foldl (fun w _ => w.writeU8 0)
      ((w.writeU64 c.clientSalt).writeBytes c.config.token)

/-- What `send_challenge_response` sends. -/
def response (c : ClientConnection) : List UInt8 :=
  writeDatagram 64 .challengeResponse fun w => w.writeU64 c.sessionSalt

/-- A request is read as it was written. -/
theorem requestOf_request {c : ClientConnection} (hsalt : c.clientSalt ≠ 0)
    (hsmall : c.clientSalt < 2 ^ 64) (htoken : c.config.token.length = kConnectTokenBytes) :
    requestOf c.request = some (c.clientSalt, c.config.token) := by
  have htakes := ((BitWriter.writeU64_takes c.clientSalt).comp
    (BitWriter.writeBytes_takes c.config.token)).comp
      (BitWriter.Takes.foldl (fun _ => BitWriter.writeU8_takes 0)
        (List.range kConnectionRequestPadding))
  have hpadding : ((List.range kConnectionRequestPadding).flatMap fun _ => toBits 8 0).length =
      8 * kConnectionRequestPadding := by
    rw [List.length_flatMap]
    simp [Nat.mul_comm]
  have hlength : ((toBits 64 c.clientSalt ++ bytesBits c.config.token) ++
      (List.range kConnectionRequestPadding).flatMap fun _ => toBits 8 0).length = 8320 := by
    rw [List.length_append, List.length_append, hpadding, toBits_length, bytesBits_length, htoken]
    rfl
  have hroom : 8320 ≤ 8 * (kMaxDatagramSize - 5) := by decide
  have htype : readHeader c.request = some .connectionRequest :=
    readHeader_written (by decide) (by decide) _ htakes (hlength ▸ hroom) (by rw [hlength])
  have hsize := body_length (by decide) (by decide) .connectionRequest htakes (hlength ▸ hroom)
    (by rw [hlength])
  have hahead := body_ahead (by decide) (by decide) .connectionRequest htakes (hlength ▸ hroom)
  rw [List.append_assoc] at hahead
  obtain ⟨r, hfirst, hnext, -⟩ := hahead.readU64 hsmall
  obtain ⟨r', hsecond, hrest, -⟩ := hnext.readBytes
  rw [hlength] at hsize
  rw [htoken] at hsecond
  have hlong : 8 + kConnectTokenBytes + kConnectionRequestPadding ≤
      (c.request.drop kHeaderBytes).length := by
    have hneed : 8 * (8 + kConnectTokenBytes + kConnectionRequestPadding) = 8320 := by decide
    rw [request]
    omega
  have hsaltRead : readSalt (c.request.drop kHeaderBytes) = (c.clientSalt, r) := hfirst
  unfold requestOf
  dsimp only
  rw [hsaltRead]
  dsimp only
  rw [hsecond]
  exact if_pos ⟨htype, hlong, hrest.clean, hsalt⟩

/-- A response is read as it was written. -/
theorem responseOf_response {c : ClientConnection} (hsmall : c.sessionSalt < 2 ^ 64) :
    responseOf c.response = some c.sessionSalt := by
  have htakes := BitWriter.writeU64_takes c.sessionSalt
  have htype : readHeader c.response = some .challengeResponse :=
    readHeader_written (by decide) (by decide) _ htakes (by simp) (by simp)
  have hahead := body_ahead (show 64 < 2 ^ 28 by decide) (by decide) .challengeResponse htakes
    (by simp)
  rw [← List.append_nil (toBits 64 c.sessionSalt)] at hahead
  obtain ⟨r, hfirst, hend, -⟩ := hahead.readU64 hsmall
  have hread : readSalt (c.response.drop kHeaderBytes) = (c.sessionSalt, r) := hfirst
  unfold responseOf
  rw [hread]
  exact if_pos ⟨htype, hend.clean⟩

/-- The client answers the challenge to its attempt. -/
theorem processDatagram_challenge {c : ClientConnection} (hstate : c.state = .sendingRequest)
    (hclient : c.clientSalt < 2 ^ 64) {serverSalt : Nat} (hserver : serverSalt < 2 ^ 64)
    (handlers : ClientHandlers) (now : Nat) :
    c.processDatagram handlers (writeChallenge c.clientSalt serverSalt) now =
      sendChallengeResponse { c with serverSalt, state := .sendingResponse, lastReceiveUs := now }
        now := by
  have htakes := (BitWriter.writeU64_takes c.clientSalt).comp (BitWriter.writeU64_takes serverSalt)
  have htype : readHeader (writeChallenge c.clientSalt serverSalt) = some .challenge :=
    readHeader_written (by decide) (by decide) _ htakes (by simp) (by simp)
  have hahead := body_ahead (show 64 < 2 ^ 28 by decide) (by decide) .challenge htakes (by simp)
  obtain ⟨r, hfirst, hnext, -⟩ := hahead.readU64 hclient
  rw [← List.append_nil (toBits 64 serverSalt)] at hnext
  obtain ⟨r', hsecond, hend, -⟩ := hnext.readU64 hserver
  have hread : readSalt ((writeChallenge c.clientSalt serverSalt).drop kHeaderBytes) =
      (c.clientSalt, r) := hfirst
  unfold processDatagram
  dsimp only
  rw [htype]
  dsimp only
  unfold handleChallenge
  rw [hread]
  dsimp only
  rw [hsecond]
  dsimp only
  rw [if_neg (by simp [hend.clean]), if_neg (by simp [hstate])]

/-- An acceptance on the terms of the attempt opens the session. -/
theorem processDatagram_accepted {c : ClientConnection} (hstate : c.state = .sendingResponse)
    (hsalt : c.sessionSalt < 2 ^ 64) (handlers : ClientHandlers) (clientId entity now : Nat) :
    c.processDatagram handlers (writeAccepted c.sessionSalt clientId entity) now =
      { c with
        state := .connected, clientId := clientId % 2 ^ 32, entity := entity % 2 ^ 32
        lastReceiveUs := now } := by
  have htakes := ((BitWriter.writeU64_takes c.sessionSalt).comp
    (BitWriter.writeU32_takes clientId)).comp (BitWriter.writeU32_takes entity)
  have htype : readHeader (writeAccepted c.sessionSalt clientId entity) = some .connectionAccepted :=
    readHeader_written (by decide) (by decide) _ htakes (by simp) (by simp)
  obtain ⟨r, r', r'', hread, hclient, hentity, hclean⟩ :=
    accepted_fields c.sessionSalt clientId entity
  rw [Nat.mod_eq_of_lt hsalt] at hread
  unfold processDatagram
  dsimp only
  rw [htype]
  dsimp only
  unfold handleAccepted
  rw [hread]
  dsimp only
  rw [hclient]
  dsimp only
  rw [hentity]
  dsimp only
  rw [if_neg (by simp [hclean]), if_pos hstate]

end ClientConnection

namespace ConnectionServer

/-- The server has challenged this attempt and does not hold a connection of its address. -/
structure Awaits (me : Address) (clientSalt serverSalt : Nat) (s : ConnectionServer) : Prop where
  free : s.connections.lookup me = none
  pending : ∃ p, s.pending.lookup me = some p ∧ p.clientSalt = clientSalt ∧
    p.serverSalt = serverSalt

/-- Nothing else comes from this address but the request again, and the attempt is not old. -/
def Undisturbed (me : Address) (request : List UInt8) (s : ConnectionServer) : ServerAction → Prop
  | .datagram sender data _ _ => sender = me → data = request
  | .expirePending now =>
    ∀ p ∈ s.pending.lookup me, elapsed now p.startedUs ≤ kHandshakeTimeoutUs
  | _ => True

section Pending
variable {s : ConnectionServer}

theorem removeConnection_pending (s : ConnectionServer) (address : Address) :
    (s.removeConnection address).pending = s.pending := by
  unfold removeConnection
  split <;> rfl

theorem sendPayload_pending (s : ConnectionServer) (address : Address) (data : List UInt8)
    (now : Nat) : (s.sendPayload address data now).pending = s.pending := by
  unfold sendPayload
  split
  · rfl
  · split <;> rfl

theorem flushOne_pending (now : Nat) (s : ConnectionServer) (address : Address) :
    (flushOne now s address).pending = s.pending := by
  unfold flushOne
  split
  · rfl
  · dsimp only
    split
    · rw [sendPayload_pending]
    · rfl

theorem foldl_pending {α : Type} {f : ConnectionServer → α → ConnectionServer}
    (h : ∀ s x, (f s x).pending = s.pending) (xs : List α) (s : ConnectionServer) :
    (xs.foldl f s).pending = s.pending := by
  induction xs generalizing s with
  | nil => rfl
  | cons x xs ih => rw [List.foldl_cons, ih, h]

theorem disconnect_pending (s : ConnectionServer) (clientId : Nat) :
    (s.disconnect clientId).pending = s.pending := by
  unfold disconnect
  split
  · rfl
  · exact removeConnection_pending _ _

theorem queueReliable_pending (s : ConnectionServer) (address : Address) (channel : UInt8)
    (data : List UInt8) : (s.queueReliable address channel data).pending = s.pending := by
  unfold queueReliable
  split <;> rfl

theorem handlePayload_pending (s : ConnectionServer) (sender : Address) (body : List UInt8)
    (now : Nat) : (s.handlePayload sender body now).1.pending = s.pending := by
  unfold handlePayload
  split
  · rfl
  · dsimp only
    split
    · rfl
    · split <;> rfl

theorem handleDisconnect_pending (s : ConnectionServer) (sender : Address) (body : List UInt8) :
    (s.handleDisconnect sender body).pending = s.pending := by
  unfold handleDisconnect
  split
  · rfl
  · split
    · exact removeConnection_pending s sender
    · rfl

/-- The handshakes of others are kept apart. -/
theorem answerRequest_other {sender me : Address} (hne : sender ≠ me) (s : ConnectionServer)
    (clientSalt : Nat) (token : List UInt8) (now : Nat) :
    (s.answerRequest sender clientSalt token now).pending.lookup me = s.pending.lookup me := by
  unfold answerRequest
  split
  · rfl
  · split
    · rfl
    · dsimp only
      split
      · exact Finmap.lookup_insert_of_ne _ hne.symm
      · exact Finmap.lookup_insert_of_ne _ hne.symm

theorem handleConnectionRequest_other {sender me : Address} (hne : sender ≠ me)
    (s : ConnectionServer) (body : List UInt8) (now : Nat) :
    (s.handleConnectionRequest sender body now).pending.lookup me = s.pending.lookup me := by
  unfold handleConnectionRequest
  split
  · rfl
  · dsimp only
    split
    · rfl
    · exact answerRequest_other hne s _ _ now

theorem handleChallengeResponse_other {sender me : Address} (hne : sender ≠ me)
    (s : ConnectionServer) (body : List UInt8) (now : Nat) (owner : Admission) :
    (s.handleChallengeResponse sender body now owner).pending.lookup me = s.pending.lookup me := by
  have herase : (s.pending.erase sender).lookup me = s.pending.lookup me :=
    Finmap.lookup_erase_ne hne.symm
  unfold handleChallengeResponse
  dsimp only
  split
  · rfl
  · split
    · split <;> rfl
    · split
      · rfl
      · split
        · rfl
        · split
          · exact herase
          · split <;> exact herase

theorem receiveDatagram_other {sender me : Address} (hne : sender ≠ me) (s : ConnectionServer)
    (data : List UInt8) (now : Nat) (owner : Admission) :
    (s.receiveDatagram sender data now owner).pending.lookup me = s.pending.lookup me := by
  unfold receiveDatagram
  dsimp only
  split
  · exact handleConnectionRequest_other hne s _ now
  · exact handleChallengeResponse_other hne s _ now owner
  · rw [handlePayload_pending]
  · rw [handleDisconnect_pending]
  · rfl

end Pending

section Attempt
variable {me : Address} {clientSalt serverSalt : Nat} {s : ConnectionServer}

/-- A request from a free address is challenged if there is room. -/
theorem answerRequest_challenged (hfree : s.connections.lookup me = none)
    (hroom : s.connections.keys.card < s.config.maxConnections) (hdrawn : ∀ n, s.rng n < 2 ^ 64)
    (hpending : ∀ p ∈ s.pending.lookup me, p.serverSalt < 2 ^ 64) (clientSalt : Nat)
    (token : List UInt8) (now : Nat) :
    ∃ serverSalt, serverSalt < 2 ^ 64 ∧
      Awaits me clientSalt serverSalt (s.answerRequest me clientSalt token now) ∧
      (s.answerRequest me clientSalt token now).outbox =
        s.outbox ++ [(me, writeChallenge clientSalt serverSalt)] := by
  have hold : ((s.pending.lookup me).getD {}).serverSalt < 2 ^ 64 := by
    cases hp : s.pending.lookup me with
    | none => exact Nat.two_pow_pos 64
    | some p => exact hpending p hp
  unfold answerRequest
  rw [hfree]
  dsimp only
  rw [if_neg (Nat.not_le.mpr hroom)]
  generalize (s.pending.lookup me).getD {} = pending at hold ⊢
  by_cases hsalt : pending.clientSalt = clientSalt
  · subst hsalt
    simp only [ne_eq, not_true, if_false]
    exact ⟨pending.serverSalt, hold, ⟨hfree, _, Finmap.lookup_insert _, rfl, rfl⟩, rfl⟩
  · simp only [ne_eq, hsalt, not_false_iff, if_true]
    refine ⟨s.generateSalt.1, ?_, ⟨hfree, _, Finmap.lookup_insert _, rfl, rfl⟩, rfl⟩
    unfold generateSalt
    dsimp only
    split
    · decide
    · exact hdrawn _

/-- The request again changes nothing about the attempt. -/
theorem Awaits.answerRequest (h : Awaits me clientSalt serverSalt s) (token : List UInt8)
    (now : Nat) : Awaits me clientSalt serverSalt (s.answerRequest me clientSalt token now) := by
  obtain ⟨p, hp, hclient, hserver⟩ := h.pending
  unfold ConnectionServer.answerRequest
  rw [h.free, hp]
  dsimp only
  split
  · exact ⟨h.free, p, hp, hclient, hserver⟩
  · rw [Option.getD_some]
    simp only [ne_eq, hclient, not_true, if_false]
    exact ⟨h.free, _, Finmap.lookup_insert _, rfl, hserver⟩

theorem handleConnectionRequest_request {data token : List UInt8}
    (hrequest : requestOf data = some (clientSalt, token)) (now : Nat) (owner : Admission) :
    s.step (.datagram me data now owner) = s.answerRequest me clientSalt token now := by
  have htype := requestOf_type hrequest
  unfold step receiveDatagram
  dsimp only
  rw [htype]
  dsimp only
  rw [handleConnectionRequest_eq s me data now htype, hrequest]
  rfl

/-- What lies between keeps the attempt. -/
theorem Awaits.step (h : Awaits me clientSalt serverSalt s) {request token : List UInt8}
    (hrequest : requestOf request = some (clientSalt, token)) {action : ServerAction}
    (hquiet : Undisturbed me request s action) :
    Awaits me clientSalt serverSalt (s.step action) := by
  have hpending := h.pending
  have hkept : ∀ {s' : ConnectionServer}, s'.pending.lookup me = s.pending.lookup me →
      ∃ p, s'.pending.lookup me = some p ∧ p.clientSalt = clientSalt ∧ p.serverSalt = serverSalt :=
    fun heq => heq ▸ hpending
  -- only a response of the address itself gives it a connection
  have hfree : (∀ data now owner, action ≠ .datagram me data now owner) →
      (s.step action).connections.lookup me = none := by
    intro hother
    have hspec := step_spec s action
    generalize s.step action = s' at hspec
    rw [Option.eq_none_iff_forall_ne_some]
    intro c hc
    cases hspec with
    | tends htends =>
      obtain ⟨c', hc', -⟩ := htends.connections me c hc
      rw [h.free] at hc'
      cases hc'
    | full => exact absurd hc (by rw [sendDenied, send]; simp [h.free])
    | challenged => exact absurd hc (by rw [sendChallenge, send]; simp [h.free])
    | denied => exact absurd hc (by rw [sendDenied, send]; simp [h.free])
    | opened _ _ hresponse =>
      obtain ⟨data, now, owner, haction, -⟩ := hresponse
      simp only [openConnection, sendAccepted, send, Table.lookup_insert] at hc
      split at hc
      next heq => exact hother data now owner (heq ▸ haction)
      next => exact absurd hc (by simp [h.free])
  cases action with
  | datagram sender data now owner =>
    by_cases hme : sender = me
    · rw [hme, hquiet hme, handleConnectionRequest_request hrequest]
      exact h.answerRequest token now
    · exact ⟨hfree (by rintro data' now' owner' ⟨⟩; exact hme rfl),
        hkept (receiveDatagram_other hme s data now owner)⟩
  | expirePending now =>
    refine ⟨hfree (by simp), ?_⟩
    obtain ⟨p, hp, hsalts⟩ := hpending
    have hyoung := hquiet p hp
    refine ⟨p, ?_, hsalts⟩
    rw [ConnectionServer.step, expirePending, Table.lookup_sift, hp]
    simp [hyoung]
  | sendPayload address data now =>
    exact ⟨hfree (by simp), hkept (congrArg (Finmap.lookup me) (sendPayload_pending s _ _ _))⟩
  | flush now order =>
    exact ⟨hfree (by simp),
      hkept (congrArg (Finmap.lookup me) (foldl_pending (flushOne_pending now) order s))⟩
  | timeoutConnections now order =>
    exact ⟨hfree (by simp),
      hkept (congrArg (Finmap.lookup me) (foldl_pending removeConnection_pending _ s))⟩
  | disconnect clientId =>
    exact ⟨hfree (by simp), hkept (congrArg (Finmap.lookup me) (disconnect_pending s clientId))⟩
  | queueReliable address channel data =>
    exact ⟨hfree (by simp), hkept (congrArg (Finmap.lookup me) (queueReliable_pending s _ _ _))⟩

/-- What was sent stays sent. -/
theorem outbox_step (s : ConnectionServer) (action : ServerAction) :
    s.outbox <+: (s.step action).outbox := by
  have hspec := step_spec s action
  generalize s.step action = s' at hspec ⊢
  cases hspec with
  | tends htends =>
    obtain ⟨more, hmore, -⟩ := htends.outbox
    rw [hmore]
    exact List.prefix_append _ _
  | full => exact List.prefix_append _ _
  | challenged => exact List.prefix_append _ _
  | denied => exact List.prefix_append _ _
  | opened => exact List.prefix_append _ _

/-- The right response is let in, and the acceptance names the connection. -/
theorem Awaits.opens (h : Awaits me clientSalt serverSalt s) {data : List UInt8}
    (hresponse : responseOf data = some (clientSalt ^^^ serverSalt)) (now : Nat) {owner : Admission}
    (hadmits : (owner.decision.map AdmitDecision.admitted).getD true = true) :
    ∃ c, (s.step (.datagram me data now owner)).connections.lookup me = some c ∧
      c.salt = clientSalt ^^^ serverSalt ∧
      (s.step (.datagram me data now owner)).outbox =
        s.outbox ++ [(me, writeAccepted c.salt c.clientId c.entity)] := by
  obtain ⟨p, hp, hclient, hserver⟩ := h.pending
  obtain ⟨hread, htype, hclean⟩ : (readSalt (data.drop kHeaderBytes)).1 = clientSalt ^^^ serverSalt ∧
      readHeader data = some .challengeResponse ∧
      (readSalt (data.drop kHeaderBytes)).2.overflow = false := by
    unfold responseOf at hresponse
    dsimp only at hresponse
    split at hresponse
    next hok => exact ⟨Option.some.inj hresponse, hok⟩
    next => cases hresponse
  unfold ConnectionServer.step receiveDatagram
  dsimp only
  rw [htype]
  dsimp only
  unfold handleChallengeResponse
  dsimp only
  rw [if_neg (by simp [hclean]), h.free, hp]
  dsimp only
  rw [if_neg (by rw [hclient, hserver, hread]; simp)]
  generalize hdecision : owner.decision.getD { admitted := true, clientId := s.nextClientId } =
    decision
  have hyes : decision.admitted = true := by
    rw [← hdecision]
    cases hasked : owner.decision with
    | none => rfl
    | some given => simpa [hasked] using hadmits
  rw [if_neg (by simp [hyes])]
  split
  · exact ⟨_, Finmap.lookup_insert _, hread, rfl⟩
  · exact ⟨_, Finmap.lookup_insert _, hread, rfl⟩

end Attempt

end ConnectionServer

namespace ClientConnection

theorem elapsed_self (now : Nat) : elapsed now now = 0 := by
  unfold elapsed
  rw [Nat.add_sub_cancel_left]
  exact Nat.mod_self _

/-- A client that has just heard from its server goes on as it is. -/
theorem pace_fresh {c : ClientConnection} {now : Nat} (hheard : c.lastReceiveUs = now) :
    ∃ lastSendUs reliability outbox,
      c.pace now = { c with lastSendUs, reliability, outbox } := by
  unfold pace
  extract_lets updated idle sent
  have hsent : ∃ lastSendUs reliability outbox, sent = { c with lastSendUs, reliability, outbox } := by
    unfold sent
    split
    · split
      · exact ⟨_, _, _, rfl⟩
      · exact ⟨_, _, _, rfl⟩
    · split
      · exact ⟨_, _, _, rfl⟩
      · exact ⟨_, _, _, rfl⟩
    · split
      · unfold sendPayload
        split
        · exact ⟨_, _, _, rfl⟩
        · split
          · exact ⟨_, _, _, rfl⟩
          · exact ⟨_, _, _, rfl⟩
      · exact ⟨_, _, _, rfl⟩
    · exact ⟨_, _, _, rfl⟩
  obtain ⟨lastSendUs, reliability, outbox, heq⟩ := hsent
  have hyoung : ¬ sent.config.timeoutUs < elapsed now sent.lastReceiveUs := by
    rw [heq]
    dsimp only
    rw [hheard, elapsed_self]
    exact Nat.not_lt_zero _
  rw [if_neg hyoung]
  exact ⟨lastSendUs, reliability, outbox, heq⟩

end ClientConnection

namespace Parties

/-- The client asks `b`, which is not full and has no connection of the client's address. -/
structure Attempt (me b : Address) (s : Parties) : Prop where
  asking : s.client.state = .sendingRequest
  server : s.client.config.server = b
  salt : s.client.clientSalt ≠ 0 ∧ s.client.clientSalt < 2 ^ 64
  token : s.client.config.token.length = kConnectTokenBytes
  free : (s.servers b).connections.lookup me = none
  room : (s.servers b).connections.keys.card < (s.servers b).config.maxConnections
  drawn : ∀ n, (s.servers b).rng n < 2 ^ 64
  pending : ∀ p ∈ (s.servers b).pending.lookup me, p.serverSalt < 2 ^ 64

/-- Something happens to a server; the client is idle. -/
def Elsewhere (_ : Parties) : PartyAction → Prop
  | .server _ _ => True
  | _ => False

/-- Something happens to a server that does not disturb the attempt at `b`; the client is idle. -/
def Between (me b : Address) (request : List UInt8) (s : Parties) : PartyAction → Prop
  | .server address action =>
    address = b → ConnectionServer.Undisturbed me request (s.servers b) action
  | _ => False

section
variable {me b : Address} {s : Parties} {actions : List PartyAction}

theorem elsewhere_of_between {request : List UInt8}
    (h : Run.Along (step me) (Between me b request) s actions) :
    Run.Along (step me) Elsewhere s actions := by
  refine Run.along_mono (fun s action haction => ?_) h
  cases action with
  | server address action => trivial
  | _ => exact haction

/-- The client does not notice, and what the servers have sent stays where it is. -/
theorem run_elsewhere (h : Run.Along (step me) Elsewhere s actions) :
    (Run.run (step me) s actions).client = s.client ∧
      ∀ b, (s.servers b).outbox <+: ((Run.run (step me) s actions).servers b).outbox := by
  induction actions generalizing s with
  | nil => exact ⟨rfl, fun b => List.prefix_rfl⟩
  | cons action actions ih =>
    obtain ⟨haction, hrest⟩ := h
    cases action with
    | server address action =>
      obtain ⟨hclient, houtbox⟩ := ih hrest
      refine ⟨hclient, fun b => ?_⟩
      have hstep : (s.servers b).outbox <+:
          ((s.step me (.server address action)).servers b).outbox := by
        rw [step]
        dsimp only
        by_cases hb : b = address
        · rw [hb, Function.update_self]
          exact ConnectionServer.outbox_step _ action
        · rw [Function.update_of_ne hb]
      exact hstep.trans (houtbox b)
    | _ => exact haction.elim

theorem run_between {clientSalt serverSalt : Nat} {request token : List UInt8}
    (hrequest : requestOf request = some (clientSalt, token))
    (hawaits : ConnectionServer.Awaits me clientSalt serverSalt (s.servers b))
    (h : Run.Along (step me) (Between me b request) s actions) :
    ConnectionServer.Awaits me clientSalt serverSalt ((Run.run (step me) s actions).servers b) := by
  refine Run.invariant (fun s => ConnectionServer.Awaits me clientSalt serverSalt (s.servers b))
    (fun s action haction hs => ?_) hawaits h
  cases action with
  | server address action =>
    rw [step]
    dsimp only
    by_cases hb : b = address
    · subst hb
      rw [Function.update_self]
      exact hs.step hrequest (haction rfl)
    · rw [Function.update_of_ne hb]
      exact hs
  | _ => exact haction.elim

/-- A datagram that was sent to the client is there to arrive. -/
theorem arriving_of_prefix {outbox : List (Address × List UInt8)} {data : List UInt8}
    (h : outbox ++ [(me, data)] <+: (s.servers b).outbox) :
    s.arriving me (b, outbox.length) = some (b, data) := by
  obtain ⟨more, hmore⟩ := h
  rw [arriving, ← hmore]
  simp

theorem update_one (handlers : ClientHandlers) {n now : Nat} {data : List UInt8}
    (harriving : s.arriving me (b, n) = some (b, data)) (hserver : s.client.config.server = b)
    (hstate : s.client.state = .sendingRequest ∨ s.client.state = .sendingResponse) :
    s.step me (.update handlers [(b, n)] now) =
      { s with client := (s.client.processDatagram handlers data now).pace now } := by
  have hlive : ¬ (s.client.state = .disconnected ∨ s.client.state = .denied ∨
      s.client.state = .timedOut) := by
    cases hstate with
    | inl h => simp [h]
    | inr h => simp [h]
  rw [step, List.filterMap_cons, harriving, ClientConnection.update, if_neg hlive]
  simp [hserver]

theorem step_server (s : Parties) (action : ServerAction) :
    (s.step me (.server b action)).servers b = (s.servers b).step action ∧
      (s.step me (.server b action)).client = s.client :=
  ⟨Function.update_self .., rfl⟩

/-- The client reads the challenge. -/
theorem update_challenge (handlers : ClientHandlers) (now : Nat) {n serverSalt : Nat}
    (harriving : s.arriving me (b, n) = some (b, writeChallenge s.client.clientSalt serverSalt))
    (hstate : s.client.state = .sendingRequest) (hserver : s.client.config.server = b)
    (hclient : s.client.clientSalt < 2 ^ 64) (hsalt : serverSalt < 2 ^ 64) :
    let s' := s.step me (.update handlers [(b, n)] now)
    s'.servers = s.servers ∧ s'.client.state = .sendingResponse ∧ s'.client.config.server = b ∧
      s'.client.sessionSalt = s.client.clientSalt ^^^ serverSalt := by
  rw [update_one handlers harriving hserver (Or.inl hstate),
    ClientConnection.processDatagram_challenge hstate hclient hsalt]
  generalize hc : ClientConnection.sendChallengeResponse { s.client with
    serverSalt, state := .sendingResponse, lastReceiveUs := now } now = c
  have hheard : c.lastReceiveUs = now := by
    rw [← hc]
    rfl
  obtain ⟨lastSendUs, reliability, outbox, heq⟩ := ClientConnection.pace_fresh hheard
  dsimp only
  rw [heq, ← hc]
  exact ⟨rfl, rfl, hserver, rfl⟩

/-- The client reads the acceptance. -/
theorem update_accepted (handlers : ClientHandlers) (now : Nat) {n clientId entity : Nat}
    (harriving : s.arriving me (b, n) =
      some (b, writeAccepted s.client.sessionSalt clientId entity))
    (hstate : s.client.state = .sendingResponse) (hserver : s.client.config.server = b)
    (hsalt : s.client.sessionSalt < 2 ^ 64) :
    let s' := s.step me (.update handlers [(b, n)] now)
    s'.servers = s.servers ∧ s'.client.state = .connected ∧
      s'.client.session = (b, s.client.sessionSalt, clientId % 2 ^ 32, entity % 2 ^ 32) := by
  rw [update_one handlers harriving hserver (Or.inr hstate),
    ClientConnection.processDatagram_accepted hstate hsalt]
  generalize hc : ({ s.client with
    state := .connected, clientId := clientId % 2 ^ 32, entity := entity % 2 ^ 32
    lastReceiveUs := now } : ClientConnection) = c
  have hheard : c.lastReceiveUs = now := by rw [← hc]
  obtain ⟨lastSendUs, reliability, outbox, heq⟩ := ClientConnection.pace_fresh hheard
  dsimp only
  rw [heq, ← hc]
  exact ⟨rfl, rfl, congrArg (·, _) hserver⟩

/-- A request that arrives and is challenged, a challenge that arrives, a response that arrives
and is let in, and an acceptance that arrives: whatever the servers do between them, while the
client does nothing, the client is connected on the terms of the connection the server opened. -/
theorem handshake_completes (h : Attempt me b s) (handlers : ClientHandlers)
    {owner owner' : Admission}
    (hadmits : (owner.decision.map AdmitDecision.admitted).getD true = true)
    {first second third : List PartyAction} {t₁ t₂ t₃ t₄ : Nat} {s₁ s₂ s₃ s₄ s₅ : Parties}
    (h₁ : s₁ = s.step me (.server b (.datagram me s.client.request t₁ owner')))
    (hfirst : Run.Along (step me) (Between me b s.client.request) s₁ first)
    (h₂ : s₂ = (Run.run (step me) s₁ first).step me
      (.update handlers [(b, (s.servers b).outbox.length)] t₂))
    (hsecond : Run.Along (step me) (Between me b s.client.request) s₂ second)
    (h₃ : s₃ = Run.run (step me) s₂ second)
    (h₄ : s₄ = s₃.step me (.server b (.datagram me s₂.client.response t₃ owner)))
    (hthird : Run.Along (step me) Elsewhere s₄ third)
    (h₅ : s₅ = (Run.run (step me) s₄ third).step me
      (.update handlers [(b, (s₃.servers b).outbox.length)] t₄)) :
    s₅.client.state = .connected ∧ ∃ c, (s₄.servers b).connections.lookup me = some c ∧
      s₅.client.session = (b, c.salt, c.clientId % 2 ^ 32, c.entity % 2 ^ 32) := by
  obtain ⟨hnonzero, hclient⟩ := h.salt
  have hrequest := ClientConnection.requestOf_request hnonzero hclient h.token
  -- the request is challenged
  obtain ⟨serverSalt, hsalt, hawaits, houtbox⟩ := ConnectionServer.answerRequest_challenged h.free
    h.room h.drawn h.pending s.client.clientSalt s.client.config.token t₁
  rw [← ConnectionServer.handleConnectionRequest_request hrequest t₁ owner',
    ← (step_server s _).1, ← h₁] at hawaits houtbox
  have hsame₁ : s₁.client = s.client := by rw [h₁, (step_server s _).2]
  -- the challenge is answered
  obtain ⟨hclient₁, hsent₁⟩ := run_elsewhere (elsewhere_of_between hfirst)
  have hawaits₁ := run_between hrequest hawaits hfirst
  rw [hsame₁] at hclient₁
  generalize Run.run (step me) s₁ first = s₁' at h₂ hclient₁ hsent₁ hawaits₁
  have harriving := arriving_of_prefix (houtbox ▸ hsent₁ b)
  rw [← hclient₁] at harriving
  obtain ⟨hservers, hstate, hserver, hsession⟩ := update_challenge handlers t₂ harriving
    (by rw [hclient₁]; exact h.asking) (by rw [hclient₁]; exact h.server)
    (by rw [hclient₁]; exact hclient) hsalt
  rw [← h₂] at hservers hstate hserver hsession
  rw [hclient₁] at hsession
  -- the response is let in
  have hxor : s₂.client.sessionSalt < 2 ^ 64 := by
    rw [hsession]
    exact Nat.xor_lt_two_pow hclient hsalt
  have hresponse := ClientConnection.responseOf_response hxor
  have hawaits₂ : ConnectionServer.Awaits me s.client.clientSalt serverSalt (s₂.servers b) := by
    rw [hservers]
    exact hawaits₁
  have hawaits₃ := run_between hrequest hawaits₂ hsecond
  obtain ⟨hclient₃, -⟩ := run_elsewhere (elsewhere_of_between hsecond)
  rw [← h₃] at hawaits₃ hclient₃
  rw [hsession] at hresponse
  obtain ⟨c, hc, hcsalt, haccepted⟩ := hawaits₃.opens hresponse t₃ hadmits
  rw [← (step_server s₃ _).1, ← h₄] at hc haccepted
  -- the acceptance is believed
  obtain ⟨hclient₄, hsent₄⟩ := run_elsewhere hthird
  have hsame₄ : s₄.client = s₂.client := by rw [h₄, (step_server s₃ _).2, hclient₃]
  rw [hsame₄] at hclient₄
  generalize Run.run (step me) s₄ third = s₄' at h₅ hclient₄ hsent₄
  have harriving₄ := arriving_of_prefix (haccepted ▸ hsent₄ b)
  rw [hcsalt, ← hsession, ← hclient₄] at harriving₄
  obtain ⟨-, hconnected, hterms⟩ := update_accepted handlers t₄ harriving₄
    (by rw [hclient₄]; exact hstate) (by rw [hclient₄]; exact hserver) (by rw [hclient₄]; exact hxor)
  rw [← h₅] at hconnected hterms
  refine ⟨hconnected, c, hc, ?_⟩
  rw [hterms, hclient₄, hsession, hcsalt]

end

/-- A client that has just started, and servers that have just started. -/
def asking : Parties :=
  (start (fun _ => {}) (fun _ _ => 9) { server := {} }).step { ip := 3, port := 4 }
    (.start { server := { ip := 1, port := 2 } } 5 0)

theorem asking_attempt : Attempt { ip := 3, port := 4 } { ip := 1, port := 2 } asking where
  asking := rfl
  server := rfl
  salt := by decide
  token := rfl
  free := by decide
  room := by decide
  drawn := fun _ => show 9 < 2 ^ 64 by decide
  pending := fun p hp => by cases hp

/-- Handshakes are expired while the client waits, and the server goes on afterwards. -/
theorem handshake_completes_asking :
    let me : Address := { ip := 3, port := 4 }
    let b : Address := { ip := 1, port := 2 }
    let quiet : ClientHandlers := fun c _ _ => c
    let s₁ := asking.step me (.server b (.datagram me asking.client.request 1 {}))
    let s₂ := (Run.run (step me) s₁ [.server b (.expirePending 2)]).step me (.update quiet [(b, 0)] 3)
    let s₃ := Run.run (step me) s₂ [.server b (.timeoutConnections 4 [])]
    let s₄ := s₃.step me (.server b (.datagram me s₂.client.response 5 {}))
    let s₅ := (Run.run (step me) s₄ [.server b (.flush 6 [me])]).step me (.update quiet [(b, 1)] 7)
    s₅.client.state = .connected ∧ ∃ c, (s₄.servers b).connections.lookup me = some c ∧
      s₅.client.session = (b, c.salt, c.clientId % 2 ^ 32, c.entity % 2 ^ 32) := by
  intro me b quiet s₁ s₂ s₃ s₄ s₅
  have hsent : (s₃.servers b).outbox.length = 1 := by decide +kernel
  have h₅ : s₅ = (Run.run (step me) s₄ [.server b (.flush 6 [me])]).step me
      (.update quiet [(b, (s₃.servers b).outbox.length)] 7) := by rw [hsent]
  have hyoung : ∀ p ∈ (s₁.servers b).pending.lookup me,
      elapsed 2 p.startedUs ≤ kHandshakeTimeoutUs := by decide +kernel
  have hfirst : Run.Along (step me) (Between me b asking.client.request) s₁
      [.server b (.expirePending 2)] := ⟨fun _ => hyoung, trivial⟩
  have hsecond : Run.Along (step me) (Between me b asking.client.request) s₂
      [.server b (.timeoutConnections 4 [])] := ⟨fun _ => trivial, trivial⟩
  have hthird : Run.Along (step me) Elsewhere s₄ [.server b (.flush 6 [me])] := ⟨trivial, trivial⟩
  have h₁ : s₁ = asking.step me (.server b (.datagram me asking.client.request 1 {})) := rfl
  have h₂ : s₂ = (Run.run (step me) s₁ [.server b (.expirePending 2)]).step me
      (.update quiet [(b, (asking.servers b).outbox.length)] 3) := rfl
  have h₃ : s₃ = Run.run (step me) s₂ [.server b (.timeoutConnections 4 [])] := rfl
  have h₄ : s₄ = s₃.step me (.server b (.datagram me s₂.client.response 5 {})) := rfl
  exact handshake_completes asking_attempt quiet rfl h₁ hfirst h₂ hsecond h₃ h₄ hthird h₅

end Parties
end Morton.Net
