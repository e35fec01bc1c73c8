import Morton.Net.ClientConnection
import Morton.Net.DatagramCodec
import Morton.Net.HandshakeSafety

/-! One client and every server it may be sent to, over a network that loses, repeats and
reorders. When the client holds a session, its server opened it on the same terms. -/
namespace Morton.Net
open Proto
namespace ConnectionServer

/-- Every connection is kept under its own address. -/
def Addressed (s : ConnectionServer) : Prop :=
  ∀ a c, s.connections.lookup a = some c → c.address = a

theorem addressed_step (s : ConnectionServer) (action : ServerAction) (h : s.Addressed) :
    (s.step action).Addressed := by
  have hstep := step_spec s action
  generalize s.step action = s' at hstep ⊢
  intro a c' hc'
  cases hstep with
  | tends htends =>
    obtain ⟨c, hc, hid⟩ := htends.connections a c' hc'
    have hsame : c'.address = c.address := congrArg (fun id => id.2.1) hid
    exact hsame.trans (h a c hc)
  | full => exact h a c' hc'
  | challenged => exact h a c' hc'
  | denied => exact h a c' hc'
  | opened =>
    simp only [openConnection, sendAccepted, send, Table.lookup_insert] at hc'
    split at hc'
    next hsender =>
      cases hc'
      exact hsender.symm
    next => exact h a c' hc'

/-- Nothing that was handed to the socket is an acceptance. -/
def Quiet (s s' : ConnectionServer) : Prop :=
  ∃ more, s'.outbox = s.outbox ++ more ∧
    ∀ sent ∈ more, readHeader sent.2 ≠ some .connectionAccepted

section
variable {s s' s'' : ConnectionServer}

theorem Quiet.of_eq (h : s'.outbox = s.outbox) : Quiet s s' :=
  ⟨[], by rw [h, List.append_nil], fun sent hsent => by cases hsent⟩

theorem Quiet.trans (h : Quiet s s') (h' : Quiet s' s'') : Quiet s s'' := by
  obtain ⟨more, houtbox, hmore⟩ := h
  obtain ⟨more', houtbox', hmore'⟩ := h'
  refine ⟨more ++ more', by rw [houtbox', houtbox, List.append_assoc], fun sent hsent => ?_⟩
  cases List.mem_append.mp hsent with
  | inl hfirst => exact hmore sent hfirst
  | inr hsecond => exact hmore' sent hsecond

theorem Quiet.foldl {α : Type} {f : ConnectionServer → α → ConnectionServer}
    (h : ∀ s x, Quiet s (f s x)) (xs : List α) (s : ConnectionServer) :
    Quiet s (xs.foldl f s) := by
  induction xs generalizing s with
  | nil => exact Quiet.of_eq rfl
  | cons x xs ih => exact (h s x).trans (ih (f s x))

theorem quiet_send (s : ConnectionServer) (peer : Address) {data : List UInt8}
    (h : readHeader data ≠ some .connectionAccepted) : Quiet s (s.send peer data) :=
  ⟨[(peer, data)], rfl, fun sent hsent => by rwa [List.mem_singleton.mp hsent]⟩

/-- A datagram of another type. -/
theorem quiet_datagram (s : ConnectionServer) (peer : Address) {capacity : Nat}
    (hcapacity : capacity < 2 ^ 28) (hfits : 5 ≤ capacity) {type : PacketType}
    (htype : type ≠ .connectionAccepted) (body : BitWriter → BitWriter) (rest : List UInt8) :
    Quiet s (s.send peer (writeDatagram capacity type body ++ rest)) :=
  quiet_send s peer fun h => htype (readHeader_writeDatagram hcapacity hfits h).symm

theorem quiet_plain (s : ConnectionServer) (peer : Address) {capacity : Nat}
    (hcapacity : capacity < 2 ^ 28) (hfits : 5 ≤ capacity) {type : PacketType}
    (htype : type ≠ .connectionAccepted) (body : BitWriter → BitWriter) :
    Quiet s (s.send peer (writeDatagram capacity type body)) := by
  rw [← List.append_nil (writeDatagram capacity type body)]
  exact quiet_datagram s peer hcapacity hfits htype body []

theorem quiet_sendPayload (s : ConnectionServer) (address : Address) (data : List UInt8)
    (now : Nat) : Quiet s (s.sendPayload address data now) := by
  unfold sendPayload
  split
  · exact Quiet.of_eq rfl
  · split
    · exact Quiet.of_eq rfl
    next reliability packet hpacket =>
      unfold writePayload at hpacket
      dsimp only at hpacket
      obtain ⟨body, -, rfl⟩ := Option.map_eq_some_iff.mp (congrArg Prod.snd hpacket)
      exact quiet_datagram { s with connections := _ } _ (by decide) (by decide) (by decide) _ body

theorem quiet_flush (s : ConnectionServer) (now : Nat) (order : List Address) :
    Quiet s (s.flush now order) := by
  refine Quiet.foldl (fun s address => ?_) order s
  unfold flushOne
  split
  · exact Quiet.of_eq rfl
  · dsimp only
    split
    · exact (Quiet.of_eq rfl).trans (quiet_sendPayload _ _ _ _)
    · exact Quiet.of_eq rfl

theorem removeConnection_outbox (s : ConnectionServer) (address : Address) :
    (s.removeConnection address).outbox = s.outbox := by
  unfold removeConnection
  split
  · rfl
  · rfl

theorem quiet_timeoutConnections (s : ConnectionServer) (now : Nat) (order : List Address) :
    Quiet s (s.timeoutConnections now order) :=
  Quiet.foldl (fun s address => Quiet.of_eq (s.removeConnection_outbox address)) _ s

theorem quiet_disconnect (s : ConnectionServer) (clientId : Nat) :
    Quiet s (s.disconnect clientId) := by
  unfold disconnect
  split
  · exact Quiet.of_eq rfl
  next c _ =>
    have hsend : ∀ s : ConnectionServer, Quiet s (s.send c.address (writeDisconnect c.salt)) :=
      fun s => quiet_plain s c.address (by decide) (by decide) (by decide) _
    exact (((hsend _).trans (hsend _)).trans (hsend _)).trans
      (Quiet.of_eq (removeConnection_outbox _ _))

theorem quiet_queueReliable (s : ConnectionServer) (address : Address) (channel : UInt8)
    (data : List UInt8) : Quiet s (s.queueReliable address channel data) := by
  unfold queueReliable
  split
  · exact Quiet.of_eq rfl
  · exact Quiet.of_eq rfl

theorem quiet_handlePayload (s : ConnectionServer) (sender : Address) (body : List UInt8)
    (now : Nat) : Quiet s (s.handlePayload sender body now).1 := by
  unfold handlePayload
  split
  · exact Quiet.of_eq rfl
  · dsimp only
    split
    · exact Quiet.of_eq rfl
    · split
      · exact Quiet.of_eq rfl
      · exact Quiet.of_eq rfl

theorem quiet_handleDisconnect (s : ConnectionServer) (sender : Address) (body : List UInt8) :
    Quiet s (s.handleDisconnect sender body) := by
  unfold handleDisconnect
  split
  · exact Quiet.of_eq rfl
  · split
    · exact Quiet.of_eq (s.removeConnection_outbox sender)
    · exact Quiet.of_eq rfl

/-- Every acceptance handed to the socket is on the terms of a connection the server holds. -/
def Announces (s s' : ConnectionServer) : Prop :=
  ∃ more, s'.outbox = s.outbox ++ more ∧
    ∀ sent ∈ more, readHeader sent.2 = some .connectionAccepted →
      ∃ c, s'.connections.lookup sent.1 = some c ∧
        sent.2 = writeAccepted c.salt c.clientId c.entity

theorem Quiet.announces (h : Quiet s s') : Announces s s' := by
  obtain ⟨more, houtbox, hmore⟩ := h
  exact ⟨more, houtbox, fun sent hsent htype => absurd htype (hmore sent hsent)⟩

/-- An acceptance sent to a connected peer. -/
theorem announces_accepted {c : Connection} (houtbox : s'.outbox = s.outbox ++
      [(c.address, writeAccepted c.salt c.clientId c.entity)])
    (hc : s'.connections.lookup c.address = some c) : Announces s s' := by
  refine ⟨_, houtbox, fun sent hsent _ => ⟨c, ?_⟩⟩
  rw [List.mem_singleton.mp hsent]
  exact ⟨hc, rfl⟩

theorem announces_answerRequest (h : s.Addressed) (sender : Address) (clientSalt : Nat)
    (token : List UInt8) (now : Nat) : Announces s (s.answerRequest sender clientSalt token now) := by
  unfold answerRequest
  split
  next existing hexisting =>
    have haddress := h sender existing hexisting
    exact announces_accepted rfl (haddress ▸ hexisting)
  · split
    · exact (quiet_plain s sender (by decide) (by decide) (by decide) _).announces
    · dsimp only
      split
      · exact ((Quiet.of_eq rfl).trans
          (quiet_plain _ sender (by decide) (by decide) (by decide) _)).announces
      · exact ((Quiet.of_eq rfl).trans
          (quiet_plain _ sender (by decide) (by decide) (by decide) _)).announces

theorem announces_openConnection (sender : Address) (pending : PendingHandshake)
    (xorSalt clientId entity now : Nat) (next : Nat) :
    Announces s (openConnection { s with nextClientId := next } sender pending xorSalt clientId
      entity now) := by
  refine announces_accepted rfl ?_
  simp only [openConnection, sendAccepted, send, Table.lookup_insert, if_true]

theorem announces_handleChallengeResponse (h : s.Addressed) (sender : Address) (body : List UInt8)
    (now : Nat) (owner : Admission) :
    Announces s (s.handleChallengeResponse sender body now owner) := by
  unfold handleChallengeResponse
  dsimp only
  split
  · exact (Quiet.of_eq rfl).announces
  · split
    next existing hexisting =>
      split
      · have haddress := h sender existing hexisting
        exact announces_accepted rfl (haddress ▸ hexisting)
      · exact (Quiet.of_eq rfl).announces
    · split
      · exact (Quiet.of_eq rfl).announces
      · split
        · exact (Quiet.of_eq rfl).announces
        · split
          · exact ((Quiet.of_eq rfl).trans
              (quiet_plain _ sender (by decide) (by decide) (by decide) _)).announces
          · split
            · exact announces_openConnection sender _ _ _ _ _ _
            · exact announces_openConnection sender _ _ _ _ _ _

theorem announces_step (h : s.Addressed) (action : ServerAction) : Announces s (s.step action) := by
  cases action with
  | datagram sender data now owner =>
    unfold step receiveDatagram
    dsimp only
    split
    · unfold handleConnectionRequest
      split
      · exact (Quiet.of_eq rfl).announces
      · dsimp only
        split
        · exact (Quiet.of_eq rfl).announces
        · exact announces_answerRequest h sender _ _ now
    · exact announces_handleChallengeResponse h sender _ now owner
    · exact (quiet_handlePayload s sender _ now).announces
    · exact (quiet_handleDisconnect s sender _).announces
    · exact (Quiet.of_eq rfl).announces
  | expirePending now => exact (Quiet.of_eq rfl).announces
  | sendPayload address data now => exact (quiet_sendPayload s address data now).announces
  | flush now order => exact (quiet_flush s now order).announces
  | timeoutConnections now order => exact (quiet_timeoutConnections s now order).announces
  | disconnect clientId => exact (quiet_disconnect s clientId).announces
  | queueReliable address channel data =>
    exact (quiet_queueReliable s address channel data).announces

end
end ConnectionServer

namespace ClientConnection

/-- What of a session the two sides have to agree on. -/
def session (c : ClientConnection) : Address × Nat × Nat × Nat :=
  (c.config.server, c.sessionSalt, c.clientId, c.entity)

/-- A connected client was connected before, in the same session. -/
def Follows (c c' : ClientConnection) : Prop :=
  c'.state = .connected → c.state = .connected ∧ c'.session = c.session

/-- Handlers that may end the session but never make up another. -/
def Loyal (handlers : ClientHandlers) : Prop :=
  ∀ c payload messages, Follows c (handlers c payload messages)

section
variable {c c' c'' : ClientConnection}

theorem Follows.refl (c : ClientConnection) : Follows c c := fun h => ⟨h, rfl⟩

theorem Follows.trans (h : Follows c c') (h' : Follows c' c'') : Follows c c'' := by
  intro hconnected
  obtain ⟨hmiddle, hsame'⟩ := h' hconnected
  obtain ⟨hfirst, hsame⟩ := h hmiddle
  exact ⟨hfirst, hsame'.trans hsame⟩

theorem Follows.of_ne (h : c'.state ≠ .connected) : Follows c c' := fun hc => absurd hc h

theorem Follows.of_eq (hstate : c'.state = c.state) (hsession : c'.session = c.session) :
    Follows c c' := fun h => ⟨hstate ▸ h, hsession⟩

theorem follows_reliability (c : ClientConnection) (reliability : ReliableEndpoint) :
    Follows c { c with reliability } := Follows.of_eq rfl rfl

theorem follows_sendPayload (c : ClientConnection) (data : List UInt8) (now : Nat) :
    Follows c (c.sendPayload data now) := by
  unfold sendPayload
  split
  · exact Follows.refl c
  · split
    · exact Follows.of_eq rfl rfl
    · exact Follows.of_eq rfl rfl

theorem follows_disconnect (c : ClientConnection) : Follows c c.disconnect := by
  unfold disconnect
  split
  · exact Follows.refl c
  · exact Follows.of_ne (by simp)

theorem follows_pace (c : ClientConnection) (now : Nat) : Follows c (c.pace now) := by
  unfold pace
  extract_lets updated idle sent
  have hupdated : Follows c updated := follows_reliability c _
  have hsent : Follows updated sent := by
    unfold sent
    split
    · split
      · exact Follows.of_eq rfl rfl
      · exact Follows.refl updated
    · split
      · exact Follows.of_eq rfl rfl
      · exact Follows.refl updated
    · split
      · exact follows_sendPayload updated [] now
      · exact Follows.refl updated
    · exact Follows.refl updated
  split
  · exact Follows.of_ne (by simp)
  · exact hupdated.trans hsent

theorem follows_handleChallenge (c : ClientConnection) (body : List UInt8) (now : Nat) :
    Follows c (c.handleChallenge body now) := by
  unfold handleChallenge
  dsimp only
  split
  · exact Follows.refl c
  · split
    · exact Follows.refl c
    · exact Follows.of_ne (by simp [sendChallengeResponse, send])

theorem follows_handleDenied (c : ClientConnection) (body : List UInt8) :
    Follows c (c.handleDenied body) := by
  unfold handleDenied
  dsimp only
  split
  · exact Follows.refl c
  · exact Follows.of_ne (by simp)

theorem follows_handleDisconnect (c : ClientConnection) (body : List UInt8) :
    Follows c (c.handleDisconnect body) := by
  unfold handleDisconnect
  dsimp only
  split
  · exact Follows.of_ne (by simp)
  · exact Follows.refl c

theorem follows_handlePayload {handlers : ClientHandlers} (h : Loyal handlers)
    (c : ClientConnection) (body : List UInt8) (now : Nat) :
    Follows c (c.handlePayload handlers body now) := by
  unfold handlePayload
  dsimp only
  split
  · exact Follows.refl c
  · split
    · exact Follows.refl c
    · split
      · exact Follows.of_eq rfl rfl
      next reliability payload messages _ =>
        exact (Follows.of_eq rfl rfl).trans (h { c with reliability, lastReceiveUs := now } payload
          messages)

/-- Whatever else arrives, only an acceptance with the salt of the attempt opens a session. -/
theorem processDatagram_cases {handlers : ClientHandlers} (h : Loyal handlers)
    (c : ClientConnection) (data : List UInt8) (now : Nat) :
    Follows c (c.processDatagram handlers data now) ∨
      readHeader data = some .connectionAccepted ∧
        c.processDatagram handlers data now = c.handleAccepted (data.drop kHeaderBytes) now := by
  unfold processDatagram
  dsimp only
  split
  · exact Or.inl (follows_handleChallenge c _ now)
  next htype => exact Or.inr ⟨htype, rfl⟩
  · exact Or.inl (follows_handleDenied c _)
  · exact Or.inl (follows_handleDisconnect c _)
  · exact Or.inl (follows_handlePayload h c _ now)
  · exact Or.inl (Follows.refl c)

/-- An acceptance is read as it was written, and refused unless it is for this attempt. -/
theorem handleAccepted_written (c : ClientConnection) (salt clientId entity now : Nat) :
    c.handleAccepted ((writeAccepted salt clientId entity).drop kHeaderBytes) now = c ∨
    (c.handleAccepted ((writeAccepted salt clientId entity).drop kHeaderBytes) now).session =
      (c.config.server, salt % 2 ^ 64, clientId % 2 ^ 32, entity % 2 ^ 32) := by
  obtain ⟨r, r', r'', hsalt, hclient, hentity, hclean⟩ := accepted_fields salt clientId entity
  unfold handleAccepted
  rw [hsalt]
  dsimp only
  rw [hclient]
  dsimp only
  rw [hentity]
  dsimp only
  split
  · exact Or.inl rfl
  next hok =>
    rw [not_or, not_not] at hok
    right
    rw [hok.2]
    rfl

end
end ClientConnection

/-- A client and the servers of a deployment. -/
structure Parties where
  servers : Address → ConnectionServer
  client : ClientConnection

/-- What happens to a server, whoever sends to it, and what happens to the client. An arrival
names a datagram by its sender and its number among what the sender has sent. -/
inductive PartyAction
  | server (address : Address) (action : ServerAction)
  | start (config : ClientConfig) (salt now : Nat)
  | redirect (server : Address) (token : List UInt8) (salt now : Nat)
  | sendPayload (data : List UInt8) (now : Nat)
  | queueReliable (channel : UInt8) (data : List UInt8)
  | disconnect
  | stop
  | update (handlers : ClientHandlers) (arrivals : List (Address × Nat)) (now : Nat)

namespace Parties
variable (me : Address)

/-- The datagram with this number, if it was sent to the client. -/
def arriving (s : Parties) (arrival : Address × Nat) : Option (Address × List UInt8) :=
  ((s.servers arrival.1).outbox[arrival.2]?).bind fun sent =>
    if sent.1 = me then some (arrival.1, sent.2) else none

def step (s : Parties) : PartyAction → Parties
  | .server address action =>
    { s with servers := Function.update s.servers address ((s.servers address).step action) }
  | .start config salt now => { s with client := s.client.start config salt now }
  | .redirect server token salt now => { s with client := s.client.redirect server token salt now }
  | .sendPayload data now => { s with client := s.client.sendPayload data now }
  | .queueReliable channel data => { s with client := s.client.queueReliable channel data }
  | .disconnect => { s with client := s.client.disconnect }
  | .stop => { s with client := s.client.stop }
  | .update handlers arrivals now =>
    { s with client := s.client.update handlers (arrivals.filterMap (s.arriving me)) now }

/-- Servers that have just started, each with its own configuration and salts, and a client. -/
def start (config : Address → ServerConfig) (rng : Address → Nat → Nat)
    (client : ClientConfig) : Parties :=
  { servers := fun address => ConnectionServer.start (config address) (rng address)
    client := { config := client } }

/-- Handlers keep the session or end it. -/
def Loyal (_ : Parties) : PartyAction → Prop
  | .update handlers _ _ => ClientConnection.Loyal handlers
  | _ => True

/-- At some point of the run the server had this connection of `a`. -/
def Opened (s₀ : Parties) (actions : List PartyAction) (server a : Address) (c : Connection) :
    Prop :=
  ∃ before, before <+: actions ∧
    ((Run.run (step me) s₀ before).servers server).connections.lookup a = some c

/-- What a session has to agree with. -/
def Accounted (s₀ : Parties) (actions : List PartyAction)
    (session : Address × Nat × Nat × Nat) : Prop :=
  ∃ c, Opened me s₀ actions session.1 me c ∧
    session.2 = (c.salt % 2 ^ 64, c.clientId % 2 ^ 32, c.entity % 2 ^ 32)

structure Agreed (s₀ : Parties) (actions : List PartyAction) (s : Parties) : Prop where
  addressed : ∀ b, (s.servers b).Addressed
  announced : ∀ b, ∀ sent ∈ (s.servers b).outbox, readHeader sent.2 = some .connectionAccepted →
    ∃ c, Opened me s₀ actions b sent.1 c ∧ sent.2 = writeAccepted c.salt c.clientId c.entity
  session : s.client.state = .connected → Accounted me s₀ actions s.client.session

section
variable {me} {s₀ s : Parties} {actions : List PartyAction} {action : PartyAction}

theorem Opened.snoc {b a : Address} {c : Connection} (h : Opened me s₀ actions b a c) :
    Opened me s₀ (actions ++ [action]) b a c := by
  obtain ⟨before, hbefore, hc⟩ := h
  exact ⟨before, hbefore.trans (List.prefix_append actions [action]), hc⟩

theorem Accounted.snoc {session : Address × Nat × Nat × Nat}
    (h : Accounted me s₀ actions session) : Accounted me s₀ (actions ++ [action]) session := by
  obtain ⟨c, hc, heq⟩ := h
  exact ⟨c, hc.snoc, heq⟩

/-- A step of the client alone. -/
theorem Agreed.client (h : Agreed me s₀ actions s) {c : ClientConnection}
    (hc : c.state = .connected → Accounted me s₀ actions c.session) :
    Agreed me s₀ (actions ++ [action]) { s with client := c } where
  addressed := h.addressed
  announced b sent hsent htype := by
    obtain ⟨d, hd, heq⟩ := h.announced b sent hsent htype
    exact ⟨d, hd.snoc, heq⟩
  session hconnected := (hc hconnected).snoc

theorem Agreed.follows (h : Agreed me s₀ actions s) {c : ClientConnection}
    (hc : ClientConnection.Follows s.client c) :
    Agreed me s₀ (actions ++ [action]) { s with client := c } :=
  h.client fun hconnected => by
    obtain ⟨hbefore, hsame⟩ := hc hconnected
    rw [hsame]
    exact h.session hbefore

/-- A step of a server. -/
theorem Agreed.server (h : Agreed me s₀ actions (Run.run (step me) s₀ actions)) (b : Address)
    (a : ServerAction) : Agreed me s₀ (actions ++ [.server b a])
      ((Run.run (step me) s₀ actions).step me (.server b a)) := by
  have hlast : Run.run (step me) s₀ (actions ++ [.server b a]) =
      (Run.run (step me) s₀ actions).step me (.server b a) := Run.run_append s₀ actions _
  generalize Run.run (step me) s₀ actions = s at h hlast
  refine ⟨fun b' => ?_, fun b' sent hsent htype => ?_, fun hconnected => ?_⟩
  · rw [step]
    dsimp only
    by_cases hb : b' = b
    · subst hb
      rw [Function.update_self]
      exact ConnectionServer.addressed_step _ a (h.addressed b')
    · rw [Function.update_of_ne hb]
      exact h.addressed b'
  · have hold : sent ∈ (s.servers b').outbox → ∃ c,
        Opened me s₀ (actions ++ [.server b a]) b' sent.1 c ∧
          sent.2 = writeAccepted c.salt c.clientId c.entity := by
      intro hmem
      obtain ⟨c, hc, heq⟩ := h.announced b' sent hmem htype
      exact ⟨c, hc.snoc, heq⟩
    rw [step] at hsent
    dsimp only at hsent
    by_cases hb : b' = b
    · subst hb
      rw [Function.update_self] at hsent
      obtain ⟨more, houtbox, hmore⟩ := ConnectionServer.announces_step (h.addressed b') a
      rw [houtbox, List.mem_append] at hsent
      cases hsent with
      | inl hmem => exact hold hmem
      | inr hmem =>
        obtain ⟨c, hc, heq⟩ := hmore sent hmem htype
        refine ⟨c, ⟨_, List.prefix_refl _, ?_⟩, heq⟩
        rw [hlast, step]
        dsimp only
        rw [Function.update_self]
        exact hc
    · rw [Function.update_of_ne hb] at hsent
      exact hold hsent
  · exact (h.session hconnected).snoc

/-- The datagrams a client takes in keep its session accounted for. -/
theorem Agreed.update (h : Agreed me s₀ actions s) {handlers : ClientHandlers}
    (hloyal : ClientConnection.Loyal handlers) (arrivals : List (Address × Nat)) (now : Nat) :
    (s.client.update handlers (arrivals.filterMap (s.arriving me)) now).state = .connected →
      Accounted me s₀ actions
        (s.client.update handlers (arrivals.filterMap (s.arriving me)) now).session := by
  unfold ClientConnection.update
  split
  next hidle =>
    intro hconnected
    rw [hconnected] at hidle
    simp at hidle
  · generalize hheld : s.client = c
    have hc : c.state = .connected → Accounted me s₀ actions c.session := hheld ▸ h.session
    clear hheld
    -- each datagram came from the outbox of its sender
    have hfold : (List.foldl (fun c (sent : Address × List UInt8) =>
          if sent.1 = c.config.server then c.processDatagram handlers sent.2 now else c) c
          (arrivals.filterMap (s.arriving me))).state = .connected →
        Accounted me s₀ actions (List.foldl (fun c (sent : Address × List UInt8) =>
          if sent.1 = c.config.server then c.processDatagram handlers sent.2 now else c) c
          (arrivals.filterMap (s.arriving me))).session := by
      induction arrivals generalizing c with
      | nil => exact hc
      | cons arrival arrivals ih =>
        rw [List.filterMap_cons]
        cases harrival : s.arriving me arrival with
        | none => exact ih c hc
        | some datagram =>
          obtain ⟨b, data⟩ := datagram
          rw [List.foldl_cons]
          refine ih _ ?_
          dsimp only
          split
          next hserver =>
            rcases ClientConnection.processDatagram_cases hloyal c data now with
              hfollows | ⟨htype, heq⟩
            · intro hconnected
              obtain ⟨hbefore, hsame⟩ := hfollows hconnected
              rw [hsame]
              exact hc hbefore
            · obtain ⟨sent, hsent, hto⟩ := Option.bind_eq_some_iff.mp harrival
              split at hto
              next hme =>
                cases hto
                obtain ⟨d, hd, hwritten⟩ := h.announced arrival.1 sent
                  (List.mem_of_getElem? hsent) htype
                rw [hme] at hd
                rw [heq, hwritten]
                rcases c.handleAccepted_written d.salt d.clientId d.entity now with
                  hkept | hsession
                · rw [hkept]
                  exact hc
                · intro _
                  rw [hsession, ← hserver]
                  exact ⟨d, hd, rfl⟩
              next => cases hto
          next => exact hc
    intro hconnected
    obtain ⟨hbefore, hsame⟩ := ClientConnection.follows_pace _ now hconnected
    rw [hsame]
    exact hfold hbefore

end

theorem agreed (config : Address → ServerConfig) (rng : Address → Nat → Nat) (client : ClientConfig)
    (actions : List PartyAction)
    (hloyal : Run.Along (step me) Loyal (start config rng client) actions) :
    Agreed me (start config rng client) actions
      (Run.run (step me) (start config rng client) actions) := by
  induction actions using List.reverseRecOn with
  | nil =>
    refine ⟨fun b a c hc => ?_, fun b sent hsent => ?_, fun hconnected => ?_⟩
    · exact absurd hc (by simp [start, ConnectionServer.start])
    · exact absurd hsent (by simp [start, ConnectionServer.start])
    · cases hconnected
  | append_singleton actions action ih =>
    rw [Run.along_append] at hloyal
    have h := ih hloyal.1
    rw [Run.run_append]
    cases action with
    | server b a => exact h.server b a
    | start config salt now => exact h.client fun hconnected => by cases hconnected
    | redirect server token salt now => exact h.client fun hconnected => by cases hconnected
    | sendPayload data now => exact h.follows (ClientConnection.follows_sendPayload _ data now)
    | queueReliable channel data => exact h.follows (ClientConnection.Follows.of_eq rfl rfl)
    | disconnect => exact h.follows (ClientConnection.follows_disconnect _)
    | stop => exact h.client fun hconnected => by cases hconnected
    | update handlers arrivals now => exact h.client (h.update hloyal.2.1 arrivals now)

/-- A connected client's session was opened by its server, for its address, with the same
salt, client id and entity. -/
theorem session_agreement (config : Address → ServerConfig) (rng : Address → Nat → Nat)
    (client : ClientConfig) (actions : List PartyAction)
    (hloyal : Run.Along (step me) Loyal (start config rng client) actions) :
    let s₀ := start config rng client
    let s := Run.run (step me) s₀ actions
    s.client.state = .connected →
      ∃ c, Opened me s₀ actions s.client.config.server me c ∧ c.address = me ∧
        s.client.sessionSalt = c.salt % 2 ^ 64 ∧ s.client.clientId = c.clientId % 2 ^ 32 ∧
        s.client.entity = c.entity % 2 ^ 32 := by
  intro s₀ s hconnected
  obtain ⟨c, hc, heq⟩ := (agreed me config rng client actions hloyal).session hconnected
  simp only [ClientConnection.session, Prod.mk.injEq] at heq
  have haddress : c.address = me := by
    obtain ⟨before, ⟨after, rfl⟩, hlookup⟩ := hc
    rw [Run.along_append] at hloyal
    exact (agreed me config rng client before hloyal.1).addressed _ me c hlookup
  exact ⟨c, hc, haddress, heq⟩

/-- A client that asks, answers the challenge and is let in. -/
def joining : List PartyAction :=
  let server : Address := { ip := 1, port := 2 }
  let quiet : ClientHandlers := fun c _ _ => c
  [.start { server } 5 0, .update quiet [] 100000,
    .server server (.datagram { ip := 3, port := 4 } (plainRequest 5) 100001 {}),
    .update quiet [(server, 0)] 200000,
    .server server (.datagram { ip := 3, port := 4 } (plainResponse 12) 200001 {}),
    .update quiet [(server, 1)] 300000]

theorem joining_loyal (s : Parties) (me : Address) : Run.Along (step me) Loyal s joining :=
  ⟨trivial, fun c _ _ => ClientConnection.Follows.refl c, trivial,
    fun c _ _ => ClientConnection.Follows.refl c, trivial,
    fun c _ _ => ClientConnection.Follows.refl c, trivial⟩

theorem session_agreement_joining :
    let me : Address := { ip := 3, port := 4 }
    let s₀ := start (fun _ => {}) (fun _ _ => 9) { server := {} }
    let s := Run.run (step me) s₀ joining
    ∃ c, Opened me s₀ joining s.client.config.server me c ∧ c.address = me ∧
      s.client.sessionSalt = c.salt % 2 ^ 64 ∧ s.client.clientId = c.clientId % 2 ^ 32 ∧
      s.client.entity = c.entity % 2 ^ 32 :=
  session_agreement { ip := 3, port := 4 } (fun _ => {}) (fun _ _ => 9) { server := {} } joining
    (joining_loyal _ _) (by decide +kernel)

end Parties
end Morton.Net
