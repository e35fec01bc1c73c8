import Morton.Net.Handshake
import Morton.Proto.Fields

/-! The history behind every pending handshake and every connection, by induction over the
datagrams and whatever else happens to the server. -/
namespace Morton.Net
open Proto

/-- A datagram fits the buffer it is written into. -/
theorem writeDatagram_length {capacity : Nat} (hcap : capacity < 2 ^ 28) (type : PacketType)
    {body : BitWriter → BitWriter} (hbody : BitWriter.Contained body) :
    (writeDatagram capacity type body).length ≤ capacity := by
  have hheader : BitWriter.Contained fun w => (w.writeU32 kProtocolId).writeU8 type.code :=
    (BitWriter.contained_writeBits _ 32 (by decide)).comp
      (BitWriter.contained_writeBits _ 8 (by decide))
  have hoffset := hheader.bytes_length (fun _ => 0) hcap
  simp only [writeDatagram, List.length_append]
  generalize ((BitWriter.new (fun _ => 0) capacity).writeU32 kProtocolId).writeU8 type.code =
    header at hoffset ⊢
  have hrest := hbody.bytes_length (fun _ => 0)
    (show capacity - header.bytes.length < 2 ^ 28 by omega)
  omega

theorem writeChallenge_length (clientSalt serverSalt : Nat) :
    (writeChallenge clientSalt serverSalt).length ≤ 64 :=
  writeDatagram_length (by decide) _
    (((BitWriter.contained_writeBits _ 32 (by decide)).comp
      (BitWriter.contained_writeBits _ 32 (by decide))).comp
        ((BitWriter.contained_writeBits _ 32 (by decide)).comp
          (BitWriter.contained_writeBits _ 32 (by decide))))

theorem writeDenied_length (reason : DenyReason) : (writeDenied reason).length ≤ 32 :=
  writeDatagram_length (by decide) _ (BitWriter.contained_writeBits _ 8 (by decide))

/-- A request is longer than any answer to it. -/
theorem requestOf_length {data : List UInt8} {request : Nat × List UInt8}
    (h : requestOf data = some request) : 64 ≤ data.length := by
  unfold requestOf at h
  dsimp only at h
  split at h
  next hcond =>
    have hlong := hcond.2.1
    rw [List.length_drop] at hlong
    unfold kConnectTokenBytes kConnectionRequestPadding kHeaderBytes at hlong
    omega
  next => cases h

namespace ConnectionServer

/-- The newest request of `a` that was answered with a challenge, behind the pending pair:
it had the salt and the token, and the challenge the pair. -/
def Asked (s₀ : ConnectionServer) (actions : List ServerAction) (a : Address)
    (p : PendingHandshake) : Prop :=
  ∃ before request after, actions = before ++ request :: after ∧
    (Run.run step s₀ before).Challenges request a p.clientSalt p.token ∧
    (Run.run step s₀ (before ++ [request])).outbox =
      (Run.run step s₀ before).outbox ++ [(a, writeChallenge p.clientSalt p.serverSalt)] ∧
    ∀ middle later rest, after = middle ++ later :: rest → ∀ c t,
      ¬ (Run.run step s₀ (before ++ request :: middle)).Challenges later a c t

/-- At some point `a` sent a correct response. -/
def Responded (s₀ : ConnectionServer) (actions : List ServerAction) (a : Address) : Prop :=
  ∃ before response after p, actions = before ++ response :: after ∧
    (Run.run step s₀ before).CorrectResponse response a p

/-- The handshake behind a connection of `a`. -/
def Earned (s₀ : ConnectionServer) (actions : List ServerAction) (a : Address) (c : Connection) :
    Prop :=
  ∃ before response after p, actions = before ++ response :: after ∧ Asked s₀ before a p ∧
    (Run.run step s₀ before).CorrectResponse response a p ∧
    c.salt = p.clientSalt ^^^ p.serverSalt ∧ c.token = p.token

section History
variable {s₀ : ConnectionServer} {actions : List ServerAction} {action : ServerAction} {a : Address}

theorem Asked.snoc {p : PendingHandshake} (h : Asked s₀ actions a p)
    (hsilent : ∀ c t, ¬ (Run.run step s₀ actions).Challenges action a c t) :
    Asked s₀ (actions ++ [action]) a p := by
  obtain ⟨before, request, after, rfl, hrequest, houtbox, hlatest⟩ := h
  refine ⟨before, request, after ++ [action], by simp, hrequest, houtbox, ?_⟩
  intro middle later rest hsplit
  rcases List.eq_nil_or_concat rest with rfl | ⟨rest, last, rfl⟩
  · obtain ⟨rfl, hlast⟩ := List.append_inj' hsplit rfl
    cases hlast
    exact hsilent
  · rw [List.concat_eq_append, ← List.cons_append, ← List.append_assoc] at hsplit
    obtain ⟨hsplit, -⟩ := List.append_inj' hsplit rfl
    exact hlatest middle later rest hsplit

theorem Responded.snoc (h : Responded s₀ actions a) : Responded s₀ (actions ++ [action]) a := by
  obtain ⟨before, response, after, p, rfl, hresponse⟩ := h
  exact ⟨before, response, after ++ [action], p, by simp, hresponse⟩

theorem Earned.snoc {c c' : Connection} (h : Earned s₀ actions a c)
    (hid : c'.identity = c.identity) : Earned s₀ (actions ++ [action]) a c' := by
  obtain ⟨before, response, after, p, rfl, hasked, hresponse, hsalt, htoken⟩ := h
  have hsalt' : c'.salt = c.salt := congrArg (fun id => id.2.2.1) hid
  have htoken' : c'.token = c.token := congrArg (fun id => id.2.2.2) hid
  exact ⟨before, response, after ++ [action], p, by simp, hasked, hresponse,
    hsalt'.trans hsalt, htoken'.trans htoken⟩

theorem Earned.responded {c : Connection} (h : Earned s₀ actions a c) :
    Responded s₀ actions a := by
  obtain ⟨before, response, after, p, hsplit, -, hresponse, -, -⟩ := h
  exact ⟨before, response, after, p, hsplit, hresponse⟩

end History

/-- Bytes handed to the socket for `a`. -/
def sentTo (s : ConnectionServer) (a : Address) : Nat :=
  ((s.outbox.filter fun sent => sent.1 = a).map fun sent => sent.2.length).sum

end ConnectionServer

/-- Bytes that arrived from `a` with this action. -/
def ServerAction.bytesFrom (a : Address) : ServerAction → Nat
  | .datagram sender data _ _ => if sender = a then data.length else 0
  | _ => 0

/-- Bytes that arrived from `a`. -/
def heardFrom (actions : List ServerAction) (a : Address) : Nat :=
  (actions.map (ServerAction.bytesFrom a)).sum

@[simp] theorem heardFrom_snoc (actions : List ServerAction) (action : ServerAction)
    (a : Address) : heardFrom (actions ++ [action]) a = heardFrom actions a + action.bytesFrom a := by
  simp [heardFrom]

namespace ConnectionServer

theorem sentTo_append {s s' : ConnectionServer} {more : List (Address × List UInt8)}
    (h : s'.outbox = s.outbox ++ more) (a : Address) :
    s'.sentTo a =
      s.sentTo a + ((more.filter fun sent => sent.1 = a).map fun sent => sent.2.length).sum := by
  simp [sentTo, h]

/-- One datagram more to `sender`. -/
theorem sentTo_send {s s' : ConnectionServer} {sender : Address} {data : List UInt8}
    (h : s'.outbox = s.outbox ++ [(sender, data)]) (a : Address) :
    s'.sentTo a = s.sentTo a + if sender = a then data.length else 0 := by
  rw [sentTo_append h]
  by_cases hsender : sender = a <;> simp [hsender]

/-- What the history guarantees of the state it led to. -/
structure History (s₀ : ConnectionServer) (actions : List ServerAction) (s : ConnectionServer) :
    Prop where
  pending : ∀ a p, s.pending.lookup a = some p → Asked s₀ actions a p
  connections : ∀ a c, s.connections.lookup a = some c → Earned s₀ actions a c ∧ c.address = a
  quiet : ∀ a, ¬ Responded s₀ actions a → s.sentTo a ≤ heardFrom actions a

section Steps
variable {s₀ s' : ConnectionServer} {actions : List ServerAction} {action : ServerAction}

theorem History.unconnected {s : ConnectionServer} (h : History s₀ actions s) {a : Address}
    (ha : ¬ Responded s₀ actions a) : s.connections.lookup a = none := by
  cases hc : s.connections.lookup a with
  | none => rfl
  | some c => exact absurd (h.connections a c hc).1.responded ha

theorem History.tends (h : History s₀ actions (Run.run step s₀ actions))
    (htends : Tends (Run.run step s₀ actions) s')
    (hsilent : ∀ a c t, ¬ (Run.run step s₀ actions).Challenges action a c t) :
    History s₀ (actions ++ [action]) s' where
  pending := fun a p hp => (h.pending a p (htends.pending a p hp)).snoc (hsilent a)
  connections := by
    intro a c' hc'
    obtain ⟨c, hc, hid⟩ := htends.connections a c' hc'
    obtain ⟨hearned, haddress⟩ := h.connections a c hc
    have hsame : c'.address = c.address := congrArg (fun id => id.2.1) hid
    exact ⟨hearned.snoc hid, hsame.trans haddress⟩
  quiet := by
    intro a ha
    have ha' : ¬ Responded s₀ actions a := fun hr => ha hr.snoc
    obtain ⟨more, houtbox, hto⟩ := htends.outbox
    have hnone : (more.filter fun sent => sent.1 = a) = [] := by
      rw [List.filter_eq_nil_iff]
      intro sent hsent heq
      obtain ⟨b, c, hc, haddress⟩ := hto sent hsent
      have hb : b = a := by
        rw [← (h.connections b c hc).2, haddress]
        exact of_decide_eq_true heq
      rw [hb, h.unconnected ha'] at hc
      cases hc
    have hquiet := h.quiet a ha'
    rw [sentTo_append houtbox, hnone, heardFrom_snoc]
    simp only [List.map_nil, List.sum_nil]
    omega

/-- A request is answered with less than it brought. -/
theorem History.answered (h : History s₀ actions (Run.run step s₀ actions)) {sender : Address}
    {data reply : List UInt8} {now : Nat} {owner : Admission} {request : Nat × List UInt8}
    (haction : action = .datagram sender data now owner) (hrequest : requestOf data = some request)
    (hreply : reply.length ≤ 64)
    (houtbox : s'.outbox = (Run.run step s₀ actions).outbox ++ [(sender, reply)]) (a : Address)
    (ha : ¬ Responded s₀ (actions ++ [action]) a) :
    s'.sentTo a ≤ heardFrom (actions ++ [action]) a := by
  have hquiet := h.quiet a fun hr => ha hr.snoc
  have hlong := requestOf_length hrequest
  rw [sentTo_send houtbox, heardFrom_snoc, haction, ServerAction.bytesFrom]
  split <;> omega

/-- A correct response may be answered at any length. -/
theorem History.responded (h : History s₀ actions (Run.run step s₀ actions)) {sender : Address}
    {p : PendingHandshake} {reply : List UInt8}
    (hresponse : (Run.run step s₀ actions).CorrectResponse action sender p)
    (houtbox : s'.outbox = (Run.run step s₀ actions).outbox ++ [(sender, reply)]) (a : Address)
    (ha : ¬ Responded s₀ (actions ++ [action]) a) :
    s'.sentTo a ≤ heardFrom (actions ++ [action]) a := by
  have hquiet := h.quiet a fun hr => ha hr.snoc
  have hne : sender ≠ a := by
    rintro rfl
    exact ha ⟨actions, action, [], p, rfl, hresponse⟩
  rw [sentTo_send houtbox, if_neg hne, heardFrom_snoc]
  omega

theorem CorrectResponse.silent {s : ConnectionServer} {sender : Address} {p : PendingHandshake}
    (h : s.CorrectResponse action sender p) (a : Address) (c : Nat) (t : List UInt8) :
    ¬ s.Challenges action a c t := by
  obtain ⟨data, now, owner, rfl, hresponse, -⟩ := h
  exact silent_of_type (by rw [(responseOf_some hresponse).1]; decide) a c t

theorem History.step (h : History s₀ actions (Run.run ConnectionServer.step s₀ actions))
    (hstep : Step (Run.run ConnectionServer.step s₀ actions) action s')
    (hs' : s' = Run.run ConnectionServer.step s₀ (actions ++ [action])) :
    History s₀ (actions ++ [action]) s' := by
  cases hstep with
  | tends htends hsilent => exact h.tends htends hsilent
  | full haction hrequest hsilent =>
    refine ⟨fun a p hp => (h.pending a p hp).snoc (hsilent a), fun a c hc => ?_, ?_⟩
    · exact ⟨(h.connections a c hc).1.snoc rfl, (h.connections a c hc).2⟩
    · exact h.answered haction hrequest ((writeDenied_length _).trans (by decide)) rfl
  | @challenged sender data now owner clientSalt serverSalt startedUs draws token haction hrequest
      hchallenges =>
    refine ⟨fun a p hp => ?_, fun a c hc => ?_, ?_⟩
    · simp only [sendChallenge, send, Table.lookup_insert] at hp
      split at hp
      next hsender =>
        cases hp
        subst hsender
        refine ⟨actions, action, [], rfl, hchallenges, ?_, fun middle later rest hsplit => ?_⟩
        · rw [← hs']
          rfl
        · exact absurd hsplit (by simp)
      next hsender =>
        refine (h.pending a p hp).snoc ?_
        rintro c t ⟨_, _, _, haction', -, -, -⟩
        rw [haction] at haction'
        cases haction'
        exact hsender rfl
    · exact ⟨(h.connections a c hc).1.snoc rfl, (h.connections a c hc).2⟩
    · exact h.answered haction hrequest (writeChallenge_length _ _) rfl
  | denied hadmits hnew hresponse =>
    refine ⟨fun a p hp => ?_, fun a c hc => ?_, h.responded hresponse rfl⟩
    · exact (h.pending a p (Table.lookup_erase_some hp).2).snoc (hresponse.silent a)
    · exact ⟨(h.connections a c hc).1.snoc rfl, (h.connections a c hc).2⟩
  | @opened sender p clientId entity now next hadmits hnew hresponse =>
    refine ⟨fun a p hp => ?_, fun a c hc => ?_, h.responded hresponse rfl⟩
    · exact (h.pending a p (Table.lookup_erase_some hp).2).snoc (hresponse.silent a)
    · simp only [openConnection, sendAccepted, send, Table.lookup_insert] at hc
      split at hc
      next hsender =>
        cases hc
        subst hsender
        obtain ⟨_, _, _, _, _, hpending⟩ := id hresponse
        exact ⟨⟨actions, action, [], p, rfl, h.pending _ p hpending, hresponse, rfl, rfl⟩, rfl⟩
      next => exact ⟨(h.connections a c hc).1.snoc rfl, (h.connections a c hc).2⟩

end Steps

theorem history (config : ServerConfig) (rng : Nat → Nat) (actions : List ServerAction) :
    History (start config rng) actions (Run.run step (start config rng) actions) := by
  induction actions using List.reverseRecOn with
  | nil =>
    refine ⟨fun a p hp => ?_, fun a c hc => ?_, fun a _ => Nat.zero_le _⟩
    · exact absurd hp (by simp [start])
    · exact absurd hc (by simp [start])
  | append_singleton actions action ih =>
    refine ih.step ?_ rfl
    rw [Run.run_append]
    exact step_spec _ action

/-- A payload touches the connection of its sender, and only with its salt. -/
theorem handlePayload_foreign {s : ConnectionServer} {a sender : Address} {c : Connection}
    (hc : s.connections.lookup a = some c) {body : List UInt8} {now : Nat}
    (h : ¬ (sender = a ∧ (readSalt body).1 = c.salt)) :
    (s.handlePayload sender body now).1.connections.lookup a = some c := by
  unfold handlePayload
  split
  next => exact hc
  next d hd =>
    dsimp only
    split
    next => exact hc
    next hsalt =>
      rw [not_or, not_not] at hsalt
      have hne : a ≠ sender := by
        rintro rfl
        rw [hc] at hd
        cases hd
        exact h ⟨rfl, hsalt.2⟩
      split
      next => simp only [Table.lookup_insert, if_neg hne, hc]
      next => simp only [Table.lookup_insert, if_neg hne, hc]

theorem handleDisconnect_foreign {s : ConnectionServer} {a sender : Address} {c : Connection}
    (hc : s.connections.lookup a = some c) {body : List UInt8}
    (h : ¬ (sender = a ∧ (readSalt body).1 = c.salt)) :
    (s.handleDisconnect sender body).connections.lookup a = some c := by
  unfold handleDisconnect
  split
  next => exact hc
  next d hd =>
    split
    next hsalt =>
      have hne : a ≠ sender := by
        rintro rfl
        rw [hc] at hd
        cases hd
        exact h ⟨rfl, hsalt.symm⟩
      simp only [removeConnection, hd, Table.lookup_erase, if_neg hne, hc]
    next => exact hc

/-- In every run: a connection has a handshake behind it, payloads and disconnects touch it
only from its address and with its salt, and an address that never answered a challenge
was sent no more than it sent. -/
theorem handshake_safety (config : ServerConfig) (rng : Nat → Nat) (actions : List ServerAction) :
    let s₀ := start config rng
    let s := Run.run step s₀ actions
    (∀ a c, s.connections.lookup a = some c → Earned s₀ actions a c) ∧
    (∀ a c, s.connections.lookup a = some c → ∀ sender data now owner,
      (readHeader data = some .payload ∨ readHeader data = some .disconnect) →
      (s.step (.datagram sender data now owner)).connections.lookup a ≠ some c →
        sender = a ∧ (readSalt (data.drop kHeaderBytes)).1 = c.salt) ∧
    (∀ a, ¬ Responded s₀ actions a → s.sentTo a ≤ heardFrom actions a) := by
  intro s₀ s
  have hhistory := history config rng actions
  refine ⟨fun a c hc => (hhistory.connections a c hc).1, ?_, hhistory.quiet⟩
  intro a c hc sender data now owner htype haffected
  by_contra hforeign
  refine haffected ?_
  rcases htype with htype | htype
  · simp only [step, receiveDatagram, htype]
    exact handlePayload_foreign hc hforeign
  · simp only [step, receiveDatagram, htype]
    exact handleDisconnect_foreign hc hforeign

end ConnectionServer
end Morton.Net
