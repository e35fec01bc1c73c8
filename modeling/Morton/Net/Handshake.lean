import Morton.Base.Run
import Morton.Net.Connection

/-! What a step of a connection server can do, and what follows for every sequence of
datagrams: who gets a connection, who may touch it, how many there are, and how much is
sent to whom. -/
namespace Morton.Net
open Proto

/-- What of a connection never changes. -/
def Connection.identity (c : Connection) : Nat × Address × Nat × List UInt8 :=
  (c.clientId, c.address, c.salt, c.token)

theorem Connection.identity_reliability (c : Connection) (reliability : ReliableEndpoint) :
    Connection.identity { c with reliability } = c.identity := rfl

/-- The salt and the token of a full-size request with a salt. -/
def requestOf (data : List UInt8) : Option (Nat × List UInt8) :=
  let body := data.drop kHeaderBytes
  let (clientSalt, r) := readSalt body
  let (token, r) := r.readBytes kConnectTokenBytes
  if readHeader data = some .connectionRequest ∧
      8 + kConnectTokenBytes + kConnectionRequestPadding ≤ body.length ∧
      r.overflow = false ∧ clientSalt ≠ 0 then
    some (clientSalt, token)
  else none

/-- The value of a whole response. -/
def responseOf (data : List UInt8) : Option Nat :=
  let (xorSalt, r) := readSalt (data.drop kHeaderBytes)
  if readHeader data = some .challengeResponse ∧ r.overflow = false then some xorSalt else none

/-- The owner lets a correct response in; without a handler it always does. -/
def ServerAction.admits : ServerAction → Bool
  | .datagram _ _ _ owner => (owner.decision.map AdmitDecision.admitted).getD true
  | _ => false

namespace ConnectionServer

/-- The request of `sender` reaches `send_challenge`. -/
def Challenges (s : ConnectionServer) (action : ServerAction) (sender : Address)
    (clientSalt : Nat) (token : List UInt8) : Prop :=
  ∃ data now owner, action = .datagram sender data now owner ∧
    requestOf data = some (clientSalt, token) ∧ s.connections.lookup sender = none ∧
    s.connections.keys.card < s.config.maxConnections

/-- A response of `sender` that equals the xor of the pending pair. -/
def CorrectResponse (s : ConnectionServer) (action : ServerAction) (sender : Address)
    (pending : PendingHandshake) : Prop :=
  ∃ data now owner, action = .datagram sender data now owner ∧
    responseOf data = some (pending.clientSalt ^^^ pending.serverSalt) ∧
    s.pending.lookup sender = some pending

/-- A step in which nobody's handshake moves on: connections are kept up or dropped, and
only connected peers are written to. -/
structure Tends (s s' : ConnectionServer) : Prop where
  connections : ∀ a c', s'.connections.lookup a = some c' →
    ∃ c, s.connections.lookup a = some c ∧ c'.identity = c.identity
  pending : ∀ a p, s'.pending.lookup a = some p → s.pending.lookup a = some p
  outbox : ∃ more, s'.outbox = s.outbox ++ more ∧
    ∀ sent ∈ more, ∃ a c, s.connections.lookup a = some c ∧ c.address = sent.1
  config : s'.config = s.config

theorem Tends.refl (s : ConnectionServer) : Tends s s where
  connections := fun _ c' h => ⟨c', h, rfl⟩
  pending := fun _ _ h => h
  outbox := ⟨[], by simp, by simp⟩
  config := rfl

theorem Tends.trans {s₁ s₂ s₃ : ConnectionServer} (h₁ : Tends s₁ s₂) (h₂ : Tends s₂ s₃) :
    Tends s₁ s₃ where
  connections := by
    intro a c₃ h
    obtain ⟨c₂, hc₂, hid₂⟩ := h₂.connections a c₃ h
    obtain ⟨c₁, hc₁, hid₁⟩ := h₁.connections a c₂ hc₂
    exact ⟨c₁, hc₁, hid₂.trans hid₁⟩
  pending := fun a p h => h₁.pending a p (h₂.pending a p h)
  outbox := by
    obtain ⟨more₁, hout₁, hto₁⟩ := h₁.outbox
    obtain ⟨more₂, hout₂, hto₂⟩ := h₂.outbox
    refine ⟨more₁ ++ more₂, by rw [hout₂, hout₁, List.append_assoc], fun sent hsent => ?_⟩
    rcases List.mem_append.mp hsent with hsent | hsent
    · exact hto₁ sent hsent
    · obtain ⟨a, c₂, hc₂, haddress⟩ := hto₂ sent hsent
      obtain ⟨c₁, hc₁, hid⟩ := h₁.connections a c₂ hc₂
      have hsame : c₂.address = c₁.address := congrArg (fun id => id.2.1) hid
      exact ⟨a, c₁, hc₁, hsame ▸ haddress⟩
  config := h₂.config.trans h₁.config

theorem Tends.foldl {α : Type} {f : ConnectionServer → α → ConnectionServer}
    (h : ∀ s x, Tends s (f s x)) (xs : List α) (s : ConnectionServer) :
    Tends s (xs.foldl f s) := by
  induction xs generalizing s with
  | nil => exact Tends.refl s
  | cons x xs ih => exact (h s x).trans (ih (f s x))

/-- A connection rewritten in place. -/
theorem tends_update {s : ConnectionServer} {a : Address} {c c' : Connection}
    (hc : s.connections.lookup a = some c) (hid : c'.identity = c.identity) :
    Tends s { s with connections := s.connections.insert a c' } where
  connections := by
    intro b d hd
    rw [Table.lookup_insert] at hd
    split at hd
    next hb =>
      cases hd
      exact ⟨c, hb ▸ hc, hid⟩
    next => exact ⟨d, hd, rfl⟩
  pending := fun _ _ h => h
  outbox := ⟨[], by simp, by simp⟩
  config := rfl

theorem tends_send {s : ConnectionServer} {a : Address} {c : Connection}
    (hc : s.connections.lookup a = some c) (data : List UInt8) :
    Tends s (s.send c.address data) where
  connections := fun _ c' h => ⟨c', h, rfl⟩
  pending := fun _ _ h => h
  outbox := ⟨[(c.address, data)], rfl, fun sent hsent => ⟨a, c, hc, by
    rw [List.mem_singleton.mp hsent]⟩⟩
  config := rfl

theorem tends_removeConnection (s : ConnectionServer) (a : Address) :
    Tends s (s.removeConnection a) := by
  unfold removeConnection
  split
  next => exact Tends.refl s
  next =>
    refine ⟨fun b d hd => ?_, fun _ _ h => h, ⟨[], by simp, by simp⟩, rfl⟩
    exact ⟨d, (Table.lookup_erase_some hd).2, rfl⟩

theorem tends_sendPayload (s : ConnectionServer) (a : Address) (data : List UInt8) (now : Nat) :
    Tends s (s.sendPayload a data now) := by
  unfold sendPayload
  split
  next => exact Tends.refl s
  next c hc =>
    split
    next => exact tends_update hc rfl
    next reliability packet _ =>
      let c' : Connection := { c with reliability, lastSendUs := now }
      have hupdate : Tends s { s with connections := s.connections.insert a c' } :=
        tends_update hc rfl
      exact hupdate.trans (tends_send (c := c') (Finmap.lookup_insert _) packet)

theorem tends_flush (s : ConnectionServer) (now : Nat) (order : List Address) :
    Tends s (s.flush now order) := by
  refine Tends.foldl (fun s a => ?_) order s
  unfold flushOne
  split
  next => exact Tends.refl s
  next c hc =>
    have hupdate := tends_update hc (c.identity_reliability c.reliability.update)
    dsimp only
    split
    next => exact hupdate.trans (tends_sendPayload _ _ _ _)
    next => exact hupdate

theorem tends_timeoutConnections (s : ConnectionServer) (now : Nat) (order : List Address) :
    Tends s (s.timeoutConnections now order) :=
  Tends.foldl tends_removeConnection _ s

theorem tends_disconnect (s : ConnectionServer) (clientId : Nat) :
    Tends s (s.disconnect clientId) := by
  unfold disconnect
  split
  next => exact Tends.refl s
  next c hfound =>
    obtain ⟨a, -, hc⟩ := Option.bind_eq_some_iff.mp hfound
    have hthree := ((tends_send hc (writeDisconnect c.salt)).trans
      (tends_send (s := s.send c.address _) hc (writeDisconnect c.salt))).trans
      (tends_send (s := (s.send c.address _).send c.address _) hc (writeDisconnect c.salt))
    exact hthree.trans (tends_removeConnection _ _)

theorem tends_queueReliable (s : ConnectionServer) (a : Address) (channel : UInt8)
    (data : List UInt8) : Tends s (s.queueReliable a channel data) := by
  unfold queueReliable
  split
  next => exact Tends.refl s
  next c hc => exact tends_update hc rfl

theorem tends_expirePending (s : ConnectionServer) (now : Nat) : Tends s (s.expirePending now) where
  connections := fun _ c' h => ⟨c', h, rfl⟩
  pending := by
    intro a p h
    simp only [expirePending, Table.lookup_sift] at h
    exact (Option.filter_eq_some_iff.mp h).1
  outbox := ⟨[], by simp [expirePending], by simp⟩
  config := rfl

theorem tends_handlePayload (s : ConnectionServer) (sender : Address) (body : List UInt8)
    (now : Nat) : Tends s (s.handlePayload sender body now).1 := by
  unfold handlePayload
  split
  next => exact Tends.refl s
  next c hc =>
    dsimp only
    split
    next => exact Tends.refl s
    next =>
      split
      next => exact tends_update hc rfl
      next => exact tends_update hc rfl

theorem tends_handleDisconnect (s : ConnectionServer) (sender : Address) (body : List UInt8) :
    Tends s (s.handleDisconnect sender body) := by
  unfold handleDisconnect
  split
  next => exact Tends.refl s
  next =>
    split
    next => exact tends_removeConnection s sender
    next => exact Tends.refl s

/-- Everything a step can do. A handshake moves on only with a full-size request that is
refused or challenged, or with a correct response that is denied or let in. -/
inductive Step (s : ConnectionServer) (action : ServerAction) : ConnectionServer → Prop
  | tends {s' : ConnectionServer} (h : Tends s s')
      (hsilent : ∀ a c t, ¬ s.Challenges action a c t) : Step s action s'
  | full {sender : Address} {data : List UInt8} {now : Nat} {owner : Admission}
      {request : Nat × List UInt8} (haction : action = .datagram sender data now owner)
      (hrequest : requestOf data = some request)
      (hsilent : ∀ a c t, ¬ s.Challenges action a c t) :
      Step s action (s.sendDenied sender .serverFull)
  | challenged {sender : Address} {data : List UInt8} {now : Nat} {owner : Admission}
      {clientSalt serverSalt startedUs draws : Nat} {token : List UInt8}
      (haction : action = .datagram sender data now owner)
      (hrequest : requestOf data = some (clientSalt, token))
      (hchallenges : s.Challenges action sender clientSalt token) :
      Step s action (sendChallenge
        { s with
          draws
          pending := s.pending.insert sender { clientSalt, serverSalt, token, startedUs } }
        sender clientSalt serverSalt)
  | denied {sender : Address} {pending : PendingHandshake} {reason : DenyReason} {next : Nat}
      (hadmits : action.admits = false) (hnew : s.connections.lookup sender = none)
      (hresponse : s.CorrectResponse action sender pending) :
      Step s action (sendDenied
        { s with nextClientId := next, pending := s.pending.erase sender } sender reason)
  | opened {sender : Address} {pending : PendingHandshake} {clientId entity now next : Nat}
      (hadmits : action.admits = true) (hnew : s.connections.lookup sender = none)
      (hresponse : s.CorrectResponse action sender pending) :
      Step s action (openConnection { s with nextClientId := next } sender pending
        (pending.clientSalt ^^^ pending.serverSalt) clientId entity now)

theorem requestOf_type {data : List UInt8} {request : Nat × List UInt8}
    (h : requestOf data = some request) : readHeader data = some .connectionRequest := by
  unfold requestOf at h
  dsimp only at h
  split at h
  next hcond => exact hcond.1
  next => cases h

theorem silent_of_type {s : ConnectionServer} {sender : Address} {data : List UInt8} {now : Nat}
    {owner : Admission} (h : readHeader data ≠ some .connectionRequest) (a : Address) (c : Nat)
    (t : List UInt8) : ¬ s.Challenges (.datagram sender data now owner) a c t := by
  rintro ⟨_, _, _, haction, hrequest, -, -⟩
  cases haction
  exact h (requestOf_type hrequest)

/-- A request is dropped, or it is whole. -/
theorem handleConnectionRequest_eq (s : ConnectionServer) (sender : Address) (data : List UInt8)
    (now : Nat) (htype : readHeader data = some .connectionRequest) :
    s.handleConnectionRequest sender (data.drop kHeaderBytes) now =
      (requestOf data).elim s fun request => s.answerRequest sender request.1 request.2 now := by
  unfold handleConnectionRequest requestOf
  dsimp only
  by_cases hshort : (data.drop kHeaderBytes).length <
      8 + kConnectTokenBytes + kConnectionRequestPadding
  · rw [if_pos hshort, if_neg]
    · rfl
    · rintro ⟨-, hlong, -, -⟩
      omega
  · rw [if_neg hshort]
    generalize readSalt (data.drop kHeaderBytes) = first
    generalize first.2.readBytes kConnectTokenBytes = second
    by_cases hbad : second.2.overflow = true ∨ first.1 = 0
    · rw [if_pos hbad, if_neg]
      · rfl
      · rintro ⟨-, -, hclean, hsalt⟩
        exact hbad.elim (by rw [hclean]; decide) hsalt
    · rw [if_neg hbad, if_pos]
      · rfl
      · rw [not_or, Bool.not_eq_true] at hbad
        exact ⟨htype, by omega, hbad⟩

theorem answerRequest_spec (s : ConnectionServer) (sender : Address) (data : List UInt8)
    (now : Nat) (owner : Admission) {clientSalt : Nat} {token : List UInt8}
    (hrequest : requestOf data = some (clientSalt, token)) :
    Step s (.datagram sender data now owner) (s.answerRequest sender clientSalt token now) := by
  unfold answerRequest
  cases hconnection : s.connections.lookup sender with
  | some existing =>
    refine .tends (tends_send hconnection _) ?_
    rintro a c t ⟨_, _, _, haction, -, hnone, -⟩
    cases haction
    rw [hconnection] at hnone
    cases hnone
  | none =>
    dsimp only
    split
    next hfull =>
      refine .full rfl hrequest ?_
      rintro a c t ⟨_, _, _, haction, -, -, hroom⟩
      omega
    next hroom =>
      have hchallenges : s.Challenges (.datagram sender data now owner) sender clientSalt token :=
        ⟨data, now, owner, rfl, hrequest, hconnection, by omega⟩
      generalize (s.pending.lookup sender).getD {} = pending
      by_cases hsalt : pending.clientSalt = clientSalt
      · subst hsalt
        simp only [ne_eq, not_true, if_false]
        exact .challenged rfl hrequest hchallenges
      · simp only [ne_eq, hsalt, not_false_iff, if_true]
        exact .challenged rfl hrequest hchallenges

theorem handleConnectionRequest_spec (s : ConnectionServer) (sender : Address)
    (data : List UInt8) (now : Nat) (owner : Admission)
    (htype : readHeader data = some .connectionRequest) :
    Step s (.datagram sender data now owner)
      (s.handleConnectionRequest sender (data.drop kHeaderBytes) now) := by
  rw [handleConnectionRequest_eq s sender data now htype]
  cases hrequest : requestOf data with
  | none =>
    refine .tends (Tends.refl s) ?_
    rintro a c t ⟨_, _, _, haction, hsome, -, -⟩
    cases haction
    rw [hrequest] at hsome
    cases hsome
  | some request => exact answerRequest_spec s sender data now owner hrequest

theorem handleChallengeResponse_spec (s : ConnectionServer) (sender : Address)
    (data : List UInt8) (now : Nat) (owner : Admission)
    (htype : readHeader data = some .challengeResponse) :
    Step s (.datagram sender data now owner)
      (s.handleChallengeResponse sender (data.drop kHeaderBytes) now owner) := by
  have hsilent : ∀ a c t, ¬ s.Challenges (.datagram sender data now owner) a c t :=
    silent_of_type (by rw [htype]; decide)
  unfold handleChallengeResponse
  dsimp only
  split
  next => exact .tends (Tends.refl s) hsilent
  next hwhole =>
    rw [Bool.not_eq_true] at hwhole
    split
    next existing hconnection =>
      split
      next => exact .tends (tends_send hconnection _) hsilent
      next => exact .tends (Tends.refl s) hsilent
    next hnew =>
      split
      next => exact .tends (Tends.refl s) hsilent
      next pending hpending =>
        split
        next => exact .tends (Tends.refl s) hsilent
        next hvalue =>
          rw [not_not] at hvalue
          have hresponse : s.CorrectResponse (.datagram sender data now owner) sender pending := by
            refine ⟨data, now, owner, rfl, ?_, hpending⟩
            simp only [responseOf, htype, hwhole, and_self, if_true, hvalue]
          rw [← hvalue]
          generalize hdecision :
            owner.decision.getD { admitted := true, clientId := s.nextClientId } = decision
          have hadmits : (ServerAction.datagram sender data now owner).admits =
              decision.admitted := by
            rw [← hdecision]
            cases hasked : owner.decision <;> simp [ServerAction.admits, hasked]
          split
          next hno => exact .denied (by simpa [hadmits] using hno) hnew hresponse
          next hyes =>
            have hyes : decision.admitted = true := by simpa using hyes
            split
            next => exact .opened (hadmits.trans hyes) hnew hresponse
            next => exact .opened (hadmits.trans hyes) hnew hresponse

/-- What a step of the server does. -/
theorem step_spec (s : ConnectionServer) (action : ServerAction) :
    Step s action (s.step action) := by
  have hother : (∀ sender data now owner, action ≠ .datagram sender data now owner) →
      ∀ a c t, ¬ s.Challenges action a c t := by
    rintro hne a c t ⟨data, now, owner, haction, -, -, -⟩
    exact hne a data now owner haction
  cases action with
  | datagram sender data now owner =>
    unfold step receiveDatagram
    dsimp only
    cases htype : readHeader data with
    | none => exact .tends (Tends.refl s) (silent_of_type (by rw [htype]; decide))
    | some type =>
      cases type with
      | connectionRequest => exact handleConnectionRequest_spec s sender data now owner htype
      | challenge => exact .tends (Tends.refl s) (silent_of_type (by rw [htype]; decide))
      | challengeResponse => exact handleChallengeResponse_spec s sender data now owner htype
      | connectionAccepted => exact .tends (Tends.refl s) (silent_of_type (by rw [htype]; decide))
      | connectionDenied => exact .tends (Tends.refl s) (silent_of_type (by rw [htype]; decide))
      | payload =>
        exact .tends (tends_handlePayload s sender _ now) (silent_of_type (by rw [htype]; decide))
      | disconnect =>
        exact .tends (tends_handleDisconnect s sender _) (silent_of_type (by rw [htype]; decide))
  | expirePending now => exact .tends (tends_expirePending s now) (hother (by simp))
  | sendPayload a data now => exact .tends (tends_sendPayload s a data now) (hother (by simp))
  | flush now order => exact .tends (tends_flush s now order) (hother (by simp))
  | timeoutConnections now order =>
    exact .tends (tends_timeoutConnections s now order) (hother (by simp))
  | disconnect clientId => exact .tends (tends_disconnect s clientId) (hother (by simp))
  | queueReliable a channel data =>
    exact .tends (tends_queueReliable s a channel data) (hother (by simp))

theorem Tends.card_le {s s' : ConnectionServer} (h : Tends s s') :
    s'.connections.keys.card ≤ s.connections.keys.card := by
  refine Finset.card_le_card fun a ha => ?_
  obtain ⟨c', hc'⟩ := Table.mem_keys_iff.mp ha
  obtain ⟨c, hc, -⟩ := h.connections a c' hc'
  exact Table.mem_keys_iff.mpr ⟨c, hc⟩

theorem responseOf_some {data : List UInt8} {value : Nat} (h : responseOf data = some value) :
    readHeader data = some .challengeResponse ∧
      (readSalt (data.drop kHeaderBytes)).2.overflow = false ∧
      (readSalt (data.drop kHeaderBytes)).1 = value := by
  unfold responseOf at h
  dsimp only at h
  split at h
  next hcond => exact ⟨hcond.1, hcond.2, by simpa using h⟩
  next => cases h

/-- The address whose request the step challenges. -/
def challenges (s : ConnectionServer) : ServerAction → Option Address
  | .datagram sender data _ _ =>
    if (requestOf data).isSome ∧ s.connections.lookup sender = none ∧
        s.connections.keys.card < s.config.maxConnections then some sender
    else none
  | _ => none

/-- The address whose handshake the step completes: one without a connection, whose
response is correct and let in. -/
def opens (s : ConnectionServer) : ServerAction → Option Address
  | .datagram sender data now owner =>
    match s.connections.lookup sender, s.pending.lookup sender with
    | none, some pending =>
      if (ServerAction.datagram sender data now owner).admits = true ∧
          responseOf data = some (pending.clientSalt ^^^ pending.serverSalt) then some sender
      else none
    | _, _ => none
  | _ => none

theorem opens_eq_some {s : ConnectionServer} {action : ServerAction} {sender : Address}
    {pending : PendingHandshake} (hadmits : action.admits = true)
    (hnew : s.connections.lookup sender = none)
    (hresponse : s.CorrectResponse action sender pending) : s.opens action = some sender := by
  obtain ⟨data, now, owner, rfl, hvalue, hpending⟩ := hresponse
  simp [opens, hnew, hpending, hadmits, hvalue]

theorem challenges_eq_some {s : ConnectionServer} {action : ServerAction} {sender : Address}
    {clientSalt : Nat} {token : List UInt8} (h : s.Challenges action sender clientSalt token) :
    s.challenges action = some sender := by
  obtain ⟨data, now, owner, rfl, hrequest, hnew, hroom⟩ := h
  simp [challenges, hrequest, hnew, hroom]

theorem challenges_room {s : ConnectionServer} {action : ServerAction} {sender : Address}
    (h : s.challenges action = some sender) :
    s.connections.keys.card < s.config.maxConnections := by
  unfold challenges at h
  split at h
  · split at h
    next hroom => exact hroom.2.2
    next => cases h
  · cases h

theorem opens_pending {s : ConnectionServer} {action : ServerAction} {sender : Address}
    (h : s.opens action = some sender) : ∃ pending, s.pending.lookup sender = some pending := by
  unfold opens at h
  split at h
  · split at h
    next pending hnew hpending =>
      split at h
      next => exact ⟨pending, Option.some.inj h ▸ hpending⟩
      next => cases h
    next => cases h
  · cases h

/-- A completed handshake adds one connection. -/
theorem card_of_opens {s : ConnectionServer} {action : ServerAction} {sender : Address}
    (h : s.opens action = some sender) :
    (s.step action).connections.keys.card = s.connections.keys.card + 1 := by
  unfold opens at h
  split at h
  next from_ data now owner =>
    split at h
    next pending hnew hpending =>
      split at h
      next hright =>
        obtain ⟨hadmits, hresponse⟩ := hright
        obtain ⟨htype, hwhole, hvalue⟩ := responseOf_some hresponse
        have hdecision : (owner.decision.getD
            { admitted := true, clientId := s.nextClientId }).admitted = true := by
          rw [← hadmits]
          cases hasked : owner.decision <;> simp [ServerAction.admits, hasked]
        have hinsert : ∃ connection,
            (s.step (.datagram from_ data now owner)).connections =
              s.connections.insert from_ connection := by
          simp only [step, receiveDatagram, htype, handleChallengeResponse, hwhole, hnew, hpending,
            hvalue, ne_eq, not_true, if_false, hdecision, Bool.not_true, Bool.false_eq_true]
          split
          next => exact ⟨_, rfl⟩
          next => exact ⟨_, rfl⟩
        obtain ⟨connection, hinsert⟩ := hinsert
        rw [hinsert, Table.keys_insert, Finset.card_insert_of_notMem (Table.notMem_keys hnew)]
      next => cases h
    next => cases h
  next => cases h

/-- Nothing else adds one. -/
theorem card_of_not_opens {s : ConnectionServer} {action : ServerAction}
    (h : s.opens action = none) :
    (s.step action).connections.keys.card ≤ s.connections.keys.card := by
  have hstep := step_spec s action
  generalize s.step action = s' at hstep ⊢
  cases hstep with
  | tends htends => exact htends.card_le
  | full => exact Nat.le_refl _
  | challenged => exact Nat.le_refl _
  | denied => exact Nat.le_refl _
  | opened hadmits hnew hresponse => cases h.symm.trans (opens_eq_some hadmits hnew hresponse)

theorem config_step (s : ConnectionServer) (action : ServerAction) :
    (s.step action).config = s.config := by
  have hstep := step_spec s action
  generalize s.step action = s' at hstep ⊢
  cases hstep with
  | tends htends => exact htends.config
  | full => rfl
  | challenged => rfl
  | denied => rfl
  | opened => rfl

/-- Only a challenge makes an address pending. -/
theorem pending_step {s : ConnectionServer} {action : ServerAction} {sender : Address}
    {pending : PendingHandshake} (h : (s.step action).pending.lookup sender = some pending) :
    s.challenges action = some sender ∨ s.pending.lookup sender = some pending := by
  have hstep := step_spec s action
  generalize s.step action = s' at hstep h
  cases hstep with
  | tends htends => exact Or.inr (htends.pending _ _ h)
  | full => exact Or.inr h
  | @challenged other _ _ _ _ _ _ _ _ _ _ hchallenges =>
    by_cases heq : sender = other
    · exact Or.inl (heq ▸ challenges_eq_some hchallenges)
    · refine Or.inr ?_
      simpa only [sendChallenge, send, Table.lookup_insert, if_neg heq] using h
  | denied => exact Or.inr (Table.lookup_erase_some h).2
  | opened => exact Or.inr (Table.lookup_erase_some h).2

end ConnectionServer

/-- A server, and which addresses have been overtaken: since they were last challenged,
another handshake was completed. -/
structure Doorway where
  server : ConnectionServer
  overtaken : Address → Bool := fun _ => false

namespace Doorway
open ConnectionServer

def step (d : Doorway) (action : ServerAction) : Doorway :=
  { server := d.server.step action
    overtaken :=
      match d.server.opens action, d.server.challenges action with
      | some _, _ => fun _ => true
      | none, some sender => Function.update d.overtaken sender false
      | none, none => d.overtaken }

/-- A handshake that was overtaken is completed only while there is room. -/
def Room (d : Doorway) (action : ServerAction) : Prop :=
  ∀ sender, d.server.opens action = some sender → d.overtaken sender = true →
    d.server.connections.keys.card < d.server.config.maxConnections

def Within (d : Doorway) : Prop :=
  d.server.connections.keys.card ≤ d.server.config.maxConnections

/-- Who is pending and was not overtaken has the room that the check found. -/
def Reserved (d : Doorway) : Prop :=
  ∀ sender pending, d.server.pending.lookup sender = some pending → d.overtaken sender = false →
    d.server.connections.keys.card < d.server.config.maxConnections

theorem reserved_step {d : Doorway} (h : d.Reserved) (action : ServerAction) :
    (d.step action).Reserved := by
  intro sender pending hpending hfirst
  simp only [step, config_step] at hpending hfirst ⊢
  cases hopens : d.server.opens action with
  | some other =>
    rw [hopens] at hfirst
    cases hfirst
  | none =>
    refine (card_of_not_opens hopens).trans_lt ?_
    rw [hopens] at hfirst
    cases hchallenges : d.server.challenges action with
    | none =>
      rw [hchallenges] at hfirst
      rcases pending_step hpending with hnew | hold
      · cases hchallenges.symm.trans hnew
      · exact h sender pending hold hfirst
    | some other =>
      by_cases heq : sender = other
      · exact challenges_room (heq ▸ hchallenges)
      · rw [hchallenges] at hfirst
        dsimp only at hfirst
        rw [Function.update_of_ne heq] at hfirst
        rcases pending_step hpending with hnew | hold
        · exact absurd (Option.some.inj (hchallenges.symm.trans hnew)).symm heq
        · exact h sender pending hold hfirst

theorem within_step_iff {d : Doorway} (h : d.Reserved) (hwithin : d.Within)
    (action : ServerAction) : d.Room action ↔ (d.step action).Within := by
  simp only [Within, step, config_step] at hwithin ⊢
  constructor
  · intro hroom
    cases hopens : d.server.opens action with
    | none => exact (card_of_not_opens hopens).trans hwithin
    | some sender =>
      rw [card_of_opens hopens]
      cases hovertaken : d.overtaken sender with
      | true => exact hroom sender hopens hovertaken
      | false =>
        obtain ⟨pending, hpending⟩ := opens_pending hopens
        exact h sender pending hpending hovertaken
  · intro hnext sender hopens _
    rw [card_of_opens hopens] at hnext
    exact hnext

/-- The limit holds throughout a run exactly when every handshake that is completed after
another one has overtaken it still finds room. -/
theorem connection_limit_iff (config : ServerConfig) (rng : Nat → Nat)
    (actions : List ServerAction) :
    Run.Along ConnectionServer.step (fun s action =>
        (s.step action).connections.keys.card ≤ (s.step action).config.maxConnections)
        (start config rng) actions ↔
      Run.Along step Room { server := start config rng } actions := by
  have hside : Run.Along step (fun _ _ => True) { server := start config rng } actions :=
    Run.along_of_forall _ fun _ _ => trivial
  have hserver : ∀ d action, (step d action).server = d.server.step action := fun _ _ => rfl
  rw [← Run.along_map server hserver (fun s action =>
    (s.step action).connections.keys.card ≤ (s.step action).config.maxConnections)
    { server := start config rng }]
  refine Run.along_exact_given Reserved Within (fun d action _ h => reserved_step h action)
    (fun d action _ hreserved hwithin => within_step_iff hreserved hwithin action) ?_
    (Nat.zero_le _) hside
  rintro sender pending hpending
  cases hpending

end Doorway

/-- A request of salt `salt` with an empty token. -/
def plainRequest (salt : UInt8) : List UInt8 :=
  [0x01, 0x54, 0x52, 0x4d, 1, salt, 0, 0, 0, 0, 0, 0, 0] ++ List.replicate 1032 0

/-- A response of value `value`. -/
def plainResponse (value : UInt8) : List UInt8 :=
  [0x01, 0x54, 0x52, 0x4d, 3, value, 0, 0, 0, 0, 0, 0, 0]

/-- Two clients ask one after the other and answer one after the other. -/
def interleavedHandshakes : List ServerAction :=
  [.datagram { ip := 1, port := 1 } (plainRequest 5) 0 {},
   .datagram { ip := 2, port := 1 } (plainRequest 6) 0 {},
   .datagram { ip := 1, port := 1 } (plainResponse (5 ^^^ 9)) 0 {},
   .datagram { ip := 2, port := 1 } (plainResponse (6 ^^^ 9)) 0 {}]

namespace ConnectionServer

/-- A server for one connection ends up with two. -/
theorem connection_limit_exceeded :
    (Run.run step (start { maxConnections := 1 } fun _ => 9)
      interleavedHandshakes).connections.keys.card = 2 := by
  decide +kernel

end ConnectionServer
end Morton.Net
