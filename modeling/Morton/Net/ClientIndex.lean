import Morton.Net.Handshake

/-! `by_client_` and `connections_` are each other's inverse, whatever a server does to its
connections. -/
namespace Morton.Net.ConnectionServer
open Proto

structure Indexed (s : ConnectionServer) : Prop where
  address : ∀ a c, s.connections.lookup a = some c → c.address = a
  forward : ∀ a c, s.connections.lookup a = some c → s.byClient.lookup c.clientId = some a
  backward : ∀ client a, s.byClient.lookup client = some a →
    ∃ c, s.connections.lookup a = some c ∧ c.clientId = client

/-- The server has the same connections, whatever has become of them. -/
structure Keeps (s s' : ConnectionServer) : Prop where
  byClient : s'.byClient = s.byClient
  connections : ∀ a, (s'.connections.lookup a).map Connection.identity =
    (s.connections.lookup a).map Connection.identity

theorem Keeps.refl (s : ConnectionServer) : Keeps s s := ⟨rfl, fun _ => rfl⟩

theorem Keeps.trans {s s' s'' : ConnectionServer} (h : Keeps s s') (h' : Keeps s' s'') :
    Keeps s s'' :=
  ⟨h'.byClient.trans h.byClient, fun a => (h'.connections a).trans (h.connections a)⟩

theorem Keeps.lookup {s s' : ConnectionServer} (h : Keeps s s') {a : Address} {c' : Connection}
    (hc' : s'.connections.lookup a = some c') :
    ∃ c, s.connections.lookup a = some c ∧ c'.identity = c.identity := by
  have hsame := h.connections a
  rw [hc', Option.map_some] at hsame
  obtain ⟨c, hc, hid⟩ := Option.map_eq_some_iff.mp hsame.symm
  exact ⟨c, hc, hid.symm⟩

theorem Keeps.symm {s s' : ConnectionServer} (h : Keeps s s') : Keeps s' s :=
  ⟨h.byClient.symm, fun a => (h.connections a).symm⟩

theorem Keeps.lookup_none {s s' : ConnectionServer} (h : Keeps s s') {a : Address}
    (hnone : s.connections.lookup a = none) : s'.connections.lookup a = none := by
  cases hc' : s'.connections.lookup a with
  | none => rfl
  | some c' =>
    obtain ⟨c, hc, -⟩ := h.lookup hc'
    cases hnone.symm.trans hc

theorem Indexed.keeps {s s' : ConnectionServer} (h : s.Indexed) (hkeeps : Keeps s s') :
    s'.Indexed where
  address a c' hc' := by
    obtain ⟨c, hc, hid⟩ := hkeeps.lookup hc'
    exact (congrArg (fun id => id.2.1) hid).trans (h.address a c hc)
  forward a c' hc' := by
    obtain ⟨c, hc, hid⟩ := hkeeps.lookup hc'
    have hclient : c'.clientId = c.clientId := congrArg Prod.fst hid
    rw [hkeeps.byClient, hclient, h.forward a c hc]
  backward client a ha := by
    rw [hkeeps.byClient] at ha
    obtain ⟨c, hc, hclient⟩ := h.backward client a ha
    obtain ⟨c', hc', hid⟩ := hkeeps.symm.lookup hc
    exact ⟨c', hc', (congrArg Prod.fst hid).symm.trans hclient⟩

/-- A connection rewritten in place. -/
theorem keeps_update {s : ConnectionServer} {a : Address} {c c' : Connection}
    (hc : s.connections.lookup a = some c) (hid : c'.identity = c.identity) :
    Keeps s { s with connections := s.connections.insert a c' } := by
  refine ⟨rfl, fun b => ?_⟩
  rw [Table.lookup_insert]
  split
  · rw [‹b = a›, hc, Option.map_some, Option.map_some, hid]
  · rfl

theorem keeps_of_tables {s s' : ConnectionServer} (hclients : s'.byClient = s.byClient)
    (hconnections : s'.connections = s.connections) : Keeps s s' :=
  ⟨hclients, fun a => by rw [hconnections]⟩

theorem keeps_answerRequest (s : ConnectionServer) (sender : Address) (clientSalt : Nat)
    (token : List UInt8) (now : Nat) : Keeps s (s.answerRequest sender clientSalt token now) := by
  unfold answerRequest
  split
  · exact keeps_of_tables rfl rfl
  · split
    · exact keeps_of_tables rfl rfl
    · dsimp only
      split
      · exact keeps_of_tables rfl rfl
      · exact keeps_of_tables rfl rfl

theorem keeps_handleConnectionRequest (s : ConnectionServer) (sender : Address)
    (body : List UInt8) (now : Nat) : Keeps s (s.handleConnectionRequest sender body now) := by
  unfold handleConnectionRequest
  split
  · exact Keeps.refl s
  · dsimp only
    split
    · exact Keeps.refl s
    · exact keeps_answerRequest s sender _ _ now

theorem keeps_handlePayload (s : ConnectionServer) (sender : Address) (body : List UInt8)
    (now : Nat) : Keeps s (s.handlePayload sender body now).1 := by
  unfold handlePayload
  split
  · exact Keeps.refl s
  · rename_i c hc
    dsimp only
    split
    · exact Keeps.refl s
    · split
      · exact keeps_update hc rfl
      · exact keeps_update hc rfl

theorem keeps_sendPayload (s : ConnectionServer) (a : Address) (data : List UInt8) (now : Nat) :
    Keeps s (s.sendPayload a data now) := by
  unfold sendPayload
  split
  · exact Keeps.refl s
  · rename_i c hc
    split
    · exact keeps_update hc rfl
    · refine Keeps.trans (keeps_update hc ?_) (keeps_of_tables rfl rfl)
      rfl

theorem keeps_flush (s : ConnectionServer) (now : Nat) (order : List Address) :
    Keeps s (s.flush now order) := by
  unfold flush
  induction order generalizing s with
  | nil => exact Keeps.refl s
  | cons a order ih =>
    refine Keeps.trans ?_ (ih (flushOne now s a))
    unfold flushOne
    split
    · exact Keeps.refl s
    · rename_i c hc
      have hupdate := keeps_update hc (c.identity_reliability c.reliability.update)
      dsimp only
      split
      · exact hupdate.trans (keeps_sendPayload _ _ _ _)
      · exact hupdate

theorem keeps_queueReliable (s : ConnectionServer) (a : Address) (channel : UInt8)
    (data : List UInt8) : Keeps s (s.queueReliable a channel data) := by
  unfold queueReliable
  split
  · exact Keeps.refl s
  · rename_i c hc
    exact keeps_update hc rfl

/-- A connection goes from both tables. -/
theorem Indexed.removeConnection {s : ConnectionServer} (h : s.Indexed) {a : Address}
    {c : Connection} (hc : s.connections.lookup a = some c) :
    (s.removeConnection a).Indexed ∧
    (s.removeConnection a).byClient = s.byClient.erase c.clientId := by
  have hclient := h.forward a c hc
  simp only [ConnectionServer.removeConnection, hc]
  refine ⟨⟨fun b d hd => ?_, fun b d hd => ?_, fun client b hb => ?_⟩, trivial⟩
  · exact h.address b d (Table.lookup_erase_some hd).2
  · obtain ⟨hne, hd⟩ := Table.lookup_erase_some hd
    have hforward := h.forward b d hd
    rw [Table.lookup_erase, if_neg]
    · exact hforward
    · intro hsame
      rw [hsame, hclient] at hforward
      exact hne (Option.some.inj hforward).symm
  · obtain ⟨hne, hb⟩ := Table.lookup_erase_some hb
    obtain ⟨d, hd, hid⟩ := h.backward client b hb
    refine ⟨d, ?_, hid⟩
    rw [Table.lookup_erase, if_neg]
    · exact hd
    · rintro rfl
      cases hc.symm.trans hd
      exact hne hid.symm

/-- `find`, then `disconnect`: the client is gone. -/
theorem Indexed.disconnect {s : ConnectionServer} (h : s.Indexed) (client : Nat) :
    (s.disconnect client).Indexed ∧
    (s.disconnect client).byClient = s.byClient.erase client := by
  cases hlookup : s.byClient.lookup client with
  | none =>
    have herase : s.byClient.erase client = s.byClient := by
      refine Finmap.ext_lookup fun other => ?_
      rw [Table.lookup_erase]
      split
      · rw [‹other = client›, hlookup]
      · rfl
    simp only [ConnectionServer.disconnect, hlookup, Option.bind_none, herase]
    exact ⟨h, trivial⟩
  | some a =>
    obtain ⟨c, hc, hclient⟩ := h.backward client a hlookup
    simp only [ConnectionServer.disconnect, hlookup, Option.bind_some, hc, h.address a c hc]
    have hsent : Keeps s (((s.send a (writeDisconnect c.salt)).send a
        (writeDisconnect c.salt)).send a (writeDisconnect c.salt)) := keeps_of_tables rfl rfl
    have hremoved := (h.keeps hsent).removeConnection hc
    rw [hclient] at hremoved
    exact hremoved

theorem keys_erase (t : Table Nat Address) (client : Nat) :
    (t.erase client).keys = t.keys.erase client := by
  ext other
  rw [Finset.mem_erase, Table.mem_keys_iff, Table.mem_keys_iff, Table.lookup_erase]
  split <;> simp_all

/-- Several clients are disconnected, one after the other. -/
theorem Indexed.disconnect_all {s : ConnectionServer} (h : s.Indexed) (clients : List Nat) :
    (clients.foldl ConnectionServer.disconnect s).Indexed ∧
    (clients.foldl ConnectionServer.disconnect s).byClient.keys =
      s.byClient.keys \ clients.toFinset := by
  induction clients generalizing s with
  | nil => exact ⟨h, by simp⟩
  | cons client clients ih =>
    obtain ⟨hindexed, herased⟩ := h.disconnect client
    obtain ⟨hall, hkeys⟩ := ih hindexed
    refine ⟨hall, ?_⟩
    rw [List.foldl_cons, hkeys, herased, keys_erase, List.toFinset_cons]
    ext other
    simp only [Finset.mem_sdiff, Finset.mem_erase, Finset.mem_insert]
    tauto

theorem disconnect_all_none {s : ConnectionServer} {a : Address}
    (h : s.connections.lookup a = none) (clients : List Nat) :
    (clients.foldl ConnectionServer.disconnect s).connections.lookup a = none := by
  cases hc : (clients.foldl ConnectionServer.disconnect s).connections.lookup a with
  | none => rfl
  | some c =>
    obtain ⟨old, hold, -⟩ := (Tends.foldl tends_disconnect clients s).connections a c hc
    cases h.symm.trans hold

/-- A new connection for an address and a client that have none. -/
theorem Indexed.openConnection {s : ConnectionServer} (h : s.Indexed) {sender : Address}
    (hsender : s.connections.lookup sender = none) {client : Nat}
    (hclient : s.byClient.lookup client = none) (pending : PendingHandshake)
    (xorSalt entity now : Nat) :
    (s.openConnection sender pending xorSalt client entity now).Indexed ∧
    (s.openConnection sender pending xorSalt client entity now).byClient =
      s.byClient.insert client sender := by
  simp only [ConnectionServer.openConnection, sendAccepted, send]
  refine ⟨⟨fun b d hd => ?_, fun b d hd => ?_, fun other b hb => ?_⟩, trivial⟩
  · dsimp only at hd
    rw [Table.lookup_insert] at hd
    split at hd
    · cases hd
      exact (‹b = sender›).symm
    · exact h.address b d hd
  · dsimp only at hd ⊢
    rw [Table.lookup_insert] at hd ⊢
    split at hd
    · cases hd
      rw [if_pos rfl, ‹b = sender›]
    · have hforward := h.forward b d hd
      rw [if_neg]
      · exact hforward
      · rintro rfl
        cases hclient.symm.trans hforward
  · dsimp only at hb ⊢
    rw [Table.lookup_insert] at hb
    split at hb
    · cases hb
      exact ⟨_, Finmap.lookup_insert _, (‹other = client›).symm⟩
    · obtain ⟨d, hd, hid⟩ := h.backward other b hb
      refine ⟨d, ?_, hid⟩
      rw [Table.lookup_insert, if_neg]
      · exact hd
      · rintro rfl
        cases hsender.symm.trans hd

end Morton.Net.ConnectionServer
