import Morton.Base.Run
import Morton.Net.ReliabilitySpec

/-! Two endpoints and the network between them. Every packet a side returned from
`write_packet` stays in its log, and a read picks any of them at any time, so a
run drops, duplicates, delays and reorders packets freely. -/
namespace Morton.Net
open Proto

inductive Side
  | a
  | b
  deriving DecidableEq

def Side.other : Side → Side
  | a => b
  | b => a

/-- A packet in the network, with what is known of the moment it was written: its
unwrapped sequence, how many messages had been accepted, and the newest position
its writer had received. -/
structure Sent where
  position : Nat
  queued : Nat
  heard : Option Nat
  bytes : List UInt8
  deriving DecidableEq

/-- An endpoint and its history: what `queue_reliable` accepted, what `read_packet`
appended to `out_messages`, and the packets written and taken in. -/
structure Peer where
  endpoint : ReliableEndpoint := {}
  accepted : List ReliableMessage := []
  delivered : List ReliableMessage := []
  written : Nat := 0
  log : List Sent := []
  taken : List Sent := []

namespace Peer

/-- The newest position received from the other side. -/
def newest (p : Peer) : Option Nat := (p.taken.map Sent.position).max?

def queue (p : Peer) (channel : UInt8) (data : List UInt8) : Peer :=
  { p with
    endpoint := p.endpoint.queueReliable channel data
    accepted := p.accepted ++
      if data.length = 0 ∨ kMaxReliableMessageSize < data.length then []
      else [{ id := p.endpoint.nextMessageId, channel, payload := data }] }

def write (p : Peer) (out : Nat → UInt8) (capacity : Nat) (unreliable : List UInt8)
    (nowUs : Nat) : Peer :=
  let (e, packet) := p.endpoint.writePacket out capacity unreliable nowUs
  { p with
    endpoint := e
    written := p.written + 1
    log := p.log ++ packet.toList.map fun bytes =>
      { position := p.written, queued := p.accepted.length, heard := p.newest, bytes } }

def read (p : Peer) (sent : Sent) (nowUs : Nat) : Peer :=
  match p.endpoint.readPacket (BitReader.view sent.bytes) sent.bytes.length nowUs with
  | (e, none) => { p with endpoint := e }
  | (e, some (_, out)) =>
    { p with endpoint := e, delivered := p.delivered ++ out, taken := p.taken ++ [sent] }

def update (p : Peer) : Peer := { p with endpoint := p.endpoint.update }

section
variable (p : Peer)

theorem write_accepted (out : Nat → UInt8) (capacity : Nat) (unreliable : List UInt8)
    (nowUs : Nat) : (p.write out capacity unreliable nowUs).accepted = p.accepted := by
  rw [write]

theorem read_accepted (sent : Sent) (nowUs : Nat) :
    (p.read sent nowUs).accepted = p.accepted := by
  rw [read]
  split
  · rfl
  · rfl

theorem update_accepted : p.update.accepted = p.accepted := by
  unfold update
  -- with the endpoint in place the kernel compares two whole endpoints first
  generalize p.endpoint.update = e
  rfl

end

end Peer

inductive LinkAction
  | queue (side : Side) (channel : UInt8) (data : List UInt8)
  | write (side : Side) (out : Nat → UInt8) (capacity : Nat) (unreliable : List UInt8)
      (nowUs : Nat)
  | read (side : Side) (index nowUs : Nat)
  | update (side : Side)

abbrev Link : Type := Side → Peer

namespace Link

def start : Link := fun _ => {}

def step (l : Link) : LinkAction → Link
  | .queue side channel data => Function.update l side ((l side).queue channel data)
  | .write side out capacity unreliable nowUs =>
    Function.update l side ((l side).write out capacity unreliable nowUs)
  | .read side index nowUs =>
    match (l side.other).log[index]? with
    | none => l
    | some sent => Function.update l side ((l side).read sent nowUs)
  | .update side => Function.update l side (l side).update

end Link

/-- The bytes encode a packet all of whose messages were accepted. -/
def Carries (accepted : List ReliableMessage) (bytes : List UInt8) : Prop :=
  ∃ packet : Packet, packet.Fits ∧ packet.Encodes bytes ∧
    ∀ m ∈ packet.messages, ∃ k : Nat, accepted[k]? = some m.onWire

/-- What a side that only calls the endpoint's operations can rely on. -/
structure Peer.Honest (p : Peer) : Prop where
  sound : p.endpoint.Sound
  numbered : ReliableEndpoint.Numbered p.accepted
  nextId : p.endpoint.nextMessageId = p.accepted.length % 65536
  queue : ∀ m ∈ p.endpoint.unacked, ∃ k : Nat, p.accepted[k]? = some m.onWire
  log : ∀ sent ∈ p.log, Carries p.accepted sent.bytes

theorem Peer.honest_new : ({} : Peer).Honest :=
  ⟨ReliableEndpoint.sound_new, by simp [ReliableEndpoint.Numbered], rfl, by simp, by simp⟩

theorem getElem?_append_some {α : Type} {xs : List α} {k : Nat} {x : α} (h : xs[k]? = some x)
    (ys : List α) : (xs ++ ys)[k]? = some x := by
  obtain ⟨hk, _⟩ := List.getElem?_eq_some_iff.mp h
  rw [List.getElem?_append_left hk, h]

theorem Carries.mono {accepted : List ReliableMessage} {bytes : List UInt8}
    (h : Carries accepted bytes) (more : List ReliableMessage) :
    Carries (accepted ++ more) bytes := by
  obtain ⟨packet, hfits, henc, hms⟩ := h
  refine ⟨packet, hfits, henc, fun m hm => ?_⟩
  obtain ⟨k, hk⟩ := hms m hm
  exact ⟨k, getElem?_append_some hk more⟩

/-- An accepted message goes to the end of the deque under the next id. -/
theorem Peer.queue_cases (p : Peer) (channel : UInt8) (data : List UInt8) :
    p.queue channel data = p ∨
    (0 < data.length ∧ data.length ≤ kMaxReliableMessageSize) ∧ p.queue channel data =
      { p with
        endpoint := { p.endpoint with
          nextMessageId := (p.endpoint.nextMessageId + 1) % 65536
          unacked := p.endpoint.unacked ++
            [{ id := p.endpoint.nextMessageId, channel, payload := data }] }
        accepted := p.accepted ++
          [{ id := p.endpoint.nextMessageId, channel, payload := data }] } := by
  rw [Peer.queue, ReliableEndpoint.queueReliable]
  split
  next => exact Or.inl (by rw [List.append_nil])
  next hsize => exact Or.inr ⟨by omega, rfl⟩

theorem Peer.Honest.queue_step {p : Peer} (h : p.Honest) (channel : UInt8) (data : List UInt8) :
    (p.queue channel data).Honest := by
  rcases p.queue_cases channel data with heq | ⟨⟨-, hsize⟩, heq⟩
  · rwa [heq]
  · rw [heq]
    refine ⟨⟨h.sound.sequence, Nat.mod_lt _ (by omega), h.sound.highest, fun m hm => ?_⟩,
      fun k m hm => ?_, ?_, fun m hm => ?_, fun sent hsent => (h.log sent hsent).mono _⟩
    · rcases List.mem_append.mp hm with hm | hm
      · exact h.sound.queue m hm
      · rw [List.mem_singleton.mp hm]
        exact ⟨h.sound.nextId, hsize⟩
    · rw [List.getElem?_append] at hm
      split at hm
      · exact h.numbered k m hm
      next hk =>
        obtain ⟨hlast, rfl⟩ := List.getElem?_eq_some_iff.mp hm
        rw [List.length_singleton] at hlast
        rw [List.getElem_singleton, show k = p.accepted.length by omega]
        exact h.nextId
    · simp [h.nextId]
    · rcases List.mem_append.mp hm with hm | hm
      · obtain ⟨k, hk⟩ := h.queue m hm
        exact ⟨k, getElem?_append_some hk _⟩
      · rw [List.mem_singleton.mp hm]
        exact ⟨p.accepted.length, by simp [ReliableMessage.onWire]⟩

theorem Peer.Honest.write_step {p : Peer} (h : p.Honest) (out : Nat → UInt8) (capacity : Nat)
    (unreliable : List UInt8) (nowUs : Nat) :
    (p.write out capacity unreliable nowUs).Honest := by
  rw [Peer.write]
  rcases p.endpoint.writePacket_cases out capacity unreliable nowUs with
    ⟨-, heq⟩ | ⟨sent, count, record, stats, packet, -, hcount, -, -, heq, henc⟩
  · rw [heq]
    refine ⟨⟨Nat.mod_lt _ (by omega), h.sound.nextId, h.sound.highest, h.sound.queue⟩,
      h.numbered, h.nextId, h.queue, ?_⟩
    simpa using h.log
  · rw [heq]
    have hqueue : ∀ m ∈ (p.endpoint.unacked.take count).map ReliableEndpoint.markSent ++
        p.endpoint.unacked.drop count,
        ∃ x ∈ p.endpoint.unacked, m.id = x.id ∧ m.payload = x.payload ∧ m.onWire = x.onWire := by
      intro m hm
      rcases List.mem_append.mp hm with hm | hm
      · obtain ⟨x, hx, rfl⟩ := List.mem_map.mp hm
        exact ⟨x, List.mem_of_mem_take hx, rfl, rfl, rfl⟩
      · exact ⟨m, List.mem_of_mem_drop hm, rfl, rfl, rfl⟩
    refine ⟨⟨Nat.mod_lt _ (by omega), h.sound.nextId, h.sound.highest, fun m hm => ?_⟩,
      h.numbered, h.nextId, fun m hm => ?_, fun s hs => ?_⟩
    · obtain ⟨x, hx, hid, hpayload, -⟩ := hqueue m hm
      rw [hid, hpayload]
      exact h.sound.queue x hx
    · obtain ⟨x, hx, -, -, hwire⟩ := hqueue m hm
      rw [hwire]
      exact h.queue x hx
    · rcases List.mem_append.mp hs with hs | hs
      · exact h.log s hs
      · obtain ⟨bytes, hbytes, rfl⟩ := List.mem_map.mp hs
        refine ⟨p.endpoint.outgoing (p.endpoint.unacked.take count) unreliable,
          ReliableEndpoint.outgoing_fits h.sound hcount unreliable,
          henc bytes (Option.mem_toList.mp hbytes) h.sound, fun m hm => ?_⟩
        exact h.queue m (List.mem_of_mem_take hm)

/-- Reading a logged packet is absorbing the packet it encodes. -/
theorem Peer.read_encoded {packet : Packet} {sent : Sent} (hfits : packet.Fits)
    (henc : packet.Encodes sent.bytes) (p : Peer) (nowUs : Nat) :
    p.read sent nowUs =
      match p.endpoint.absorb packet sent.bytes.length nowUs with
      | (e, none) => { p with endpoint := e }
      | (e, some out) =>
        { p with endpoint := e, delivered := p.delivered ++ out, taken := p.taken ++ [sent] } := by
  obtain ⟨h₁, h₂⟩ := ReliableEndpoint.readPacket_encoded hfits henc p.endpoint nowUs
  rw [Peer.read]
  generalize p.endpoint.readPacket (BitReader.view sent.bytes) sent.bytes.length nowUs = read
    at h₁ h₂
  generalize p.endpoint.absorb packet sent.bytes.length nowUs = absorbed at h₁ h₂
  obtain ⟨e, result⟩ := read
  obtain ⟨e', result'⟩ := absorbed
  cases result with
  | none =>
    cases h₂
    cases h₁
    rfl
  | some result =>
    cases h₂
    cases h₁
    rfl

theorem Peer.Honest.read_step {p : Peer} (h : p.Honest) {packet : Packet} {sent : Sent}
    (hfits : packet.Fits) (henc : packet.Encodes sent.bytes) (nowUs : Nat) :
    (p.read sent nowUs).Honest := by
  have hkept := p.endpoint.absorb_sending hfits.sequence sent.bytes.length nowUs
  rw [Peer.read_encoded hfits henc]
  generalize p.endpoint.absorb packet sent.bytes.length nowUs = absorbed at hkept ⊢
  obtain ⟨e, result⟩ := absorbed
  have hqueue : ∀ m ∈ e.unacked, ∃ k : Nat, p.accepted[k]? = some m.onWire :=
    fun m hm => h.queue m (hkept.queue.mem hm)
  have hnext : e.nextMessageId = p.accepted.length % 65536 := hkept.nextId.trans h.nextId
  cases result with
  | none => exact ⟨hkept.sound h.sound, h.numbered, hnext, hqueue, h.log⟩
  | some out => exact ⟨hkept.sound h.sound, h.numbered, hnext, hqueue, h.log⟩

theorem Peer.Honest.update_step {p : Peer} (h : p.Honest) : p.update.Honest := by
  obtain ⟨stats, cursor, heq⟩ := p.endpoint.update_frame
  rw [Peer.update, heq]
  exact ⟨⟨h.sound.sequence, h.sound.nextId, h.sound.highest, h.sound.queue⟩, h.numbered, h.nextId,
    h.queue, h.log⟩

namespace Link

/-- Both sides stay honest whatever the network does. -/
theorem honest_step {l : Link} (h : ∀ side, (l side).Honest) (action : LinkAction) (side : Side) :
    (l.step action side).Honest := by
  have hupdate : ∀ (target : Side) (p : Peer), p.Honest →
      (Function.update l target p side).Honest := by
    intro target p hp
    by_cases heq : side = target
    · rw [heq, Function.update_self]
      exact hp
    · rw [Function.update_of_ne heq]
      exact h side
  cases action with
  | queue target channel data => exact hupdate _ _ ((h target).queue_step channel data)
  | write target out capacity unreliable nowUs =>
    exact hupdate _ _ ((h target).write_step out capacity unreliable nowUs)
  | read target index nowUs =>
    cases hsent : (l target.other).log[index]? with
    | none => simpa only [step, hsent] using h side
    | some sent =>
      obtain ⟨packet, hfits, henc, -⟩ := (h target.other).log sent (List.mem_of_getElem? hsent)
      simpa only [step, hsent] using hupdate _ _ ((h target).read_step hfits henc nowUs)
  | update target => exact hupdate _ _ (h target).update_step

/-- The receiver has delivered the first accepted messages and waits for the rest. -/
structure InOrder (sender receiver : Peer) : Prop where
  count : receiver.delivered.length ≤ sender.accepted.length
  delivered : receiver.delivered = sender.accepted.take receiver.delivered.length
  awaits : ReliableEndpoint.Awaits sender.accepted receiver.delivered.length receiver.endpoint

theorem InOrder.accept {sender receiver : Peer} (h : InOrder sender receiver) {sender' : Peer}
    (more : List ReliableMessage) (heq : sender'.accepted = sender.accepted ++ more) :
    InOrder sender' receiver where
  count := by
    rw [heq, List.length_append]
    exact Nat.le_add_right_of_le h.count
  delivered := by
    rw [heq, List.take_append_of_le_length h.count]
    exact h.delivered
  awaits := by
    refine ⟨h.awaits.expected, fun m hm => ?_, h.awaits.distinct⟩
    obtain ⟨k, hk, hm⟩ := h.awaits.entries m hm
    exact ⟨k, hk, heq ▸ getElem?_append_some hm more⟩

/-- Operations that leave the receiving half alone keep the order. -/
theorem InOrder.frame {sender receiver receiver' : Peer} (h : InOrder sender receiver)
    (hdelivered : receiver'.delivered = receiver.delivered)
    (hexpected : receiver'.endpoint.expectedMessageId = receiver.endpoint.expectedMessageId)
    (hbuffer : receiver'.endpoint.reorderBuffer = receiver.endpoint.reorderBuffer) :
    InOrder sender receiver' := by
  refine ⟨hdelivered ▸ h.count, hdelivered ▸ h.delivered, ?_⟩
  rw [hdelivered]
  exact ⟨hexpected ▸ h.awaits.expected, hbuffer ▸ h.awaits.entries, hbuffer ▸ h.awaits.distinct⟩

theorem InOrder.read {sender receiver : Peer} (h : InOrder sender receiver)
    (hsender : sender.Honest) (hshort : sender.accepted.length < 32768) {sent : Sent}
    (hsent : sent ∈ sender.log) (nowUs : Nat) : InOrder sender (receiver.read sent nowUs) := by
  obtain ⟨packet, hfits, henc, hms⟩ := hsender.log sent hsent
  rw [Peer.read_encoded hfits henc]
  rcases ReliableEndpoint.absorb_awaits hsender.numbered hshort h.awaits h.count hms
    sent.bytes.length nowUs with ⟨e, heq, haw⟩ | ⟨e, n, heq, hle, haw⟩
  · rw [heq]
    exact ⟨h.count, h.delivered, haw⟩
  · rw [heq]
    have hlen : (receiver.delivered ++
        (sender.accepted.drop receiver.delivered.length).take n).length =
        receiver.delivered.length + n := by
      rw [List.length_append, List.length_take, List.length_drop]
      omega
    refine ⟨hlen ▸ hle, ?_, hlen ▸ haw⟩
    dsimp only
    rw [hlen, List.take_add, ← h.delivered]

/-- The receiver's order survives every action, its own and the sender's. -/
theorem inOrder_step {l : Link} (hhonest : ∀ side, (l side).Honest) (receiver : Side)
    (h : InOrder (l receiver.other) (l receiver)) (action : LinkAction)
    (hshort : (l receiver.other).accepted.length < 32768) :
    InOrder (l.step action receiver.other) (l.step action receiver) := by
  have hne : receiver.other ≠ receiver := by cases receiver <;> decide
  -- the acting side is the receiver or the sender
  have hside : ∀ target : Side, target = receiver ∨ target = receiver.other := by
    intro target
    cases target <;> cases receiver <;> decide
  cases action with
  | queue target channel data =>
    rcases hside target with rfl | rfl
    · rw [step, Function.update_self, Function.update_of_ne hne]
      rcases (l target).queue_cases channel data with heq | ⟨-, heq⟩
      · rwa [heq]
      · rw [heq]
        exact h.frame rfl rfl rfl
    · rw [step, Function.update_self, Function.update_of_ne hne.symm]
      exact h.accept _ rfl
  | write target out capacity unreliable nowUs =>
    rcases hside target with rfl | rfl
    · rw [step, Function.update_self, Function.update_of_ne hne, Peer.write]
      rcases (l target).endpoint.writePacket_cases out capacity unreliable nowUs with
        ⟨-, heq⟩ | ⟨sent, count, record, stats, packet, -, -, -, -, heq, -⟩
      · rw [heq]
        exact h.frame rfl rfl rfl
      · rw [heq]
        exact h.frame rfl rfl rfl
    · rw [step, Function.update_self, Function.update_of_ne hne.symm]
      apply h.accept []
      rw [Peer.write_accepted, List.append_nil]
  | read target index nowUs =>
    cases hsent : (l target.other).log[index]? with
    | none => simpa only [step, hsent] using h
    | some sent =>
      have hmem := List.mem_of_getElem? hsent
      simp only [step, hsent]
      rcases hside target with rfl | rfl
      · rw [Function.update_self, Function.update_of_ne hne]
        exact h.read (hhonest _) hshort hmem nowUs
      · rw [Function.update_self, Function.update_of_ne hne.symm]
        apply h.accept []
        rw [Peer.read_accepted, List.append_nil]
  | update target =>
    rcases hside target with rfl | rfl
    · rw [step, Function.update_self, Function.update_of_ne hne, Peer.update]
      obtain ⟨stats, cursor, heq⟩ := (l target).endpoint.update_frame
      rw [heq]
      exact h.frame rfl rfl rfl
    · rw [step, Function.update_self, Function.update_of_ne hne.symm]
      apply h.accept []
      rw [Peer.update_accepted, List.append_nil]

/-- No step shortens what a side accepted. -/
theorem accepted_mono (side : Side) (l : Link) (action : LinkAction) :
    (l side).accepted.length ≤ (l.step action side).accepted.length := by
  have hupdate : ∀ (target : Side) (p : Peer), (l target).accepted.length ≤ p.accepted.length →
      (l side).accepted.length ≤ (Function.update l target p side).accepted.length := by
    intro target p hp
    by_cases heq : side = target
    · rw [heq, Function.update_self]
      exact hp
    · rw [Function.update_of_ne heq]
  cases action with
  | queue target channel data => exact hupdate _ _ (by simp [Peer.queue])
  | write target out capacity unreliable nowUs => exact hupdate _ _ (by rw [Peer.write_accepted])
  | read target index nowUs =>
    cases hsent : (l target.other).log[index]? with
    | none => simp [step, hsent]
    | some sent =>
      simp only [step, hsent]
      exact hupdate _ _ (by rw [Peer.read_accepted])
  | update target => exact hupdate _ _ (by rw [Peer.update_accepted])

/-- While the sender accepts fewer than `2^15` messages, what the receiver has
appended is at every moment the beginning of what the sender accepted. -/
theorem delivered_isPrefix_accepted (actions : List LinkAction)
    (hshort : (Run.run step start actions .a).accepted.length < 2 ^ 15) :
    (Run.run step start actions .b).delivered.map (fun m => (m.channel, m.payload)) <+:
      (Run.run step start actions .a).accepted.map fun m => (m.channel, m.payload) := by
  have halong := Run.along_of_measure (fun l : Link => (l .a).accepted.length)
    (accepted_mono .a) hshort
  have hstart : (∀ side, (start side).Honest) ∧ InOrder (start .a) (start .b) :=
    ⟨fun _ => Peer.honest_new, Nat.le_refl 0, rfl, rfl, by simp [start], by simp [start]⟩
  obtain ⟨-, hinv⟩ := Run.invariant
    (fun l : Link => (∀ side, (l side).Honest) ∧ InOrder (l .a) (l .b))
    (fun l action hok h => ⟨honest_step h.1 action,
      inOrder_step h.1 .b h.2 action (Nat.lt_of_le_of_lt (accepted_mono .a l action) hok)⟩)
    hstart halong
  rw [hinv.delivered]
  exact (List.take_prefix _ _).map _

/-- The packet with two messages is lost. The next two carry them again with a third
message, arrive in the other order, and one of them arrives twice. -/
def crossing : List LinkAction :=
  [.queue .a 1 (List.replicate 48 7), .queue .a 2 (List.replicate 20 8),
    .write .a (fun _ => 0) 256 [] 0, .queue .a 1 [9, 10, 11], .write .a (fun _ => 0) 256 [1, 2] 0,
    .write .a (fun _ => 0) 256 [3] 0, .read .b 2 0, .read .b 1 0, .read .b 2 0]

theorem delivered_isPrefix_accepted_crossing :
    (Run.run step start crossing .b).delivered.map (fun m => (m.channel, m.payload)) =
      [(1, List.replicate 48 7), (2, List.replicate 20 8), (1, [9, 10, 11])] ∧
    (Run.run step start crossing .b).delivered.map (fun m => (m.channel, m.payload)) <+:
      (Run.run step start crossing .a).accepted.map fun m => (m.channel, m.payload) :=
  ⟨by decide +kernel, delivered_isPrefix_accepted crossing (by decide +kernel)⟩

end Link
end Morton.Net
