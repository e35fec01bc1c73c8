import Mathlib.Algebra.Order.BigOperators.Group.List
import Mathlib.Data.List.TakeWhile
import Morton.Net.Progress

/-! Round trips. Once both sides are in touch and packets arrive, a packet and its answer
release the eight oldest messages, so a backlog drains and all of it is delivered. -/
namespace Morton.Net
open Proto

/-- Any eight consecutive messages fit into one packet, with a byte to spare. -/
def Fitting (capacity : Nat) (queue : List ReliableMessage) : Prop :=
  ∀ i, packedSize 0 ((queue.drop i).take kMaxReliablePerPacket) < capacity

theorem Fitting.suffix {capacity j : Nat} {queue queue' : List ReliableMessage}
    (h : Fitting capacity queue)
    (heq : queue'.map ReliableMessage.onWire = (queue.map ReliableMessage.onWire).drop j) :
    Fitting capacity queue' := by
  intro i
  have hpayload : queue'.map ReliableMessage.payload =
      (queue.map ReliableMessage.payload).drop j := by
    have hmap := congrArg (List.map ReliableMessage.payload) heq
    rwa [List.map_drop, List.map_map, List.map_map] at hmap
  have hsize : packedSize 0 ((queue'.drop i).take kMaxReliablePerPacket) =
      packedSize 0 ((queue.drop (j + i)).take kMaxReliablePerPacket) := by
    apply packedSize_congr
    rw [List.map_take, List.map_drop, hpayload, List.drop_drop, List.map_take, List.map_drop]
  rw [hsize]
  exact h (j + i)

theorem Fitting.room {capacity : Nat} {queue : List ReliableMessage} (h : Fitting capacity queue) :
    11 < capacity := by
  have hend := h queue.length
  rwa [List.drop_length] at hend

theorem packedSize_le_of_sublist {messages messages' : List ReliableMessage}
    (h : messages.Sublist messages') : packedSize 0 messages ≤ packedSize 0 messages' := by
  have hsum := (h.map fun m => 5 + m.payload.length).sum_le_sum fun _ _ => Nat.zero_le _
  unfold packedSize
  omega

theorem packedSize_le_of_mem {messages : List ReliableMessage} {m : ReliableMessage}
    (hm : m ∈ messages) : packedSize 0 [m] ≤ packedSize 0 messages :=
  packedSize_le_of_sublist (List.singleton_sublist.mpr hm)

/-- A deque that fits as a whole. -/
theorem Fitting.of_lt {capacity : Nat} {queue : List ReliableMessage}
    (h : packedSize 0 queue < capacity) : Fitting capacity queue := by
  intro i
  have hsub := (List.take_sublist kMaxReliablePerPacket (queue.drop i)).trans
    (List.drop_sublist i queue)
  exact (packedSize_le_of_sublist hsub).trans_lt h

/-- The oldest messages are counted in. -/
theorem Fitting.count {capacity : Nat} {queue : List ReliableMessage} (h : Fitting capacity queue) :
    singlyFit capacity 0 queue = min kMaxReliablePerPacket queue.length := by
  have hhead := h 0
  rw [List.drop_zero] at hhead
  have hall : ∀ m ∈ queue.take kMaxReliablePerPacket,
      decide (packedSize 0 [m] + 1 ≤ capacity) = true := by
    intro m hm
    have hle := packedSize_le_of_mem hm
    exact decide_eq_true (by omega)
  rw [singlyFit, List.takeWhile_eq_self_iff.mpr hall, List.length_take]

namespace ReliableEndpoint

/-- Erasing the ids of a beginning of the deque leaves the rest. -/
theorem eraseMessages_prefix (messages rest : List ReliableMessage) :
    (messages.map ReliableMessage.id).foldl eraseMessage (messages ++ rest) = rest := by
  induction messages with
  | nil => rfl
  | cons m messages ih =>
    rw [List.map_cons, List.foldl_cons, List.cons_append, eraseMessage,
      List.eraseP_cons_of_pos (by simp)]
    exact ih

/-- A newly acknowledged packet releases its messages. -/
theorem processAcks_releases {e : ReliableEndpoint} {ack bits : Nat} {record : SentPacket}
    (hfind : e.sent.find ack = some record) (hacked : record.acked = false) :
    (e.processAcks ack bits).unacked.Sublist
      (record.messageIds.foldl eraseMessage e.unacked) := by
  have hfirst : (e.onPacketAcked ack).unacked = record.messageIds.foldl eraseMessage e.unacked := by
    rw [onPacketAcked, hfind]
    dsimp only
    rw [if_neg (by simp [hacked])]
  rw [processAcks, ackedSequences, List.foldl_cons, ← hfirst]
  generalize (e.onPacketAcked ack) = e'
  generalize (((List.range 32).filter fun i => bits.testBit i).map fun i => sub16 ack (i + 1)) = more
  induction more generalizing e' with
  | nil => exact List.Sublist.refl _
  | cons s more ih =>
    obtain ⟨sent, unacked, stats, heq, hsub⟩ := e'.onPacketAcked_frame s
    have hrest := ih (e'.onPacketAcked s)
    rw [heq] at hrest
    rw [List.foldl_cons, heq]
    exact hrest.trans hsub

end ReliableEndpoint

section
variable {p q : Peer} {base : Nat} {record : Nat → SentPacket} {first count : Nat → Nat}

/-- A packet without payload takes the eight oldest messages along. -/
structure Departs (p p' : Peer) (s : Sent) : Prop where
  log : p'.log = p.log ++ [s]
  position : s.position = p.written
  heard : s.heard = p.newest
  written : p'.written = p.written + 1
  taken : p'.taken = p.taken
  accepted : p'.accepted = p.accepted
  queue : p'.endpoint.unacked =
    (p.endpoint.unacked.take kMaxReliablePerPacket).map ReliableEndpoint.markSent ++
      p.endpoint.unacked.drop kMaxReliablePerPacket
  record : ∃ found, p'.endpoint.sent.find (p.written % 65536) = some found ∧
    found.acked = false ∧
    found.messageIds = (p.endpoint.unacked.take kMaxReliablePerPacket).map ReliableMessage.id

theorem Outbound.write_fitting (h : Outbound p q base record first count) (hp : p.Honest)
    {capacity : Nat} (hcapacity : capacity + 512 ≤ 2 ^ 29)
    (hfit : Fitting capacity p.endpoint.unacked) (out : Nat → UInt8) (nowUs : Nat) :
    ∃ s, Departs p (p.write out capacity [] nowUs) s := by
  have hroom : 11 + ([] : List UInt8).length ≤ capacity := Nat.le_of_lt hfit.room
  rcases p.endpoint.writePacket_cases out capacity [] nowUs with
    ⟨hnone, -⟩ | ⟨sent, n, value, stats, packet, hinsert, hn, hnew, hids, heq, henc⟩
  · obtain ⟨sent', hsome, -⟩ := h.window.insert default
    rw [h.sequence, hsome] at hnone
    cases hnone
  · obtain ⟨sent', hsome, hwindow⟩ := h.window.insert value
    obtain rfl : sent' = sent := by
      rw [h.sequence, hsome] at hinsert
      exact Option.some.inj hinsert
    obtain ⟨-, hbuilt⟩ := ReliableEndpoint.writePacket_built hcapacity hroom hp.sound hinsert out
      nowUs
    have hcount := hfit.count
    have hhead := hfit 0
    rw [List.drop_zero] at hhead
    have htake : p.endpoint.unacked.take (min kMaxReliablePerPacket p.endpoint.unacked.length) =
        p.endpoint.unacked.take kMaxReliablePerPacket := List.take_eq_take_min.symm
    rw [List.length_nil, hcount, htake, if_pos (Nat.le_of_lt hhead), heq] at hbuilt
    obtain ⟨bytes, hbytes, -, hmessages⟩ := hbuilt
    have hencoded := ReliableEndpoint.packetMessages_encoded
      (ReliableEndpoint.outgoing_fits hp.sound hn []) (henc bytes hbytes hp.sound)
    -- the messages written are those that were counted
    have hlength := congrArg List.length (hencoded.symm.trans hmessages)
    simp only [ReliableEndpoint.outgoing, List.length_map, List.length_take] at hlength
    have hsame : p.endpoint.unacked.take n = p.endpoint.unacked.take kMaxReliablePerPacket := by
      rw [List.take_eq_take_iff]
      exact hlength
    have hrest : p.endpoint.unacked.drop n = p.endpoint.unacked.drop kMaxReliablePerPacket := by
      rw [← List.append_cancel_left_eq (p.endpoint.unacked.take n), List.take_append_drop, hsame,
        List.take_append_drop]
    refine ⟨{ position := p.written, queued := p.accepted.length, heard := p.newest, bytes }, ?_⟩
    rw [Peer.write, heq]
    dsimp only at hbytes
    refine ⟨by rw [hbytes]; rfl, rfl, rfl, rfl, rfl, rfl, by rw [← hsame, ← hrest], value, ?_, hnew,
      by rw [hids, hsame]⟩
    have hfind := hwindow.find_mem (k := p.written) (Nat.lt_succ_self _) (by
      unfold kAckWindowSize
      omega)
    rw [Function.update_self] at hfind
    rw [← hfind, h.sequence]

/-- A packet newer than everything received is taken in. -/
theorem Inbound.absorb_new (h : Inbound q) {packet : Packet} {position : Nat}
    (hseq : packet.sequence = position % 65536)
    (hnew : ∀ top ∈ q.newest, top < position ∧ position < top + 2 ^ 15) (size nowUs : Nat) :
    ∃ e out, q.endpoint.absorb packet size nowUs = (e, some out) := by
  have hfresh : q.endpoint.received.contains packet.sequence = false ∧
      ∃ received, q.endpoint.received.insert packet.sequence = some received := by
    rw [hseq, SequenceBuffer.contains_eq_isSome]
    rcases h with ⟨-, -, hlatest, hkeys⟩ | ⟨top, m, hnewest, -, -, htracks, -⟩
    · constructor
      · rw [SequenceBuffer.find, hkeys, if_neg (by unfold kEmpty; omega)]
        rfl
      · obtain ⟨received, hinsert, -⟩ := SequenceBuffer.insert_first window_dvd
          (p := position) hlatest hkeys
        exact ⟨received, hinsert⟩
    · obtain ⟨hlt, hnear⟩ := hnew top hnewest
      constructor
      · rw [← Bool.not_eq_true, Option.isSome_iff_exists]
        rintro ⟨v, hfind⟩
        obtain ⟨k, ⟨hk₁, hk₂⟩, hmod, -⟩ :=
          (htracks.find_iff window_dvd (Nat.mod_lt _ (by omega))).mp hfind
        unfold kAckWindowSize at hk₂
        have := Serial.eq_of_mod_eq hmod (by omega) (by omega)
        omega
      · obtain ⟨received, hinsert, -⟩ := htracks.insert_new window_dvd hlt hnear
        exact ⟨received, hinsert⟩
  obtain ⟨hcontains, received, hinsert⟩ := hfresh
  unfold ReliableEndpoint.absorb
  rw [if_neg (by simp [hcontains]), hinsert]
  exact ⟨_, _, rfl⟩

/-- What taking a packet in does to the peer that reads it. -/
structure Arrives (q q' : Peer) (s : Sent) : Prop where
  taken : q'.taken = q.taken ++ [s]
  newest : q'.newest = some s.position
  written : q'.written = q.written
  log : q'.log = q.log
  accepted : q'.accepted = q.accepted
  queue : q'.endpoint.unacked.length ≤ q.endpoint.unacked.length

/-- Reading a newer packet; its ack releases the messages of the packet it names. -/
theorem Inbound.read_new (h : Inbound q) {s : Sent} (hlogged : Logged p first count s)
    (hnew : ∀ top ∈ q.newest, top < s.position ∧ s.position < top + 2 ^ 15) (nowUs : Nat) :
    Arrives q (q.read s nowUs) s ∧
      ∀ n found, s.heard = some n → q.endpoint.sent.find (n % 65536) = some found →
        found.acked = false →
        (q.read s nowUs).endpoint.unacked.Sublist
          (found.messageIds.foldl ReliableEndpoint.eraseMessage q.endpoint.unacked) := by
  obtain ⟨packet, hfits, henc, hseq, -, hack⟩ := hlogged.packet
  obtain ⟨e, out, habsorb⟩ := h.absorb_new hseq hnew s.bytes.length nowUs
  have hread := Peer.read_encoded hfits henc q nowUs
  rw [habsorb] at hread
  rw [hread]
  have htaken : ∀ k, Peer.Took { q with
      endpoint := e, delivered := q.delivered ++ out, taken := q.taken ++ [s] } k ↔
      q.Took k ∨ k = s.position := Peer.took_append rfl
  refine ⟨⟨rfl, ?_, rfl, rfl, rfl, ?_⟩, ?_⟩
  · rw [Peer.newest_eq_some_iff]
    refine ⟨(htaken _).mpr (Or.inr rfl), fun k hk => ?_⟩
    cases (htaken k).mp hk with
    | inl hold =>
      cases hnewest : q.newest with
      | none =>
        obtain ⟨t, ht, -⟩ := hold
        rw [(q.newest_eq_none_iff).mp hnewest] at ht
        cases ht
      | some top =>
        exact (((q.newest_eq_some_iff top).mp hnewest).2 k hold).trans
          (Nat.le_of_lt (hnew top hnewest).1)
    | inr heq => exact Nat.le_of_eq heq
  · have hkept := q.endpoint.absorb_sending hfits.sequence s.bytes.length nowUs
    rw [habsorb] at hkept
    exact hkept.queue.length_le
  · intro n found hheard hfind hacked
    simp only [hheard] at hack
    rcases q.endpoint.absorb_cases packet s.bytes.length nowUs with
      heq | ⟨received, value, stats, highest, buffer, expected, out', -, -, heq⟩
    · rw [heq] at habsorb
      cases habsorb
    · rw [heq] at habsorb
      cases habsorb
      rw [hack.1]
      let heard : ReliableEndpoint := { q.endpoint with
        received := received.write packet.sequence value, stats := stats
        highestReceived := highest, hasReceived := true }
      have hfound : heard.sent.find (n % 65536) = some found := hfind
      exact ReliableEndpoint.processAcks_releases hfound hacked

end

namespace Link

/-- A packet without payload from one side, and the other side reads it. -/
def carried (out : Nat → UInt8) (capacity nowUs : Nat) (side : Side) (l : Link) : List LinkAction :=
  [.write side out capacity [] nowUs,
    .read side.other ((l.step (.write side out capacity [] nowUs) side).log.length - 1) nowUs]

def carry (out : Nat → UInt8) (capacity nowUs : Nat) (side : Side) (l : Link) : Link :=
  Run.run step l (carried out capacity nowUs side l)

/-- A packet and its answer, neither of them lost. -/
def roundTrip (out : Nat → UInt8) (capacity nowUs : Nat) (side : Side) (l : Link) : Link :=
  carry out capacity nowUs side.other (carry out capacity nowUs side l)

/-- Each side has heard from the other less than half a lap ago. -/
def InTouch (l : Link) : Prop :=
  ∀ side, ∃ top ∈ (l side).newest, (l side.other).written + 32 < top + 2 ^ 15

section
variable {l l' : Link} {side : Side} {out : Nat → UInt8} {capacity nowUs : Nat}

theorem Sync.newest_lt (h : Sync l) {top : Nat} (htop : top ∈ (l side).newest) :
    top < (l side.other).written := by
  obtain ⟨base, record, first, count, hout⟩ := h.outbound side.other
  rw [Side.other_other] at hout
  obtain ⟨⟨s, hs, rfl⟩, -⟩ := ((l side).newest_eq_some_iff top).mp htop
  exact (hout.log s (hout.taken s hs)).position

/-- A deque that got no longer lost messages at its head only. -/
theorem Sync.fitting (h : Sync l) (h' : Sync l')
    (haccepted : (l' side).accepted = (l side).accepted)
    (hlength : (l' side).endpoint.unacked.length ≤ (l side).endpoint.unacked.length)
    (hfit : Fitting capacity (l side).endpoint.unacked) :
    Fitting capacity (l' side).endpoint.unacked := by
  obtain ⟨base, record, first, count, hout⟩ := h.outbound side
  obtain ⟨base', record', first', count', hout'⟩ := h'.outbound side
  have hlen := hout.queue.length
  have hlen' := hout'.queue.length
  have hbase := hout.base_le
  have hbase' := hout'.base_le
  rw [haccepted] at hlen' hbase'
  apply hfit.suffix (j := base' - base)
  rw [hout.queue, hout'.queue, haccepted, List.drop_drop, Nat.add_sub_cancel' (by omega)]

/-- One packet that arrives. -/
theorem Sync.carry (h : Sync l) (out : Nat → UInt8) (nowUs : Nat) (hcapacity : capacity + 512 ≤ 2 ^ 29)
    (hfit : Fitting capacity (l side).endpoint.unacked)
    (hnear : ∀ top ∈ (l side.other).newest, (l side).written < top + 2 ^ 15)
    {n : Nat} (hheard : (l side).newest = some n)
    (hfresh : (l side.other).written + 32 ≤ n + 65536) :
    Run.Along step Sane l (carried out capacity nowUs side l) ∧
    ∃ s, Departs (l side) (carry out capacity nowUs side l side) s ∧
      Arrives (l side.other) (carry out capacity nowUs side l side.other) s ∧
      ∀ found, (l side.other).endpoint.sent.find (n % 65536) = some found →
        found.acked = false →
        (carry out capacity nowUs side l side.other).endpoint.unacked.Sublist
          (found.messageIds.foldl ReliableEndpoint.eraseMessage
            (l side.other).endpoint.unacked) := by
  obtain ⟨base, record, first, count, hout⟩ := h.outbound side
  obtain ⟨s, hdeparts⟩ := hout.write_fitting (h.honest side) hcapacity hfit out nowUs
  have hwritten := sync_step l (.write side out capacity [] nowUs) trivial h
  have hne := Side.other_ne side
  simp only [Link.carry, carried, Run.run_cons, Run.run_nil]
  generalize hl₁ : l.step (.write side out capacity [] nowUs) = l₁ at hwritten ⊢
  have hself : l₁ side = (l side).write out capacity [] nowUs := by
    rw [← hl₁, step, Function.update_self]
  have hother : l₁ side.other = l side.other := by rw [← hl₁, step, Function.update_of_ne hne]
  rw [← hself] at hdeparts
  have hindex : (l₁ side.other.other).log[(l₁ side).log.length - 1]? = some s := by
    rw [Side.other_other, hdeparts.log]
    simp
  have hnew : ∀ top ∈ (l₁ side.other).newest, top < s.position ∧ s.position < top + 2 ^ 15 := by
    intro top htop
    rw [hother] at htop
    have hlt := h.newest_lt htop
    rw [Side.other_other] at hlt
    rw [hdeparts.position]
    exact ⟨hlt, hnear top htop⟩
  obtain ⟨base₁, record₁, first₁, count₁, hout₁⟩ := hwritten.outbound side
  have hlogged := hout₁.log s (by rw [hdeparts.log]; simp)
  obtain ⟨harrives, hreleases⟩ := (hwritten.inbound side.other).read_new hlogged hnew nowUs
  refine ⟨⟨trivial, ?_, trivial⟩, s, ?_, ?_, ?_⟩
  · intro t ht
    rw [hl₁, hindex] at ht
    obtain rfl : s = t := Option.some.inj ht
    rw [hl₁]
    refine ⟨fun top htop => ⟨(hnew top htop).2, (hnew top htop).1.trans_le (by omega)⟩, ?_⟩
    intro _
    rw [AckFresh, hdeparts.heard, hheard, hother]
    intro packet _ _ position hposition
    left
    rcases hposition with rfl | ⟨i, hi, -, hn⟩
    · omega
    · omega
  · rw [step, hindex]
    dsimp only
    rwa [Function.update_of_ne hne.symm]
  · rw [step, hindex]
    dsimp only
    rw [Function.update_self, ← hother]
    exact harrives
  · intro found hfind hacked
    rw [step, hindex]
    dsimp only
    rw [Function.update_self, ← hother]
    exact hreleases n found (hdeparts.heard.trans hheard) (hother ▸ hfind) hacked

end

/-- A link on which round trips of `side` make progress. -/
structure Live (capacity : Nat) (side : Side) (l : Link) : Prop where
  flowing : Flowing l side.other
  short : (l side).accepted.length < 32768
  touch : InTouch l
  fits : ∀ s, Fitting capacity (l s).endpoint.unacked

theorem newest_of_taken {p p' : Peer} (h : p'.taken = p.taken) : p'.newest = p.newest := by
  rw [Peer.newest, Peer.newest, h]

theorem Side.eq_or_other (side s : Side) : s = side ∨ s = side.other := by
  cases s <;> cases side <;> decide

/-- A round trip accepts nothing and releases the eight oldest messages. -/
theorem Live.roundTrip {capacity : Nat} {side : Side} {l : Link} (h : Live capacity side l)
    (hcapacity : capacity + 512 ≤ 2 ^ 29) (out : Nat → UInt8) (nowUs : Nat) :
    Live capacity side (roundTrip out capacity nowUs side l) ∧
      (roundTrip out capacity nowUs side l side).accepted = (l side).accepted ∧
      (roundTrip out capacity nowUs side l side).endpoint.unacked.length ≤
        (l side).endpoint.unacked.length - kMaxReliablePerPacket := by
  obtain ⟨n, hn, hback⟩ := h.touch side
  obtain ⟨top, htop, hahead⟩ := h.touch side.other
  rw [Side.other_other] at hahead
  rw [Option.mem_def] at hn htop
  -- the packet
  obtain ⟨halong, s, hdeparts, harrives, -⟩ := h.flowing.sync.carry out nowUs hcapacity
    (h.fits side) (by
      intro x hx
      obtain rfl := Option.some.inj (htop.symm.trans hx)
      omega) hn (by omega)
  have hshort₁ : (carry out capacity nowUs side l side).accepted.length < 32768 := by
    rw [hdeparts.accepted]
    exact h.short
  have hflowing₁ : Flowing (carry out capacity nowUs side l) side.other :=
    h.flowing.run halong (by rwa [Side.other_other])
  rw [Link.roundTrip]
  generalize carry out capacity nowUs side l = l₁ at hdeparts harrives hshort₁ hflowing₁ ⊢
  have hfits₁ : ∀ x, Fitting capacity (l₁ x).endpoint.unacked := by
    intro x
    cases Side.eq_or_other side x with
    | inl heq =>
      subst heq
      refine h.flowing.sync.fitting hflowing₁.sync hdeparts.accepted (Nat.le_of_eq ?_) (h.fits x)
      rw [hdeparts.queue, List.length_append, List.length_map, ← List.length_append,
        List.take_append_drop]
    | inr heq =>
      subst heq
      exact h.flowing.sync.fitting hflowing₁.sync harrives.accepted harrives.queue (h.fits _)
  -- the answer
  obtain ⟨halong', t, hdeparts', harrives', hreleases⟩ := hflowing₁.sync.carry out nowUs
    hcapacity (hfits₁ side.other) (by
      intro x hx
      rw [Side.other_other, newest_of_taken hdeparts.taken, hn] at hx
      obtain rfl := Option.some.inj hx
      rw [harrives.written]
      omega) harrives.newest (by
      rw [Side.other_other, hdeparts.written, hdeparts.position]
      omega)
  rw [Side.other_other] at harrives' hreleases
  have hshort₂ : (carry out capacity nowUs side.other l₁ side).accepted.length < 32768 := by
    rw [harrives'.accepted]
    exact hshort₁
  have hflowing₂ : Flowing (carry out capacity nowUs side.other l₁) side.other :=
    hflowing₁.run halong' (by rwa [Side.other_other])
  generalize carry out capacity nowUs side.other l₁ = l₂
    at hdeparts' harrives' hreleases hshort₂ hflowing₂ ⊢
  refine ⟨⟨hflowing₂, hshort₂, ?_, ?_⟩, harrives'.accepted.trans hdeparts.accepted, ?_⟩
  · intro x
    cases Side.eq_or_other side x with
    | inl heq =>
      subst heq
      refine ⟨t.position, harrives'.newest, ?_⟩
      rw [hdeparts'.written, hdeparts'.position]
      omega
    | inr heq =>
      subst heq
      refine ⟨s.position, (newest_of_taken hdeparts'.taken).trans harrives.newest, ?_⟩
      rw [Side.other_other, harrives'.written, hdeparts.written, hdeparts.position]
      omega
  · intro x
    cases Side.eq_or_other side x with
    | inl heq =>
      subst heq
      exact hflowing₁.sync.fitting hflowing₂.sync harrives'.accepted harrives'.queue (hfits₁ _)
    | inr heq =>
      subst heq
      refine hflowing₁.sync.fitting hflowing₂.sync hdeparts'.accepted (Nat.le_of_eq ?_) (hfits₁ _)
      rw [hdeparts'.queue, List.length_append, List.length_map, ← List.length_append,
        List.take_append_drop]
  · obtain ⟨found, hfind, hacked, hids⟩ := hdeparts.record
    rw [← hdeparts.position] at hfind
    have hsub := hreleases found hfind hacked
    have hmarked : ((l side).endpoint.unacked.take kMaxReliablePerPacket).map ReliableMessage.id =
        (((l side).endpoint.unacked.take kMaxReliablePerPacket).map
          ReliableEndpoint.markSent).map ReliableMessage.id := by
      rw [List.map_map]
      rfl
    rw [hids, hmarked, hdeparts.queue, ReliableEndpoint.eraseMessages_prefix] at hsub
    rw [← List.length_drop]
    exact hsub.length_le

/-- Round trips drain the deque. -/
theorem Live.drains {capacity : Nat} {side : Side} {l : Link} (h : Live capacity side l)
    (hcapacity : capacity + 512 ≤ 2 ^ 29) (out : Nat → UInt8) (nowUs : Nat) {rounds : Nat}
    (hrounds : (l side).endpoint.unacked.length ≤ kMaxReliablePerPacket * rounds) :
    Live capacity side ((Link.roundTrip out capacity nowUs side)^[rounds] l) ∧
      ((Link.roundTrip out capacity nowUs side)^[rounds] l side).accepted = (l side).accepted ∧
      ((Link.roundTrip out capacity nowUs side)^[rounds] l side).endpoint.unacked = [] := by
  induction rounds generalizing l with
  | zero => exact ⟨h, rfl, List.eq_nil_of_length_eq_zero (Nat.le_zero.mp hrounds)⟩
  | succ rounds ih =>
    obtain ⟨hlive, haccepted, hlength⟩ := h.roundTrip hcapacity out nowUs
    rw [Function.iterate_succ_apply]
    obtain ⟨hend, hsame, hempty⟩ := ih hlive (by
      rw [Nat.mul_succ] at hrounds
      omega)
    exact ⟨hend, hsame.trans haccepted, hempty⟩

/-- With nothing pending, everything accepted was delivered. -/
theorem Flowing.delivered_all {l : Link} {side : Side} (h : Flowing l side.other)
    (hshort : (l side).accepted.length < 32768) (hempty : (l side).endpoint.unacked = []) :
    (l side.other).delivered = (l side).accepted := by
  obtain ⟨base, record, first, count, hout⟩ := h.sync.outbound side
  have horder := h.order
  rw [Side.other_other] at horder
  have hreleased := hout.released (h.sync.honest side) hshort h.caught
  have hqueue := hout.queue
  rw [Holds, hempty, List.map_nil, eq_comm, List.drop_eq_nil_iff] at hqueue
  rw [horder.delivered, List.take_of_length_le (hqueue.trans hreleased)]

/-- Once the sides are in touch and packets of eight messages have room, a backlog drains in
one round trip for every eight messages, and then everything was delivered in order. -/
theorem drained (actions : List LinkAction) (hok : Run.Along step Sane start actions) (side : Side)
    (hshort : (Run.run step start actions side).accepted.length < 2 ^ 15)
    (htouch : InTouch (Run.run step start actions)) {capacity : Nat}
    (hcapacity : capacity + 512 ≤ 2 ^ 29)
    (hfits : ∀ s, Fitting capacity (Run.run step start actions s).endpoint.unacked)
    (out : Nat → UInt8) (nowUs rounds : Nat)
    (hrounds : (Run.run step start actions side).endpoint.unacked.length ≤
      kMaxReliablePerPacket * rounds) :
    let l := Run.run step start actions
    let l' := (roundTrip out capacity nowUs side)^[rounds] l
    (l' side).endpoint.unacked = [] ∧ (l' side.other).delivered = (l side).accepted := by
  have hlive : Live capacity side (Run.run step start actions) :=
    ⟨(flowing_start side.other).run hok (by rwa [Side.other_other]), hshort, htouch, hfits⟩
  obtain ⟨hend, haccepted, hempty⟩ := hlive.drains hcapacity out nowUs hrounds
  refine ⟨hempty, ?_⟩
  rw [hend.flowing.delivered_all hend.short hempty, haccepted]

/-- Nine more messages, once the sides are in touch. -/
def backlog : List LinkAction :=
  exchange ++ (List.range 9).map fun i => .queue .a 1 [UInt8.ofNat i]

theorem drained_backlog :
    (Run.run step start backlog .a).endpoint.unacked.length = 10 ∧
    (let l := Run.run step start backlog
    let l' := (roundTrip (fun _ => 0) 128 0 .a)^[2] l
    (l' .a).endpoint.unacked = [] ∧ (l' .b).delivered = (l .a).accepted) := by
  have hsane : Run.Along step Sane start backlog := sane_of_young (by decide +kernel)
  have htouch : InTouch (Run.run step start backlog) := by
    intro side
    cases side with
    | a => exact ⟨0, by decide +kernel⟩
    | b => exact ⟨1, by decide +kernel⟩
  have hfits : ∀ s, Fitting 128 (Run.run step start backlog s).endpoint.unacked := by
    intro s
    apply Fitting.of_lt
    cases s <;> decide +kernel
  exact ⟨by decide +kernel, drained backlog hsane .a (by decide +kernel) htouch (by decide) hfits
    (fun _ => 0) 0 2 (by decide +kernel)⟩

end Link
end Morton.Net
