import Morton.Net.Link

/-! Acknowledgements over whole runs. The deque always holds the accepted messages
from some index on; an acknowledged record moves that index, and the invariant
ties every record that took effect to a packet the other side took in. -/
namespace Morton.Net
open Proto

/-- The deque holds the accepted messages from index `base` on. -/
def Holds (accepted : List ReliableMessage) (base : Nat) (queue : List ReliableMessage) : Prop :=
  queue.map ReliableMessage.onWire = accepted.drop base

/-- The ids of `count` consecutive messages from index `first` on. -/
def idRange (first count : Nat) : List Nat := (List.range count).map fun i => (first + i) % 65536

theorem mem_idRange {first count id : Nat} :
    id ∈ idRange first count ↔ ∃ i < count, (first + i) % 65536 = id := by
  simp [idRange]

section
variable {accepted : List ReliableMessage}

theorem Holds.index {base : Nat} {queue : List ReliableMessage} (h : Holds accepted base queue)
    {m : ReliableMessage} (hm : m ∈ queue) :
    ∃ k, base ≤ k ∧ accepted[k]? = some m.onWire := by
  have hmem : m.onWire ∈ accepted.drop base := h ▸ List.mem_map_of_mem hm
  obtain ⟨i, hi⟩ := List.getElem?_of_mem hmem
  rw [List.getElem?_drop] at hi
  exact ⟨base + i, by omega, hi⟩

theorem Holds.length {base : Nat} {queue : List ReliableMessage} (h : Holds accepted base queue) :
    queue.length = accepted.length - base := by
  rw [← List.length_map (f := ReliableMessage.onWire), h, List.length_drop]

/-- Erasing the id of message `k`, pending at the head or gone already, moves the
index past it: no other id within a lap is the same. -/
theorem Holds.erase (hnum : ReliableEndpoint.Numbered accepted) {base k : Nat}
    {queue : List ReliableMessage} (h : Holds accepted base queue) (hk : k ≤ base)
    (hlt : k < accepted.length) (hlap : accepted.length ≤ k + 65536) :
    Holds accepted (max base (k+1)) (ReliableEndpoint.eraseMessage queue (k % 65536)) := by
  unfold ReliableEndpoint.eraseMessage
  by_cases hgone : k < base
  · rw [List.eraseP_of_forall_not, Nat.max_eq_left (by omega)]
    · exact h
    · intro m hm heq
      obtain ⟨j, hj, hget⟩ := h.index hm
      obtain ⟨hjlt, -⟩ := List.getElem?_eq_some_iff.mp hget
      have hid : j % 65536 = k % 65536 := (hnum j _ hget).symm.trans (beq_iff_eq.mp heq)
      have := Serial.eq_of_mod_eq hid (by omega) (by omega)
      omega
  · obtain rfl : k = base := by omega
    rw [Nat.max_eq_right (by omega)]
    unfold Holds at h ⊢
    rw [List.drop_eq_getElem_cons hlt] at h
    cases queue with
    | nil => cases h
    | cons m queue =>
      rw [List.map_cons, List.cons.injEq] at h
      have hid : m.id = k % 65536 :=
        hnum k m.onWire (by rw [h.1]; exact List.getElem?_eq_getElem hlt)
      rw [List.eraseP_cons_of_pos (by simpa using hid)]
      exact h.2

/-- Acknowledging a run of messages that starts at or before the head. -/
theorem Holds.eraseRange (hnum : ReliableEndpoint.Numbered accepted) {base first count : Nat}
    {queue : List ReliableMessage} (h : Holds accepted base queue) (hfirst : first ≤ base)
    (hle : first + count ≤ accepted.length)
    (hlap : 0 < count → accepted.length ≤ first + 65536) :
    Holds accepted (max base (first + count))
      ((idRange first count).foldl ReliableEndpoint.eraseMessage queue) := by
  induction count with
  | zero => simpa [idRange, Nat.max_eq_left hfirst] using h
  | succ count ih =>
    have hroom := hlap (Nat.succ_pos count)
    have hstep := (ih (by omega) fun _ => hroom).erase hnum (k := first + count) (by omega)
      (by omega) (by omega)
    rw [idRange, List.range_succ, List.map_append, List.foldl_append]
    rwa [show max (max base (first + count)) (first + count + 1) = max base (first + (count + 1))
      by omega] at hstep

end

/-- The sent window after `written` packets whose records are given by position. -/
def Recorded (sent : SequenceBuffer SentPacket kAckWindowSize) (written : Nat)
    (record : Nat → SentPacket) : Prop :=
  match written with
  | 0 => sent.hasLatest = false ∧ ∀ i, sent.keys i = kEmpty
  | top+1 => sent.Tracks top fun k => if k ≤ top then some (record k) else none

theorem window_dvd : kAckWindowSize ∣ 65536 := by decide

theorem Recorded.insert {sent : SequenceBuffer SentPacket kAckWindowSize} {written : Nat}
    {record : Nat → SentPacket} (h : Recorded sent written record) (value : SentPacket) :
    ∃ sent', sent.insert (written % 65536) = some sent' ∧
      Recorded (sent'.write (written % 65536) value) (written+1)
        (Function.update record written value) := by
  have hvalues : ∀ m : Nat → Option SentPacket,
      (∀ k, k ≠ written → m k = if k < written then some (record k) else none) →
      Function.update (Function.update m written (some default)) written (some value) =
        fun k => if k ≤ written then some (Function.update record written value k) else none := by
    intro m hm
    funext k
    by_cases hk : k = written
    · subst hk
      simp
    · rw [Function.update_of_ne hk, Function.update_of_ne hk, Function.update_of_ne hk, hm k hk]
      simp only [show k < written ↔ k ≤ written by omega]
  cases written with
  | zero =>
    obtain ⟨sent', hinsert, htracks⟩ := SequenceBuffer.insert_first window_dvd (p := 0) h.1 h.2
    refine ⟨sent', hinsert, ?_⟩
    have hwrite := htracks.write window_dvd (p := 0) (u := default) (v := value)
      ⟨Nat.le_refl 0, by decide⟩ (by simp)
    rwa [hvalues _ (by simp)] at hwrite
  | succ top =>
    obtain ⟨sent', hinsert, htracks⟩ := SequenceBuffer.Tracks.insert_new window_dvd h
      (p := top+1) (by omega) (by omega)
    refine ⟨sent', hinsert, ?_⟩
    have hwrite := htracks.write window_dvd (p := top+1) (u := default) (v := value)
      ⟨Nat.le_refl _, by simp [kAckWindowSize]⟩ (by simp)
    rwa [hvalues _ fun k _ => by simp only [Nat.lt_succ_iff]] at hwrite

theorem Recorded.find {sent : SequenceBuffer SentPacket kAckWindowSize} {written s : Nat}
    {record : Nat → SentPacket} (h : Recorded sent written record) (hs : s < 65536)
    {found : SentPacket} (hfind : sent.find s = some found) :
    ∃ k, k < written ∧ written ≤ k + kAckWindowSize ∧ k % 65536 = s ∧ record k = found := by
  cases written with
  | zero =>
    rw [SequenceBuffer.find, h.2, if_neg (by unfold kEmpty; omega)] at hfind
    cases hfind
  | succ top =>
    obtain ⟨k, ⟨hk₁, hk₂⟩, hmod, hval⟩ :=
      (SequenceBuffer.Tracks.find_iff window_dvd h hs).mp hfind
    rw [if_pos hk₁, Option.some.injEq] at hval
    exact ⟨k, by omega, by omega, hmod, hval⟩

theorem Recorded.find_mem {sent : SequenceBuffer SentPacket kAckWindowSize} {written k : Nat}
    {record : Nat → SentPacket} (h : Recorded sent written record) (hk : k < written)
    (hnear : written ≤ k + kAckWindowSize) : sent.find (k % 65536) = some (record k) := by
  cases written with
  | zero => omega
  | succ top =>
    exact (SequenceBuffer.Tracks.find_iff window_dvd h (Nat.mod_lt _ (by omega))).mpr
      ⟨k, ⟨by omega, by omega⟩, rfl, if_pos (by omega)⟩

theorem Recorded.write {sent : SequenceBuffer SentPacket kAckWindowSize} {written k : Nat}
    {record : Nat → SentPacket} (h : Recorded sent written record) (hk : k < written)
    (hnear : written ≤ k + kAckWindowSize) (value : SentPacket) :
    Recorded (sent.write (k % 65536) value) written (Function.update record k value) := by
  cases written with
  | zero => omega
  | succ top =>
    have hwrite := SequenceBuffer.Tracks.write window_dvd h (p := k) (u := record k) (v := value)
      ⟨by omega, by omega⟩ (if_pos (by omega))
    have hvalues : Function.update (fun j => if j ≤ top then some (record j) else none) k
        (some value) = fun j => if j ≤ top then some (Function.update record k value j) else none := by
      funext j
      by_cases hj : j = k
      · subst hj
        simp [show j ≤ top by omega]
      · rw [Function.update_of_ne hj, Function.update_of_ne hj]
    rwa [hvalues] at hwrite

/-- A packet that the other side took in carried the accepted message `k`: ids
repeat every `2^16` messages, so the count at the time of writing tells which. -/
def CarriedBy (accepted : List ReliableMessage) (k : Nat) (sent : Sent) : Prop :=
  k < sent.queued ∧ sent.queued ≤ k + 65536 ∧
    ∃ m ∈ accepted[k]?, m ∈ ReliableEndpoint.packetMessages sent.bytes

/-- A position was received. -/
def Peer.Took (p : Peer) (position : Nat) : Prop := ∃ s ∈ p.taken, s.position = position

/-- What a packet in the log says: its own position, the acknowledged positions,
and the messages that were at the head of the deque. -/
structure Logged (p : Peer) (first count : Nat → Nat) (s : Sent) : Prop where
  position : s.position < p.written
  lower : first s.position + count s.position ≤ s.queued
  upper : s.queued ≤ first s.position + 65536
  packet : ∃ packet : Packet, packet.Fits ∧ packet.Encodes s.bytes ∧
    packet.sequence = s.position % 65536 ∧
    packet.messages.map ReliableMessage.onWire =
      (p.accepted.drop (first s.position)).take (count s.position) ∧
    match s.heard with
    | none => packet.ack = 0 ∧ packet.ackBits = 0
    | some h => packet.ack = h % 65536 ∧ p.Took h ∧
      ∀ i, packet.ackBits.testBit i = true → i + 1 ≤ h ∧ p.Took (h - (i + 1))

/-- An id is in use while a pending message bears it or an unacknowledged record names it. -/
def Peer.InUse (p : Peer) (id : Nat) : Prop :=
  id ∈ p.endpoint.unacked.map ReliableMessage.id ∨
    ∃ s < 65536, ∃ found ∈ p.endpoint.sent.find s, found.acked = false ∧ id ∈ found.messageIds

/-- The sending half of `p` against what `q` took in: `base` is the index of the
first pending message, and the packet at position `k` carried the messages from
`first k` on. -/
structure Outbound (p q : Peer) (base : Nat) (record : Nat → SentPacket)
    (first count : Nat → Nat) : Prop where
  sequence : p.endpoint.sequence = p.written % 65536
  queue : Holds p.accepted base p.endpoint.unacked
  base_le : base ≤ p.accepted.length
  pending : p.accepted.length ≤ base + 65536
  window : Recorded p.endpoint.sent p.written record
  ids : ∀ k < p.written, (record k).messageIds = idRange (first k) (count k)
  range_le : ∀ k < p.written, first k + count k ≤ p.accepted.length
  behind : ∀ k < p.written, first k ≤ base
  lap : ∀ k < p.written, p.written ≤ k + kAckWindowSize → (record k).acked = false →
    0 < count k → p.accepted.length ≤ first k + 65536
  acked : ∀ k < p.written, (record k).acked = true → q.Took k
  gone : ∀ k < base, ∃ s ∈ q.taken, CarriedBy p.accepted k s
  log : ∀ s ∈ p.log, Logged p first count s
  taken : ∀ s ∈ q.taken, s ∈ p.log

theorem Peer.newest_eq_some_iff (p : Peer) (top : Nat) :
    p.newest = some top ↔ p.Took top ∧ ∀ k, p.Took k → k ≤ top := by
  rw [Peer.newest, List.max?_eq_some_iff]
  simp only [List.mem_map, Peer.Took]

theorem Peer.newest_eq_none_iff (p : Peer) : p.newest = none ↔ p.taken = [] := by
  simp [Peer.newest]

/-- The receiving half of `p`: nothing yet, or a window that tracks what was taken. -/
def Inbound (p : Peer) : Prop :=
  (p.taken = [] ∧ p.endpoint.hasReceived = false ∧ p.endpoint.received.hasLatest = false ∧
    ∀ i, p.endpoint.received.keys i = kEmpty) ∨
  ∃ top m, p.newest = some top ∧ p.endpoint.hasReceived = true ∧
    p.endpoint.highestReceived = top % 65536 ∧ p.endpoint.received.Tracks top m ∧
    ∀ k, (m k).isSome = true ↔ p.Took k

/-- The ack field and its history name only positions that were received. -/
theorem Inbound.acks {p : Peer} (h : Inbound p) :
    match p.newest with
    | none => (if p.endpoint.hasReceived then p.endpoint.highestReceived else 0) = 0 ∧
        p.endpoint.ackBits = 0
    | some top => (if p.endpoint.hasReceived then p.endpoint.highestReceived else 0) =
          top % 65536 ∧ p.Took top ∧
        ∀ i, p.endpoint.ackBits.testBit i = true → i + 1 ≤ top ∧ p.Took (top - (i + 1)) := by
  rcases h with ⟨hnil, hhas, -⟩ | ⟨top, m, hnewest, hhas, hhighest, htracks, htook⟩
  · rw [(p.newest_eq_none_iff).mpr hnil]
    simp [hhas, ReliableEndpoint.ackBits]
  · rw [hnewest]
    refine ⟨by rw [if_pos hhas, hhighest], ((p.newest_eq_some_iff top).mp hnewest).1, ?_⟩
    intro i hbit
    obtain ⟨hi, -, hcontains⟩ := (p.endpoint.ackBits_testBit i).mp hbit
    rw [SequenceBuffer.contains_eq_isSome, Option.isSome_iff_exists] at hcontains
    obtain ⟨v, hfind⟩ := hcontains
    obtain ⟨k, ⟨hk₁, hk₂⟩, hmod, hmk⟩ :=
      (htracks.find_iff window_dvd (Nat.mod_lt _ (by omega))).mp hfind
    rw [hhighest] at hmod
    unfold kAckWindowSize at hk₂
    have hk : top = k + (i + 1) := by omega
    refine ⟨by omega, ?_⟩
    rw [hk, Nat.add_sub_cancel]
    exact (htook k).mp (by rw [hmk]; rfl)

theorem Peer.took_append {p p' : Peer} {s : Sent} (h : p'.taken = p.taken ++ [s]) (k : Nat) :
    p'.Took k ↔ p.Took k ∨ k = s.position := by
  simp only [Peer.Took, h, List.mem_append, List.mem_singleton]
  constructor
  · rintro ⟨t, ht | rfl, rfl⟩
    · exact Or.inl ⟨t, ht, rfl⟩
    · exact Or.inr rfl
  · rintro (⟨t, ht, rfl⟩ | rfl)
    · exact ⟨t, Or.inl ht, rfl⟩
    · exact ⟨s, Or.inr rfl, rfl⟩

/-- Taking in a packet that is less than half a lap away keeps the window exact. -/
theorem Inbound.take {p p' : Peer} (h : Inbound p) {s : Sent}
    (hnear : ∀ top ∈ p.newest, s.position < top + 2 ^ 15 ∧ top < s.position + 2 ^ 15)
    {received : SequenceBuffer ReceivedPacket kAckWindowSize} (value : ReceivedPacket)
    (hinsert : p.endpoint.received.insert (s.position % 65536) = some received)
    (htaken : p'.taken = p.taken ++ [s])
    (hreceived : p'.endpoint.received = received.write (s.position % 65536) value)
    (hhas : p'.endpoint.hasReceived = true)
    (hhighest : p'.endpoint.highestReceived =
      if p.endpoint.hasReceived = true ∧
        sequenceGreater16 (s.position % 65536) p.endpoint.highestReceived = false
      then p.endpoint.highestReceived else s.position % 65536) : Inbound p' := by
  have htook := Peer.took_append htaken
  -- the stored positions are those before and the new one
  have hstored : ∀ m : Nat → Option ReceivedPacket, (∀ k, (m k).isSome = true ↔ p.Took k) →
      ∀ k, (Function.update (Function.update m s.position (some default)) s.position
        (some value) k).isSome = true ↔ p'.Took k := by
    intro m hm k
    rw [htook, Function.update_idem]
    by_cases hk : k = s.position
    · simp [hk]
    · simp [hk, hm]
  rcases h with ⟨hnil, hfresh, hlatest, hkeys⟩ | ⟨top, m, hnewest, hold, hhigh, htracks, hm⟩
  · obtain ⟨b, hb, htracks⟩ := SequenceBuffer.insert_first window_dvd hlatest hkeys
    obtain rfl : b = received := Option.some.inj (hb.symm.trans hinsert)
    refine Or.inr ⟨s.position, _, ?_, hhas, ?_, hreceived ▸ htracks.write window_dvd
      (p := s.position) (u := default) ⟨Nat.le_refl _, by simp [kAckWindowSize]⟩ (by simp),
      hstored _ ?_⟩
    · rw [Peer.newest_eq_some_iff]
      simp [Peer.Took, htaken, hnil]
    · simp [hhighest, hfresh]
    · simp [Peer.Took, hnil]
  · obtain ⟨hlt, hgt⟩ := hnear top hnewest
    obtain ⟨htop, hmax⟩ := (p.newest_eq_some_iff top).mp hnewest
    have horder : sequenceGreater16 (s.position % 65536) p.endpoint.highestReceived =
        decide (top < s.position) := by
      rw [hhigh]
      exact Serial.after_mod 32768 hlt hgt
    by_cases hnew : top < s.position
    · obtain ⟨b, hb, htracks'⟩ := htracks.insert_new window_dvd hnew hlt
      obtain rfl : b = received := Option.some.inj (hb.symm.trans hinsert)
      refine Or.inr ⟨s.position, _, ?_, hhas, ?_, hreceived ▸ htracks'.write window_dvd
        (p := s.position) (u := default) ⟨Nat.le_refl _, by simp [kAckWindowSize]⟩ (by simp),
        hstored m hm⟩
      · refine (p'.newest_eq_some_iff _).mpr ⟨(htook _).mpr (Or.inr rfl), fun k hk => ?_⟩
        rcases (htook k).mp hk with hk | rfl
        · exact (hmax k hk).trans (by omega)
        · exact Nat.le_refl _
      · simp [hhighest, horder, hnew]
    · have hin : SequenceBuffer.InWindow kAckWindowSize top s.position := by
        refine ⟨by omega, ?_⟩
        by_contra hstale
        rw [htracks.insert_stale (by omega) hgt (by decide)] at hinsert
        cases hinsert
      obtain ⟨b, hb, htracks'⟩ := htracks.insert_late window_dvd hin (by decide)
      obtain rfl : b = received := Option.some.inj (hb.symm.trans hinsert)
      refine Or.inr ⟨top, _, ?_, hhas, ?_, hreceived ▸ htracks'.write window_dvd
        (p := s.position) (u := default) hin (by simp), hstored m hm⟩
      · refine (p'.newest_eq_some_iff _).mpr ⟨(htook _).mpr (Or.inl htop), fun k hk => ?_⟩
        rcases (htook k).mp hk with hk | rfl
        · exact hmax k hk
        · exact hin.1
      · rw [hhighest, if_pos ⟨hold, horder.trans (decide_eq_false hnew)⟩, hhigh]

section
variable {p q : Peer} {base : Nat} {record : Nat → SentPacket} {first count : Nat → Nat}

theorem Logged.mono {s : Sent} (h : Logged p first count s) {p' : Peer}
    (hwritten : p.written ≤ p'.written) (haccepted : p'.accepted = p.accepted)
    (htaken : ∀ s ∈ p.taken, s ∈ p'.taken) : Logged p' first count s := by
  obtain ⟨packet, hfits, henc, hseq, hms, hack⟩ := h.packet
  have htook : ∀ k, p.Took k → p'.Took k := fun k ⟨t, ht, hk⟩ => ⟨t, htaken t ht, hk⟩
  refine ⟨h.position.trans_le hwritten, h.lower, h.upper, packet, hfits, henc, hseq,
    haccepted ▸ hms, ?_⟩
  cases hheard : s.heard with
  | none => simpa [hheard] using hack
  | some n =>
    simp only [hheard] at hack
    exact ⟨hack.1, htook n hack.2.1, fun i hi => ⟨(hack.2.2 i hi).1, htook _ (hack.2.2 i hi).2⟩⟩

/-- Steps that leave the sending half alone. -/
theorem Outbound.frame (h : Outbound p q base record first count) {p' q' : Peer}
    (hsequence : p'.endpoint.sequence = p.endpoint.sequence)
    (hunacked : p'.endpoint.unacked = p.endpoint.unacked)
    (hsent : p'.endpoint.sent = p.endpoint.sent) (haccepted : p'.accepted = p.accepted)
    (hwritten : p'.written = p.written) (hlog : p'.log = p.log)
    (htaken : ∀ s ∈ p.taken, s ∈ p'.taken) (hpeer : ∀ s ∈ q.taken, s ∈ q'.taken)
    (hfrom : ∀ s ∈ q'.taken, s ∈ p.log) : Outbound p' q' base record first count where
  sequence := by rw [hsequence, hwritten, h.sequence]
  queue := by rw [haccepted, hunacked]; exact h.queue
  base_le := haccepted ▸ h.base_le
  pending := haccepted ▸ h.pending
  window := by rw [hsent, hwritten]; exact h.window
  ids := hwritten ▸ h.ids
  range_le := by rw [hwritten, haccepted]; exact h.range_le
  behind := hwritten ▸ h.behind
  lap := by rw [hwritten, haccepted]; exact h.lap
  acked k hk hacked := by
    obtain ⟨s, hs, hpos⟩ := h.acked k (hwritten ▸ hk) hacked
    exact ⟨s, hpeer s hs, hpos⟩
  gone k hk := by
    obtain ⟨s, hs, hcarried⟩ := h.gone k hk
    exact ⟨s, hpeer s hs, haccepted ▸ hcarried⟩
  log s hs := (h.log s (hlog ▸ hs)).mono (Nat.le_of_eq hwritten.symm) haccepted htaken
  taken s hs := hlog ▸ hfrom s hs

/-- The packet at position `k` carried the messages its record names. -/
theorem Outbound.carried (h : Outbound p q base record first count) {k j : Nat}
    (htook : q.Took k) (hlow : first k ≤ j) (hhigh : j < first k + count k) :
    ∃ s ∈ q.taken, CarriedBy p.accepted j s := by
  obtain ⟨s, hs, rfl⟩ := htook
  have hlogged := h.log s (h.taken s hs)
  obtain ⟨packet, hfits, henc, -, hms, -⟩ := hlogged.packet
  have hlower := hlogged.lower
  have hupper := hlogged.upper
  have hrange := h.range_le s.position hlogged.position
  refine ⟨s, hs, by omega, by omega, p.accepted[j], ?_, ?_⟩
  · exact List.getElem?_eq_getElem (by omega)
  · rw [ReliableEndpoint.packetMessages_encoded hfits henc, hms]
    refine List.mem_of_getElem? (i := j - first s.position) ?_
    rw [List.getElem?_take_of_lt (by omega), List.getElem?_drop,
      show first s.position + (j - first s.position) = j by omega]
    exact List.getElem?_eq_getElem (by omega)

/-- The record under a sequence is settled: it was acknowledged before, or the other side
has received the packet it stands for. -/
def Settled (p q : Peer) (sequence : Nat) : Prop :=
  ∀ k < p.written, p.written ≤ k + kAckWindowSize → k % 65536 = sequence →
    (∀ found ∈ p.endpoint.sent.find sequence, found.acked = true) ∨ q.Took k

theorem Outbound.settled (h : Outbound p q base record first count) {s : Nat}
    (hs : Settled p q s) : ∀ k < p.written, p.written ≤ k + kAckWindowSize → k % 65536 = s →
      (record k).acked = true ∨ q.Took k := by
  intro k hk hnear hmod
  rcases hs k hk hnear hmod with hacked | htook
  · exact Or.inl (hacked _ (hmod ▸ h.window.find_mem hk hnear))
  · exact Or.inr htook

/-- Acknowledging a settled record keeps the invariant: the deque moves past the messages
of that packet. -/
theorem Outbound.ack (h : Outbound p q base record first count)
    (hnum : ReliableEndpoint.Numbered p.accepted) {s : Nat} (hs : s < 65536)
    (hreal : ∀ k < p.written, p.written ≤ k + kAckWindowSize → k % 65536 = s →
      (record k).acked = true ∨ q.Took k) :
    ∃ base' record', (∀ k, (record k).acked = true → (record' k).acked = true) ∧
      Outbound { p with endpoint := p.endpoint.onPacketAcked s } q base' record' first count := by
  unfold ReliableEndpoint.onPacketAcked
  split
  next => exact ⟨base, record, fun _ => id, h⟩
  next found hfind =>
    split
    next => exact ⟨base, record, fun _ => id, h⟩
    next hacked =>
      obtain ⟨k, hk, hnear, rfl, rfl⟩ := h.window.find hs hfind
      have htook : q.Took k := (hreal k hk hnear rfl).resolve_left hacked
      have hids := h.ids k hk
      have hrange := h.range_le k hk
      have hbehind := h.behind k hk
      have hlap := h.lap k hk hnear (Bool.eq_false_of_not_eq_true hacked)
      have hpending := h.pending
      have hbase := h.base_le
      refine ⟨max base (first k + count k),
        Function.update record k { record k with acked := true }, fun j hj => ?_, ?_⟩
      · by_cases hjk : j = k
        · rw [hjk, Function.update_self]
        · rwa [Function.update_of_ne hjk]
      refine ⟨h.sequence, ?_, by dsimp only; omega, by dsimp only; omega,
        h.window.write hk hnear _, fun j hj => ?_, h.range_le,
        fun j hj => (h.behind j hj).trans (Nat.le_max_left _ _), fun j hj hnear' hset => ?_,
        fun j hj hset => ?_, fun j hj => ?_, fun t ht => (h.log t ht).mono (Nat.le_refl _) rfl fun _ => id, h.taken⟩
      · dsimp only
        rw [hids]
        exact h.queue.eraseRange hnum hbehind hrange hlap
      · by_cases hjk : j = k
        · subst hjk
          simpa using hids
        · rw [Function.update_of_ne hjk]
          exact h.ids j hj
      · by_cases hjk : j = k
        · rw [hjk, Function.update_self] at hset
          cases hset
        · rw [Function.update_of_ne hjk] at hset
          exact h.lap j hj hnear' hset
      · by_cases hjk : j = k
        · exact hjk ▸ htook
        · rw [Function.update_of_ne hjk] at hset
          exact h.acked j hj hset
      · by_cases hgone : j < base
        · exact h.gone j hgone
        · exact h.carried htook (by omega) (by omega)

theorem Outbound.ackAll (h : Outbound p q base record first count)
    (hnum : ReliableEndpoint.Numbered p.accepted) {acked : List Nat}
    (hreal : ∀ s ∈ acked, s < 65536 ∧ ∀ k < p.written, p.written ≤ k + kAckWindowSize →
      k % 65536 = s → (record k).acked = true ∨ q.Took k) :
    ∃ base' record', Outbound
      { p with endpoint := acked.foldl ReliableEndpoint.onPacketAcked p.endpoint } q base' record'
      first count := by
  induction acked generalizing p base record with
  | nil => exact ⟨base, record, h⟩
  | cons s acked ih =>
    obtain ⟨hs, hreal_s⟩ := hreal s (by simp)
    obtain ⟨base', record', hkept, h'⟩ := h.ack hnum hs hreal_s
    refine ih h' hnum fun t ht => ?_
    obtain ⟨hlt, hreal_t⟩ := hreal t (List.mem_cons_of_mem s ht)
    exact ⟨hlt, fun k hk hnear hmod => (hreal_t k hk hnear hmod).imp_left (hkept k)⟩

theorem ackedSequences_cases {ack bits s : Nat}
    (hs : s ∈ ReliableEndpoint.ackedSequences ack bits) :
    s = ack ∨ ∃ i < 32, bits.testBit i = true ∧ s = sub16 ack (i + 1) := by
  rw [ReliableEndpoint.ackedSequences, List.mem_cons, List.mem_map] at hs
  rcases hs with hs | ⟨i, hi, hs⟩
  · exact Or.inl hs
  · rw [List.mem_filter, List.mem_range] at hi
    exact Or.inr ⟨i, hi.1, hi.2, hs.symm⟩

/-- The positions an ack and its history name. -/
def Named (ack bits position : Nat) : Prop :=
  position = ack ∨ ∃ i < 32, bits.testBit i = true ∧ position + (i + 1) = ack

/-- The reader may act on the acks of this packet. A packet from before its writer had
received anything still acknowledges sequence 0, and one from more than a lap ago names
sequences that are in use again: the records there must be settled. -/
def AckFresh (p q : Peer) (s : Sent) : Prop :=
  match s.heard with
  | none => Settled p q 0
  | some n => ∀ packet : Packet, packet.Fits → packet.Encodes s.bytes →
      ∀ position, Named n packet.ackBits position →
        p.written ≤ position + 65536 ∨ Settled p q (position % 65536)

theorem Outbound.processAcks (h : Outbound p q base record first count)
    (hnum : ReliableEndpoint.Numbered p.accepted) {s : Sent} {packet : Packet}
    (hfits : packet.Fits) (henc : packet.Encodes s.bytes)
    (hack : match s.heard with
      | none => packet.ack = 0 ∧ packet.ackBits = 0
      | some n => packet.ack = n % 65536 ∧ q.Took n ∧
        ∀ i, packet.ackBits.testBit i = true → i + 1 ≤ n ∧ q.Took (n - (i + 1)))
    (hfresh : AckFresh p q s) :
    ∃ base' record', Outbound
      { p with endpoint := p.endpoint.processAcks packet.ack packet.ackBits } q base' record'
      first count := by
  unfold AckFresh at hfresh
  cases hheard : s.heard with
  | none =>
    simp only [hheard] at hack hfresh
    rw [hack.1, hack.2]
    refine h.ackAll hnum fun t ht => ?_
    obtain rfl : t = 0 := List.mem_singleton.mp ht
    exact ⟨by omega, h.settled hfresh⟩
  | some n =>
    simp only [hheard] at hack hfresh
    obtain ⟨hfield, htook, hbits⟩ := hack
    have hn : n < p.written := by
      obtain ⟨u, hu, rfl⟩ := htook
      exact (h.log u (h.taken u hu)).position
    -- a named position was received, so only a younger one under its sequence is open
    have hnamed : ∀ position, Named n packet.ackBits position → q.Took position →
        Settled p q (position % 65536) := by
      intro position hposition hreal
      rcases hfresh packet hfits henc position hposition with hyoung | hsettled
      · intro k hk hnear hmod
        have hpast : position < p.written := by
          rcases hposition with rfl | ⟨i, -, -, hi⟩
          · exact hn
          · omega
        obtain rfl : k = position := Serial.eq_of_mod_eq hmod (by omega) (by
          unfold kAckWindowSize at hnear
          omega)
        exact Or.inr hreal
      · exact hsettled
    refine h.ackAll hnum fun t ht => ?_
    rw [hfield] at ht
    rcases ackedSequences_cases ht with rfl | ⟨i, hi, hbit, rfl⟩
    · exact ⟨Nat.mod_lt _ (by omega), h.settled (hnamed n (Or.inl rfl) htook)⟩
    · obtain ⟨hin, hreal⟩ := hbits i hbit
      have hsequence : sub16 (n % 65536) (i + 1) = (n - (i + 1)) % 65536 := by
        unfold sub16
        omega
      rw [hsequence]
      exact ⟨Nat.mod_lt _ (by omega),
        h.settled (hnamed _ (Or.inr ⟨i, hi, hbit, by omega⟩) hreal)⟩

theorem drop_take_append {accepted more : List ReliableMessage} {f c : Nat}
    (h : f + c ≤ accepted.length) :
    ((accepted ++ more).drop f).take c = (accepted.drop f).take c := by
  rw [List.drop_append_of_le_length (by omega), List.take_append_of_le_length]
  rw [List.length_drop]
  omega

/-- An id that nothing uses is not the id of a message that is pending for a lap. -/
theorem Outbound.unused (h : Outbound p q base record first count) (hp : p.Honest)
    (hunused : ¬ p.InUse p.endpoint.nextMessageId) : p.accepted.length < base + 65536 := by
  have hpending := h.pending
  by_contra hfull
  have hlap : p.accepted.length = base + 65536 := by omega
  have hhead := congrArg List.head? h.queue
  rw [List.head?_map, List.head?_drop, List.getElem?_eq_getElem (by omega)] at hhead
  obtain ⟨m, hm, hwire⟩ := Option.map_eq_some_iff.mp hhead
  have hid := hp.numbered base m.onWire (by rw [hwire]; exact List.getElem?_eq_getElem (by omega))
  apply hunused
  refine Or.inl (List.mem_map.mpr ⟨m, List.mem_of_head? hm, ?_⟩)
  rw [hp.nextId, hlap, Nat.add_mod_right]
  exact hid

/-- Nor is it named by a record that was not acknowledged for a lap. -/
theorem Outbound.unnamed (h : Outbound p q base record first count) (hp : p.Honest)
    (hunused : ¬ p.InUse p.endpoint.nextMessageId) {k : Nat} (hk : k < p.written)
    (hnear : p.written ≤ k + kAckWindowSize) (hopen : (record k).acked = false)
    (hcount : 0 < count k) : p.accepted.length < first k + 65536 := by
  have hle := h.lap k hk hnear hopen hcount
  by_contra hfull
  have hlap : p.accepted.length = first k + 65536 := by omega
  refine hunused (Or.inr ⟨k % 65536, Nat.mod_lt _ (by omega), record k, h.window.find_mem hk hnear,
    hopen, ?_⟩)
  rw [h.ids k hk, mem_idRange]
  exact ⟨0, hcount, by rw [hp.nextId, hlap, Nat.add_mod_right, Nat.add_zero]⟩

/-- Queueing a message under an id that is not in use. -/
theorem Outbound.queue_step (h : Outbound p q base record first count) (hp : p.Honest)
    (channel : UInt8) (data : List UInt8)
    (hroom : 0 < data.length → data.length ≤ kMaxReliableMessageSize →
      ¬ p.InUse p.endpoint.nextMessageId) :
    Outbound (p.queue channel data) q base record first count := by
  rcases p.queue_cases channel data with heq | ⟨⟨hpos, hsize⟩, heq⟩
  · rwa [heq]
  · rw [heq]
    have hunused := hroom hpos hsize
    have hbase := h.base_le
    have hpending := h.unused hp hunused
    refine ⟨h.sequence, ?_, ?_, ?_, h.window, h.ids, fun k hk => ?_, h.behind,
      fun k hk hnear hopen hcount => ?_, h.acked, fun k hk => ?_, fun s hs => ?_, h.taken⟩
    · unfold Holds
      dsimp only
      rw [List.map_append, h.queue, List.drop_append_of_le_length hbase]
      rfl
    · simp only [List.length_append]
      omega
    · simp only [List.length_append, List.length_singleton]
      omega
    · have := h.range_le k hk
      simp only [List.length_append]
      omega
    · have := h.unnamed hp hunused hk hnear hopen hcount
      simp only [List.length_append, List.length_singleton]
      omega
    · obtain ⟨s, hs, hqueued, hlap, m, hm, hcarry⟩ := h.gone k hk
      exact ⟨s, hs, hqueued, hlap, m, getElem?_append_some hm _, hcarry⟩
    · have hlogged := h.log s hs
      obtain ⟨packet, hfits, henc, hseq, hms, hack⟩ := hlogged.packet
      refine ⟨hlogged.position, hlogged.lower, hlogged.upper, packet, hfits, henc, hseq, ?_, hack⟩
      rw [drop_take_append (h.range_le s.position hlogged.position)]
      exact hms

/-- The head of the deque, as ids. -/
theorem Holds.ids {accepted queue : List ReliableMessage} {base : Nat}
    (hnum : ReliableEndpoint.Numbered accepted) (h : Holds accepted base queue) (n : Nat) :
    (queue.take n).map ReliableMessage.id = idRange base (queue.take n).length := by
  refine List.ext_getElem (by simp [idRange]) fun i hi₁ hi₂ => ?_
  rw [List.length_map, List.length_take] at hi₁
  have hget : (queue.map ReliableMessage.onWire)[i]? = accepted[base + i]? := by
    rw [h, List.getElem?_drop]
  rw [List.getElem?_map, List.getElem?_eq_getElem (by omega), Option.map_some] at hget
  have hid := hnum _ _ hget.symm
  simp only [List.getElem_map, List.getElem_take, idRange, List.getElem_range]
  exact hid

/-- Writing a packet records the head of the deque under a fresh position. -/
theorem Outbound.write_step (h : Outbound p q base record first count) (hp : p.Honest)
    (hin : Inbound p) (out : Nat → UInt8) (capacity : Nat) (unreliable : List UInt8)
    (nowUs : Nat) :
    ∃ record' first' count',
      Outbound (p.write out capacity unreliable nowUs) q base record' first' count' := by
  rcases p.endpoint.writePacket_cases out capacity unreliable nowUs with
    ⟨hnone, -⟩ | ⟨sent, n, value, stats, packet, hinsert, hn, hnew, hids, heq, henc⟩
  · obtain ⟨sent', hsome, -⟩ := h.window.insert default
    rw [h.sequence, hsome] at hnone
    cases hnone
  · obtain ⟨sent', hsome, hwindow⟩ := h.window.insert value
    obtain rfl : sent' = sent := by
      rw [h.sequence, hsome] at hinsert
      exact Option.some.inj hinsert
    have hlen := h.queue.length
    have hbase := h.base_le
    have hpending := h.pending
    rw [h.queue.ids hp.numbered] at hids
    generalize hc : (p.endpoint.unacked.take n).length = c at hids
    have hcle : base + c ≤ p.accepted.length := by
      rw [List.length_take] at hc
      omega
    refine ⟨Function.update record p.written value, Function.update first p.written base,
      Function.update count p.written c, ?_⟩
    rw [Peer.write, heq]
    -- every position is the new one or an old one
    have hcases : ∀ k < p.written + 1, k = p.written ∨ k ≠ p.written ∧ k < p.written := by omega
    refine ⟨?_, ?_, hbase, hpending, h.sequence ▸ hwindow, fun k hk => ?_, fun k hk => ?_,
      fun k hk => ?_, fun k hk hnear hopen hcount => ?_, fun k hk hset => ?_, h.gone,
      fun s hs => ?_, fun s hs => List.mem_append_left _ (h.taken s hs)⟩
    · simp [h.sequence]
    · unfold Holds
      have hwire : ReliableMessage.onWire ∘ ReliableEndpoint.markSent = ReliableMessage.onWire := rfl
      rw [List.map_append, List.map_map, hwire, ← List.map_append, List.take_append_drop]
      exact h.queue
    · rcases hcases k hk with rfl | ⟨hne, hlt⟩
      · simpa using hids
      · simpa [hne] using h.ids k hlt
    · rcases hcases k hk with rfl | ⟨hne, hlt⟩
      · simpa using hcle
      · simpa [hne] using h.range_le k hlt
    · rcases hcases k hk with rfl | ⟨hne, hlt⟩
      · simp
      · simpa [hne] using h.behind k hlt
    · rcases hcases k hk with rfl | ⟨hne, hlt⟩
      · simpa using hpending
      · rw [Function.update_of_ne hne] at hopen hcount ⊢
        exact h.lap k hlt (Nat.le_of_succ_le hnear) hopen hcount
    · rcases hcases k hk with rfl | ⟨hne, hlt⟩
      · rw [Function.update_self, hnew] at hset
        cases hset
      · rw [Function.update_of_ne hne] at hset
        exact h.acked k hlt hset
    · rcases List.mem_append.mp hs with hs | hs
      · have hlogged := h.log s hs
        have hne : s.position ≠ p.written := Nat.ne_of_lt hlogged.position
        obtain ⟨packet, hfits, hencodes, hseq, hms, hack⟩ := hlogged.packet
        refine ⟨Nat.lt_succ_of_lt hlogged.position, ?_, ?_, packet, hfits, hencodes, hseq, ?_, hack⟩
        · simpa [hne] using hlogged.lower
        · simpa [hne] using hlogged.upper
        · simpa [hne] using hms
      · obtain ⟨bytes, hbytes, rfl⟩ := List.mem_map.mp hs
        refine ⟨Nat.lt_succ_self _, by simpa using hcle, by simpa using hpending,
          p.endpoint.outgoing (p.endpoint.unacked.take n) unreliable,
          ReliableEndpoint.outgoing_fits hp.sound hn unreliable,
          henc bytes (Option.mem_toList.mp hbytes) hp.sound, h.sequence, ?_, hin.acks⟩
        · simp only [Function.update_self, ReliableEndpoint.outgoing]
          rw [List.map_take, h.queue, List.take_eq_take_iff, List.length_drop]
          rw [List.length_take] at hc
          omega

/-- `read_packet` refuses the packet before it looks at the acks: its sequence is in the
window already, or too old for it. -/
def Peer.Refuses (p : Peer) (s : Sent) : Prop :=
  p.endpoint.received.contains (s.position % 65536) = true ∨
    p.endpoint.received.insert (s.position % 65536) = none

theorem Peer.absorb_refused {p : Peer} {s : Sent} (h : p.Refuses s) {packet : Packet}
    (hseq : packet.sequence = s.position % 65536) (size nowUs : Nat) :
    p.endpoint.absorb packet size nowUs = (p.endpoint, none) := by
  rw [ReliableEndpoint.absorb, hseq]
  rcases h with hold | hstale
  · rw [if_pos hold]
  · rw [hstale, ite_self]

/-- Reading a packet of the other side: unless it is refused, the acks it carries act on
the sending half and the packet enters the receiving half. -/
theorem Outbound.read_step (h : Outbound p q base record first count) (hp : p.Honest)
    (hin : Inbound p) {s : Sent} {first' count' : Nat → Nat} (hlogged : Logged q first' count' s)
    (hnear : ∀ top ∈ p.newest, s.position < top + 2 ^ 15 ∧ top < s.position + 2 ^ 15)
    (hfresh : ¬ p.Refuses s → AckFresh p q s) (nowUs : Nat) :
    Inbound (p.read s nowUs) ∧ ∃ base' record',
      Outbound (p.read s nowUs) q base' record' first count := by
  obtain ⟨packet, hfits, henc, hseq, -, hack⟩ := hlogged.packet
  rw [Peer.read_encoded hfits henc]
  by_cases hrefused : p.Refuses s
  · rw [Peer.absorb_refused hrefused hseq]
    exact ⟨hin, base, record, h⟩
  rcases p.endpoint.absorb_cases packet s.bytes.length nowUs with
    heq | ⟨received, value, stats, highest, buffer, expected, out, hinsert, hhighest, heq⟩
  · rw [heq]
    exact ⟨hin, base, record, h⟩
  · rw [heq]
    rw [hseq] at hinsert hhighest
    let noted : Peer := { p with endpoint := { p.endpoint with
      received := received.write packet.sequence value
      stats := stats
      highestReceived := highest
      hasReceived := true } }
    have hnoted : Outbound noted q base record first count :=
      h.frame rfl rfl rfl rfl rfl rfl (fun _ => id) (fun _ => id) h.taken
    obtain ⟨base', record', hacked⟩ := hnoted.processAcks hp.numbered hfits henc hack
      (hfresh hrefused)
    obtain ⟨_, _, _, hacks, -⟩ := noted.endpoint.processAcks_frame packet.ack packet.ackBits
    refine ⟨?_, base', record', ?_⟩
    · refine hin.take hnear value hinsert rfl ?_ ?_ ?_
      · exact (congrArg ReliableEndpoint.received hacks).trans (by rw [← hseq])
      · exact congrArg ReliableEndpoint.hasReceived hacks
      · exact (congrArg ReliableEndpoint.highestReceived hacks).trans hhighest
    · exact hacked.frame rfl rfl rfl rfl rfl rfl (fun t ht => List.mem_append_left _ ht)
        (fun _ => id) h.taken

end

namespace Link

/-- The conditions under which acknowledgements are sound. Queueing: the id that a message
of an accepted size gets is not in use. Reads: the packet is less than half a lap from the
newest one received and, unless it is refused, its acks are fresh. -/
def Sane (l : Link) : LinkAction → Prop
  | .queue side _ data => 0 < data.length → data.length ≤ kMaxReliableMessageSize →
      ¬ (l side).InUse (l side).endpoint.nextMessageId
  | .write _ _ _ _ _ => True
  | .read side index _ => ∀ s ∈ (l side.other).log[index]?,
      (∀ top ∈ (l side).newest, s.position < top + 2 ^ 15 ∧ top < s.position + 2 ^ 15) ∧
      (¬ (l side).Refuses s → AckFresh (l side) (l side.other) s)
  | .update _ => True

/-- What the sending half of one side and the receiving half of the other agree on. -/
structure Sync (l : Link) : Prop where
  honest : ∀ side, (l side).Honest
  inbound : ∀ side, Inbound (l side)
  outbound : ∀ side, ∃ base record first count,
    Outbound (l side) (l side.other) base record first count

theorem sync_start : Sync start where
  honest _ := Peer.honest_new
  inbound _ := Or.inl ⟨rfl, rfl, rfl, fun _ => rfl⟩
  outbound _ := ⟨0, default, fun _ => 0, fun _ => 0, rfl, rfl, Nat.le_refl 0, Nat.zero_le _,
    ⟨rfl, fun _ => rfl⟩, by simp [start], by simp [start], by simp [start], by simp [start],
    by simp [start], by simp, by simp [start], by simp [start]⟩

theorem Side.other_other (side : Side) : side.other.other = side := by cases side <;> rfl

theorem Side.other_ne (side : Side) : side.other ≠ side := by cases side <;> decide

/-- A step of one side, seen from both halves. -/
theorem Sync.update {l : Link} (h : Sync l) (target : Side) {p : Peer} (hp : p.Honest)
    (hin : Inbound p)
    (hout : ∃ base record first count, Outbound p (l target.other) base record first count)
    (hback : ∃ base record first count, Outbound (l target.other) p base record first count) :
    Sync (Function.update l target p) := by
  have hcases : ∀ side : Side, side = target ∨ side = target.other := by
    intro side
    cases side <;> cases target <;> decide
  have hne := Side.other_ne target
  refine ⟨fun side => ?_, fun side => ?_, fun side => ?_⟩
  · rcases hcases side with rfl | rfl
    · rwa [Function.update_self]
    · rw [Function.update_of_ne hne]
      exact h.honest _
  · rcases hcases side with rfl | rfl
    · rwa [Function.update_self]
    · rw [Function.update_of_ne hne]
      exact h.inbound _
  · rcases hcases side with rfl | rfl
    · rwa [Function.update_self, Function.update_of_ne hne]
    · rwa [Side.other_other, Function.update_self, Function.update_of_ne hne]

/-- One step under the conditions keeps both sides in agreement. -/
theorem sync_step (l : Link) (action : LinkAction) (hok : Sane l action) (h : Sync l) :
    Sync (l.step action) := by
  -- the other side's half, while the acting side takes nothing in
  have hidle : ∀ (target : Side) (p : Peer), p.taken = (l target).taken →
      ∃ base record first count, Outbound (l target.other) p base record first count := by
    intro target p htaken
    obtain ⟨base, record, first, count, hout⟩ := h.outbound target.other
    rw [Side.other_other] at hout
    exact ⟨base, record, first, count, hout.frame rfl rfl rfl rfl rfl rfl (fun _ => id)
      (fun s hs => htaken ▸ hs) (fun s hs => hout.taken s (htaken ▸ hs))⟩
  cases action with
  | queue target channel data =>
    obtain ⟨base, record, first, count, hout⟩ := h.outbound target
    refine h.update target ((h.honest target).queue_step channel data) ?_
      ⟨base, record, first, count, hout.queue_step (h.honest target) channel data hok⟩
      (hidle _ _ rfl)
    rcases (l target).queue_cases channel data with heq | ⟨-, heq⟩
    · rw [heq]
      exact h.inbound target
    · rw [heq]
      exact h.inbound target
  | write target out capacity unreliable nowUs =>
    obtain ⟨base, record, first, count, hout⟩ := h.outbound target
    refine h.update target ((h.honest target).write_step out capacity unreliable nowUs) ?_
      ⟨base, hout.write_step (h.honest target) (h.inbound target) out capacity unreliable nowUs⟩
      (hidle _ _ rfl)
    rw [Peer.write]
    rcases (l target).endpoint.writePacket_cases out capacity unreliable nowUs with
      ⟨-, heq⟩ | ⟨_, _, _, _, _, -, -, -, -, heq, -⟩
    · rw [heq]
      exact h.inbound target
    · rw [heq]
      exact h.inbound target
  | read target index nowUs =>
    cases hsent : (l target.other).log[index]? with
    | none => simpa only [step, hsent] using h
    | some s =>
      simp only [step, hsent]
      have hmem := List.mem_of_getElem? hsent
      obtain ⟨hnear, hfresh⟩ := hok s hsent
      obtain ⟨base, record, first, count, hout⟩ := h.outbound target
      obtain ⟨base₂, record₂, first₂, count₂, hback⟩ := h.outbound target.other
      rw [Side.other_other] at hback
      have hlogged := hback.log s hmem
      obtain ⟨packet, hfits, henc, -⟩ := hlogged.packet
      obtain ⟨hin, base', record', hout'⟩ := hout.read_step (h.honest target) (h.inbound target)
        hlogged hnear hfresh nowUs
      refine h.update target ((h.honest target).read_step hfits henc nowUs) hin
        ⟨base', record', first, count, hout'⟩ ⟨base₂, record₂, first₂, count₂, ?_⟩
      have htaken : ((l target).read s nowUs).taken = (l target).taken ∨
          ((l target).read s nowUs).taken = (l target).taken ++ [s] := by
        rw [Peer.read]
        split
        · exact Or.inl rfl
        · exact Or.inr rfl
      refine hback.frame rfl rfl rfl rfl rfl rfl (fun _ => id) (fun t ht => ?_) (fun t ht => ?_)
      · rcases htaken with heq | heq
        · rwa [heq]
        · rw [heq]
          exact List.mem_append_left _ ht
      · rcases htaken with heq | heq
        · exact hback.taken t (heq ▸ ht)
        · rw [heq, List.mem_append, List.mem_singleton] at ht
          rcases ht with ht | rfl
          · exact hback.taken t ht
          · exact hmem
  | update target =>
    obtain ⟨base, record, first, count, hout⟩ := h.outbound target
    obtain ⟨stats, cursor, heq⟩ := (l target).endpoint.update_frame
    refine h.update target (h.honest target).update_step ?_ ⟨base, record, first, count, ?_⟩
      (hidle target _ (by rw [Peer.update]))
    · rw [Peer.update, heq]
      exact h.inbound target
    · rw [Peer.update, heq]
      exact hout.frame rfl rfl rfl rfl rfl rfl (fun _ => id) (fun _ => id) hout.taken

/-- Nothing is forgotten: the deque of `p` holds what it accepted from some message
on, the other side took in a packet with each earlier message, and a record marked
acknowledged is one of a position the other side received. -/
def NothingForgotten (p q : Peer) : Prop :=
  (∃ left ≤ p.accepted.length,
    p.endpoint.unacked.map ReliableMessage.onWire = p.accepted.drop left ∧
    ∀ k < left, ∃ s ∈ q.taken, CarriedBy p.accepted k s) ∧
  ∀ k < p.written, p.written ≤ k + kAckWindowSize →
    ∀ found ∈ p.endpoint.sent.find (k % 65536), found.acked = true → q.Took k

/-- In every run whose steps are sane, no side forgets a message. -/
theorem nothing_forgotten (actions : List LinkAction)
    (hok : Run.Along step Sane start actions) (side : Side) :
    NothingForgotten (Run.run step start actions side)
      (Run.run step start actions side.other) := by
  have h := Run.invariant Sync sync_step sync_start hok
  obtain ⟨base, record, first, count, hout⟩ := h.outbound side
  refine ⟨⟨base, hout.base_le, hout.queue, hout.gone⟩, fun k hk hnear found hfound hacked => ?_⟩
  rw [hout.window.find_mem hk hnear, Option.mem_some_iff] at hfound
  exact hout.acked k hk (hfound ▸ hacked)

/-- What most runs meet at a glance: no id was assigned twice, packets are near and acks
young, and a packet that acknowledges nothing is a duplicate or finds no packet sent. -/
def young (l : Link) : LinkAction → Bool
  | .queue side _ _ => (l side).accepted.length < 65536
  | .write _ _ _ _ _ => true
  | .read side index _ => (l side.other).log[index]?.all fun s =>
      ((l side).newest.all fun top => s.position < top + 2 ^ 15 && top < s.position + 2 ^ 15) &&
      match s.heard with
      | none => (l side).written == 0 ||
          (l side).endpoint.received.contains (s.position % 65536)
      | some n => (l side).written + 32 ≤ n + 65536
  | .update _ => true

theorem Sync.not_inUse {l : Link} (h : Sync l) {side : Side}
    (hshort : (l side).accepted.length < 65536) :
    ¬ (l side).InUse (l side).endpoint.nextMessageId := by
  have hp := h.honest side
  obtain ⟨base, record, first, count, hout⟩ := h.outbound side
  rw [hp.nextId, Nat.mod_eq_of_lt hshort]
  rintro (hpending | ⟨s, hs, found, hfound, -, hnamed⟩)
  · obtain ⟨m, hm, hid⟩ := List.mem_map.mp hpending
    obtain ⟨k, hk⟩ := hp.queue m hm
    obtain ⟨hlt, -⟩ := List.getElem?_eq_some_iff.mp hk
    have hnumber : m.onWire.id = k % 65536 := hp.numbered k _ hk
    change m.id = k % 65536 at hnumber
    omega
  · obtain ⟨k, hk, -, -, rfl⟩ := hout.window.find hs hfound
    rw [hout.ids k hk, mem_idRange] at hnamed
    obtain ⟨i, hi, hid⟩ := hnamed
    have hrange := hout.range_le k hk
    omega

theorem Sync.sane_of_young {l : Link} (h : Sync l) {action : LinkAction}
    (hyoung : young l action = true) : Sane l action := by
  cases action with
  | queue side channel data => exact fun _ _ => h.not_inUse (of_decide_eq_true hyoung)
  | write side out capacity unreliable nowUs => trivial
  | read side index nowUs =>
    intro s hs
    rw [young, Option.mem_def.mp hs, Option.all_some, Bool.and_eq_true] at hyoung
    obtain ⟨hnear, hheard⟩ := hyoung
    refine ⟨fun top htop => ?_, fun hread => ?_⟩
    · rw [Option.mem_def.mp htop, Option.all_some] at hnear
      simpa using hnear
    · unfold AckFresh
      cases heq : s.heard with
      | none =>
        rw [heq] at hheard
        rcases (Bool.or_eq_true _ _).mp hheard with hsilent | hold
        · intro k hk
          rw [beq_iff_eq.mp hsilent] at hk
          exact absurd hk (Nat.not_lt_zero k)
        · exact absurd (Or.inl hold) hread
      | some n =>
        rw [heq] at hheard
        have hage := of_decide_eq_true hheard
        intro packet _ _ position hposition
        left
        rcases hposition with rfl | ⟨i, hi, -, hn⟩
        · omega
        · omega
  | update side => trivial

theorem sane_of_young {actions : List LinkAction}
    (hyoung : Run.Along step (fun l action => young l action = true) start actions) :
    Run.Along step Sane start actions :=
  Run.along_of_invariant Sync (fun l action ha h =>
    have hok := h.sane_of_young ha
    ⟨sync_step l action hok h, hok⟩) sync_start hyoung

/-- Two messages are lost and sent again; the answer to the second packet releases them,
while a duplicate of that packet is refused. -/
def exchange : List LinkAction :=
  [.queue .a 1 [7, 8, 9], .queue .a 2 [10], .write .a (fun _ => 0) 64 [] 0,
    .write .a (fun _ => 0) 64 [] 0, .read .b 1 0, .write .b (fun _ => 0) 64 [] 0, .read .b 1 0,
    .read .a 0 0, .queue .a 1 [11, 12], .write .a (fun _ => 0) 64 [] 0]

theorem nothing_forgotten_exchange :
    (Run.run step start exchange .a).accepted.length = 3 ∧
    (Run.run step start exchange .a).endpoint.unacked.map ReliableMessage.payload = [[11, 12]] ∧
    (Run.run step start exchange .b).taken.map Sent.position = [1] ∧
    NothingForgotten (Run.run step start exchange .a) (Run.run step start exchange .b) :=
  ⟨by decide +kernel, by decide +kernel, by decide +kernel,
    nothing_forgotten exchange (sane_of_young (by decide +kernel)) .a⟩

/-- An empty deque and a peer that took nothing in: every accepted message is lost. -/
theorem forgotten_of_empty {p q : Peer} (hempty : p.endpoint.unacked = [])
    (haccepted : 0 < p.accepted.length) (hnone : q.taken = []) : ¬ NothingForgotten p q := by
  rintro ⟨⟨left, hle, hqueue, hgone⟩, -⟩
  have hlen := congrArg List.length hqueue
  rw [hempty, List.map_nil, List.length_nil, List.length_drop] at hlen
  obtain ⟨s, hs, -⟩ := hgone 0 (by omega)
  rw [hnone] at hs
  cases hs

/-- A message is queued and its packet lost; the other side, which has received
nothing, sends a packet with ack 0, and reading that drops the message. -/
theorem forgotten_before_contact :
    ¬ NothingForgotten
      (Run.run step start [.queue .a 1 [7], .write .a (fun _ => 0) 64 [] 0,
        .write .b (fun _ => 0) 64 [] 0, .read .a 0 0] .a)
      (Run.run step start [.queue .a 1 [7], .write .a (fun _ => 0) 64 [] 0,
        .write .b (fun _ => 0) 64 [] 0, .read .a 0 0] .b) :=
  forgotten_of_empty (by decide +kernel) (by decide +kernel) (by decide +kernel)

end Link
end Morton.Net
