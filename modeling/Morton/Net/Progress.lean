import Morton.Net.AckSoundness
import Morton.Net.Packing

/-! Progress of the reliable channel. What a side has released was delivered on the other
side, and once packets arrive again every round trip releases as many messages as a packet
carries, whatever the network did before. -/
namespace Morton.Net
open Proto

namespace ReliableEndpoint
section
variable {accepted : List ReliableMessage} (hnum : Numbered accepted)
  (hshort : accepted.length < 32768)
include hnum hshort

/-- A message that is taken in was delivered already, or it waits in the buffer. -/
theorem bufferMessage_waits {count k : Nat} {e : ReliableEndpoint} {m : ReliableMessage}
    (h : Awaits accepted count e) (hcount : count ≤ accepted.length)
    (hm : accepted[k]? = some m) (hnew : count ≤ k) :
    ∃ x ∈ bufferMessage e.expectedMessageId e.reorderBuffer m, x.id = m.id := by
  obtain ⟨hid, hk⟩ := hnum.index_eq hshort hm
  have hexp : e.expectedMessageId = count := by
    rw [h.expected, Nat.mod_eq_of_lt (by omega)]
  have hold : (!sequenceGreater16 m.id e.expectedMessageId && m.id != e.expectedMessageId)
      = false := by
    have horder := Serial.after_mod 32768 (p := k) (q := count) (by omega) (by omega)
    rw [Nat.mod_eq_of_lt (by omega), Nat.mod_eq_of_lt (by omega)] at horder
    rw [hid, hexp, sequenceGreater16, horder]
    by_cases heq : k = count
    · simp [heq]
    · simp [show count < k by omega]
  rw [bufferMessage, hold, if_neg (by decide)]
  split
  next hwaits =>
    obtain ⟨x, hx, hxid⟩ := List.any_eq_true.mp hwaits
    exact ⟨x, hx, beq_iff_eq.mp hxid⟩
  next => exact ⟨m, List.mem_append_right _ (List.mem_singleton_self m), rfl⟩

omit hnum hshort in
theorem bufferMessage_keeps (expected : Nat) (buffer : List ReliableMessage)
    (m : ReliableMessage) {x : ReliableMessage} (hx : x ∈ buffer) :
    x ∈ bufferMessage expected buffer m := by
  unfold bufferMessage
  dsimp only
  split_ifs
  · exact hx
  · exact hx
  · exact List.mem_append_left _ hx

omit hnum hshort in
theorem takeIn_keeps (e : ReliableEndpoint) (messages : List ReliableMessage)
    {x : ReliableMessage} (hx : x ∈ e.reorderBuffer) : x ∈ (e.takeIn messages).reorderBuffer := by
  unfold takeIn
  induction messages generalizing e with
  | nil => exact hx
  | cons m messages ih =>
    exact ih { e with reorderBuffer := bufferMessage e.expectedMessageId e.reorderBuffer m }
      (bufferMessage_keeps _ _ m hx)

theorem takeIn_waits {count k : Nat} {e : ReliableEndpoint} (h : Awaits accepted count e)
    (hcount : count ≤ accepted.length) {messages : List ReliableMessage}
    (hms : ∀ m ∈ messages, ∃ k : Nat, accepted[k]? = some m) {m : ReliableMessage}
    (hm : m ∈ messages) (hk : accepted[k]? = some m) (hnew : count ≤ k) :
    ∃ x ∈ (e.takeIn messages).reorderBuffer, x.id = m.id := by
  unfold takeIn
  induction messages generalizing e with
  | nil => cases hm
  | cons first messages ih =>
    obtain ⟨j, hj⟩ := hms first (by simp)
    have hrest : ∀ x ∈ messages, ∃ k : Nat, accepted[k]? = some x :=
      fun x hx => hms x (List.mem_cons_of_mem first hx)
    cases List.mem_cons.mp hm with
    | inl heq =>
      subst heq
      obtain ⟨x, hx, hid⟩ := bufferMessage_waits hnum hshort h hcount hk hnew
      exact ⟨x, takeIn_keeps { e with
        reorderBuffer := bufferMessage e.expectedMessageId e.reorderBuffer m } messages hx, hid⟩
    | inr hlater => exact ih (bufferMessage_awaits hnum hshort h hcount hj) hrest hlater

/-- A round of the loop delivers the message that is awaited. -/
theorem Awaits.next {count : Nat} {e : ReliableEndpoint} (h : Awaits accepted count e)
    (hcount : count ≤ accepted.length) {m : ReliableMessage}
    (hfind : (e.reorderBuffer.find? fun m => m.id == e.expectedMessageId) = some m) :
    count < accepted.length ∧ m.id = count ∧
      Awaits accepted (count + 1)
        { e with
          reorderBuffer := e.reorderBuffer.eraseP fun m => m.id == e.expectedMessageId
          expectedMessageId := (e.expectedMessageId + 1) % 65536 } := by
  have hid := List.find?_some hfind
  rw [beq_iff_eq, h.expected] at hid
  obtain ⟨k, hk, hm⟩ := h.entries m (List.mem_of_find?_eq_some hfind)
  obtain ⟨hmk, hlt⟩ := hnum.index_eq hshort hm
  have hk' : k = count := by
    rw [Nat.mod_eq_of_lt (by omega)] at hid
    omega
  subst hk'
  obtain ⟨hin, -⟩ := List.getElem?_eq_some_iff.mp hm
  refine ⟨hin, hmk, by simp [h.expected], fun x hx => ?_, ?_⟩
  · obtain ⟨j, hj, hxj⟩ := h.entries x (List.eraseP_sublist.mem hx)
    refine ⟨j, ?_, hxj⟩
    by_contra hge
    have hne := id_ne_of_mem_eraseP h.distinct hx
    rw [h.expected, hnum j x hxj] at hne
    exact hne (by rw [show j = k by omega])
  · exact h.distinct.sublist (List.eraseP_sublist.map _)

omit hnum hshort in
theorem mem_eraseP_or (expected : Nat) {buffer : List ReliableMessage} {x : ReliableMessage}
    (hx : x ∈ buffer) :
    x ∈ (buffer.eraseP fun m => m.id == expected) ∨ x.id = expected := by
  by_cases hid : x.id = expected
  · exact Or.inr hid
  · exact Or.inl ((List.mem_eraseP_of_neg (by simpa using hid)).mpr hx)

/-- The loop takes out of the buffer only what it delivers. -/
theorem deliverLoop_leaves (fuel : Nat) {count : Nat} {e : ReliableEndpoint}
    (h : Awaits accepted count e) (hcount : count ≤ accepted.length)
    (out : List ReliableMessage) {x : ReliableMessage} (hx : x ∈ e.reorderBuffer) :
    x ∈ (deliverLoop fuel e out).1.reorderBuffer ∨
      x.id < (deliverLoop fuel e out).1.expectedMessageId := by
  induction fuel generalizing count e out with
  | zero => exact Or.inl hx
  | succ fuel ih =>
    rw [deliverLoop]
    cases hfind : e.reorderBuffer.find? fun m => m.id == e.expectedMessageId with
    | none => exact Or.inl hx
    | some m =>
      obtain ⟨hlt, -, hnext⟩ := h.next hnum hshort hcount hfind
      have hexp : e.expectedMessageId = count := by
        rw [h.expected, Nat.mod_eq_of_lt (by omega)]
      cases mem_eraseP_or e.expectedMessageId hx with
      | inl hleft => exact ih hnext hlt (out ++ [m]) hleft
      | inr hid =>
        obtain ⟨n, e', heq, hle, haw⟩ := deliverLoop_awaits hnum hshort fuel hnext hlt (out ++ [m])
        right
        dsimp only
        rw [heq, haw.expected, Nat.mod_eq_of_lt (by omega), hid, hexp]
        omega

/-- Every message of a packet is delivered when none before its first is missing. -/
theorem absorb_catches {count first n : Nat} {e e' : ReliableEndpoint}
    (h : Awaits accepted count e) (hcount : count ≤ accepted.length) (hfirst : first ≤ count)
    {p : Packet} (hms : p.messages.map ReliableMessage.onWire = (accepted.drop first).take n)
    {size nowUs : Nat} {out : List ReliableMessage}
    (habsorb : e.absorb p size nowUs = (e', some out)) {m : ReliableMessage}
    (hm : m ∈ p.messages.map ReliableMessage.onWire) : m.id < count + out.length := by
  have hindex : ∀ x, x ∈ p.messages.map ReliableMessage.onWire ↔
      ∃ k, first ≤ k ∧ k < first + n ∧ accepted[k]? = some x := by
    intro x
    rw [hms, List.mem_iff_getElem?]
    constructor
    · rintro ⟨i, hi⟩
      rw [List.getElem?_take] at hi
      split at hi
      · rw [List.getElem?_drop] at hi
        exact ⟨first + i, by omega, by omega, hi⟩
      · cases hi
    · rintro ⟨k, hlow, hhigh, hk⟩
      refine ⟨k - first, ?_⟩
      rw [List.getElem?_take_of_lt (by omega), List.getElem?_drop, Nat.add_sub_cancel' hlow, hk]
  unfold absorb at habsorb
  split at habsorb
  · cases habsorb
  · split at habsorb
    · cases habsorb
    next received hinsert =>
      have hack := h.acknowledge (received.write p.sequence { recvTimeUs := nowUs, size })
        p.sequence p.ack p.ackBits
      have haccepted : ∀ x ∈ p.messages.map ReliableMessage.onWire,
          ∃ k : Nat, accepted[k]? = some x := by
        intro x hx
        obtain ⟨k, -, -, hk⟩ := (hindex x).mp hx
        exact ⟨k, hk⟩
      have htake := takeIn_awaits hnum hshort hack hcount _ haccepted
      have hwaits := fun (k : Nat) (x : ReliableMessage) hx hk hnew =>
        takeIn_waits hnum hshort (k := k) (m := x) hack hcount haccepted hx hk hnew
      dsimp only at habsorb
      generalize hloaded : takeIn _ (p.messages.map ReliableMessage.onWire) = loaded
        at habsorb htake hwaits
      obtain ⟨delivered, last, hdeliver, hle, hlast⟩ :=
        deliverInOrder_awaits hnum hshort htake hcount
      have hends := deliverLoop_ends loaded.reorderBuffer.length loaded [] (Nat.le_refl _)
      rw [← deliverInOrder, hdeliver, List.find?_eq_none] at hends
      rw [hdeliver] at habsorb
      cases habsorb
      rw [List.length_take, List.length_drop, Nat.min_eq_left (by omega)]
      obtain ⟨k, hlow, hhigh, hk⟩ := (hindex m).mp hm
      obtain ⟨hid, hbound⟩ := hnum.index_eq hshort hk
      rw [hid]
      by_contra hgap
      -- the first message that was not delivered is in the packet too, so it waits
      have hin : count + delivered < accepted.length := by
        obtain ⟨hk, -⟩ := List.getElem?_eq_some_iff.mp hk
        omega
      have hj : accepted[count + delivered]? = some accepted[count + delivered] :=
        List.getElem?_eq_getElem hin
      obtain ⟨x, hx, hxid⟩ := hwaits (count + delivered) _
        ((hindex _).mpr ⟨count + delivered, by omega, by omega, hj⟩) hj (by omega)
      rw [(hnum.index_eq hshort hj).1] at hxid
      have hexp : last.expectedMessageId = count + delivered := by
        rw [hlast.expected, Nat.mod_eq_of_lt (by omega)]
      have hleft := deliverLoop_leaves hnum hshort loaded.reorderBuffer.length htake hcount [] hx
      rw [← deliverInOrder, hdeliver] at hleft
      cases hleft with
      | inl hmem => exact hends x hmem (by simp [hxid, hexp])
      | inr hlt =>
        dsimp only at hlt
        omega

end
end ReliableEndpoint

/-- The messages of every packet that was taken in are delivered. -/
def Peer.Caught (receiver : Peer) : Prop :=
  ∀ s ∈ receiver.taken, ∀ m ∈ ReliableEndpoint.packetMessages s.bytes,
    m.id < receiver.delivered.length

theorem Peer.Caught.frame {receiver receiver' : Peer} (h : receiver.Caught)
    (htaken : receiver'.taken = receiver.taken)
    (hdelivered : receiver'.delivered = receiver.delivered) : receiver'.Caught := by
  intro s hs m hm
  rw [hdelivered]
  exact h s (htaken ▸ hs) m hm

section
variable {p q : Peer} {base : Nat} {record : Nat → SentPacket} {first count : Nat → Nat}

/-- What is no longer pending was delivered. -/
theorem Outbound.released (h : Outbound p q base record first count) (hp : p.Honest)
    (hshort : p.accepted.length < 32768) (hcaught : q.Caught) : base ≤ q.delivered.length := by
  by_contra hbehind
  obtain ⟨s, hs, -, -, m, hm, hcarried⟩ := h.gone q.delivered.length (by omega)
  have hdelivered := hcaught s hs m hcarried
  rw [(hp.numbered.index_eq hshort (Option.mem_def.mp hm)).1] at hdelivered
  omega

/-- A packet of the sender finds its receiver past the first message it carries. -/
theorem Outbound.read_caught (h : Outbound p q base record first count) (hp : p.Honest)
    (hshort : p.accepted.length < 32768) (horder : Link.InOrder p q) (hcaught : q.Caught) {s : Sent}
    (hs : s ∈ p.log) (nowUs : Nat) : (q.read s nowUs).Caught := by
  have hlogged := h.log s hs
  obtain ⟨packet, hfits, henc, -, hms, -⟩ := hlogged.packet
  have hfirst : first s.position ≤ q.delivered.length :=
    (h.behind _ hlogged.position).trans (h.released hp hshort hcaught)
  rw [Peer.read_encoded hfits henc]
  cases habsorb : q.endpoint.absorb packet s.bytes.length nowUs with
  | mk e result =>
    cases result with
    | none => exact hcaught.frame rfl rfl
    | some out =>
      intro t ht m hm
      dsimp only at ht ⊢
      rw [List.length_append]
      cases List.mem_append.mp ht with
      | inl hold => exact Nat.lt_add_right _ (hcaught t hold m hm)
      | inr hnew =>
        rw [List.mem_singleton.mp hnew, ReliableEndpoint.packetMessages_encoded hfits henc] at hm
        exact ReliableEndpoint.absorb_catches hp.numbered hshort horder.awaits horder.count hfirst
          hms habsorb hm

end

namespace Link

/-- What one direction of a link keeps. -/
structure Flowing (l : Link) (receiver : Side) : Prop where
  sync : Sync l
  order : InOrder (l receiver.other) (l receiver)
  caught : (l receiver).Caught

theorem flowing_start (receiver : Side) : Flowing start receiver where
  sync := sync_start
  order := ⟨Nat.le_refl 0, rfl, rfl, by simp [start], by simp [start]⟩
  caught := by simp [Peer.Caught, start]

/-- One sane step, while the sender has accepted fewer than `2^15` messages. -/
theorem flowing_step {l : Link} {receiver : Side} (h : Flowing l receiver) {action : LinkAction}
    (hok : Sane l action) (hshort : (l receiver.other).accepted.length < 32768) :
    Flowing (l.step action) receiver := by
  refine ⟨sync_step l action hok h.sync, inOrder_step h.sync.honest receiver h.order action hshort,
    ?_⟩
  cases action with
  | queue target channel data =>
    by_cases hside : receiver = target
    · subst hside
      rw [step, Function.update_self]
      exact h.caught.frame rfl rfl
    · rw [step, Function.update_of_ne hside]
      exact h.caught
  | write target out capacity unreliable nowUs =>
    by_cases hside : receiver = target
    · subst hside
      rw [step, Function.update_self, Peer.write]
      exact h.caught.frame rfl rfl
    · rw [step, Function.update_of_ne hside]
      exact h.caught
  | read target index nowUs =>
    cases hsent : (l target.other).log[index]? with
    | none => simpa only [step, hsent] using h.caught
    | some s =>
      simp only [step, hsent]
      by_cases hside : receiver = target
      · subst hside
        obtain ⟨base, record, first, count, hout⟩ := h.sync.outbound receiver.other
        rw [Side.other_other] at hout
        rw [Function.update_self]
        exact hout.read_caught (h.sync.honest _) hshort h.order h.caught
          (List.mem_of_getElem? hsent) nowUs
      · rw [Function.update_of_ne hside]
        exact h.caught
  | update target =>
    by_cases hside : receiver = target
    · subst hside
      rw [step, Function.update_self, Peer.update]
      exact h.caught.frame rfl rfl
    · rw [step, Function.update_of_ne hside]
      exact h.caught

theorem Flowing.run {l : Link} {receiver : Side} (h : Flowing l receiver)
    {actions : List LinkAction} (hok : Run.Along step Sane l actions)
    (hshort : (Run.run step l actions receiver.other).accepted.length < 32768) :
    Flowing (Run.run step l actions) receiver := by
  have halong := Run.along_of_measure (fun l : Link => (l receiver.other).accepted.length)
    (accepted_mono receiver.other) hshort
  refine Run.invariant (fun l => Flowing l receiver) ?_ h (Run.along_and hok halong)
  intro l action hboth h
  exact flowing_step h hboth.1
    (Nat.lt_of_le_of_lt (accepted_mono receiver.other l action) hboth.2)

/-- A message leaves the deque only after the other side has delivered it: what is not
pending is the beginning of what was delivered. -/
theorem released_delivered (actions : List LinkAction)
    (hok : Run.Along step Sane start actions) (side : Side)
    (hshort : (Run.run step start actions side).accepted.length < 2 ^ 15) :
    let l := Run.run step start actions
    ∃ released, released ++ (l side).endpoint.unacked.map ReliableMessage.onWire =
        (l side).accepted ∧ released <+: (l side.other).delivered := by
  have h := (flowing_start side.other).run hok (by rwa [Side.other_other])
  generalize Run.run step start actions = l at h hshort
  obtain ⟨base, record, first, count, hout⟩ := h.sync.outbound side
  have horder := h.order
  rw [Side.other_other] at horder
  have hreleased := hout.released (h.sync.honest side) hshort h.caught
  refine ⟨(l side).accepted.take base, ?_, ?_⟩
  · rw [hout.queue, List.take_append_drop]
  · rw [horder.delivered]
    exact List.take_prefix_take_left hreleased

theorem released_delivered_exchange :
    (Run.run step start exchange .a).endpoint.unacked.length = 1 ∧
    (let l := Run.run step start exchange
    ∃ released, released ++ (l .a).endpoint.unacked.map ReliableMessage.onWire =
        (l .a).accepted ∧ released <+: (l .b).delivered) :=
  ⟨by decide +kernel,
    released_delivered exchange (sane_of_young (by decide +kernel)) .a (by decide +kernel)⟩

end Link
end Morton.Net
