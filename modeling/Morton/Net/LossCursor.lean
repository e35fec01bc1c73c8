import Morton.Net.EndpointRuns
import Morton.Net.AckSoundness

/-! The loss cursor over whole runs: `update` judges each packet once, when it falls more
than `kLossHorizon` behind, and counts it as lost if no ack has named it by then. The audit
beside the endpoint numbers the packets without wrapping. -/
namespace Morton.Net
open Proto

namespace ReliableEndpoint

/-- The values of `loss_cursor_` in the rounds of the cursor loop. -/
def cursorRounds (horizonEnd : Nat) : Nat → Nat → List Nat
  | 0, _ => []
  | fuel+1, cursor =>
    if sequenceGreater16 horizonEnd cursor then
      cursor :: cursorRounds horizonEnd fuel ((cursor + 1) % 65536)
    else []

/-- A round counts its packet as lost: the record is there and is not acknowledged. -/
def countsLost (sent : SequenceBuffer SentPacket kAckWindowSize) (s : Nat) : Bool :=
  (sent.find s).any fun record => !record.acked

/-- The sequences that `update` moves the loss cursor over. -/
def passed (e : ReliableEndpoint) : List Nat :=
  let horizonEnd := sub16 e.sequence kLossHorizon
  cursorRounds horizonEnd 32768 (if e.hasLossCursor then e.lossCursor else horizonEnd)

theorem lossLoop_eq (horizonEnd fuel : Nat) (e : ReliableEndpoint) (hcursor : e.lossCursor < 65536) :
    lossLoop horizonEnd fuel e =
      { e with
        stats := { e.stats with
          packetsLost := e.stats.packetsLost +
            (cursorRounds horizonEnd fuel e.lossCursor).countP (countsLost e.sent) }
        lossCursor :=
          (e.lossCursor + (cursorRounds horizonEnd fuel e.lossCursor).length) % 65536 } := by
  induction fuel generalizing e with
  | zero => simp [lossLoop, cursorRounds, Nat.mod_eq_of_lt hcursor]
  | succ fuel ih =>
    rw [lossLoop, cursorRounds]
    split
    next =>
      have hnext : ∀ n, ((e.lossCursor + 1) % 65536 + n) % 65536 = (e.lossCursor + (n + 1)) % 65536 := by
        omega
      rw [ih _ (Nat.mod_lt _ (by decide)), List.countP_cons, List.length_cons]
      cases hfind : e.sent.find e.lossCursor with
      | none => simp [countsLost, hfind, hnext]
      | some record =>
        cases hacked : record.acked with
        | true => simp [countsLost, hfind, hacked, hnext]
        | false => simp [countsLost, hfind, hacked, hnext, Nat.add_assoc, Nat.add_comm 1]
    next => simp [Nat.mod_eq_of_lt hcursor]

/-- Between two positions less than half a lap apart the loop takes every one in turn. -/
theorem cursorRounds_positions {q r fuel : Nat} (hle : q ≤ r) (hnear : r < q + 32768)
    (hfuel : r - q ≤ fuel) :
    cursorRounds (r % 65536) fuel (q % 65536) = (List.range' q (r - q)).map (· % 65536) := by
  have horder : ∀ q ≤ r, r < q + 32768 →
      sequenceGreater16 (r % 65536) (q % 65536) = decide (q < r) :=
    fun q hq hr => Serial.after_mod 32768 hr (by omega)
  induction fuel generalizing q with
  | zero =>
    have hnone : r - q = 0 := by omega
    simp [cursorRounds, hnone]
  | succ fuel ih =>
    rw [cursorRounds, horder q hle hnear]
    by_cases hlt : q < r
    · have hcount : r - q = (r - (q + 1)) + 1 := by omega
      have hwrap : (q % 65536 + 1) % 65536 = (q + 1) % 65536 := by simp
      rw [if_pos (by simpa using hlt), hwrap, ih hlt (by omega) (by omega), hcount,
        List.range'_succ, List.map_cons]
    · have hnone : r - q = 0 := by omega
      simp [hlt, hnone]

/-- `update` as the rounds of its cursor loop. -/
theorem update_eq (e : ReliableEndpoint)
    (hstart : (if e.hasLossCursor then e.lossCursor else sub16 e.sequence kLossHorizon) < 65536) :
    e.update =
      { e with
        stats := { e.stats with
          packetsLost := e.stats.packetsLost + e.passed.countP (countsLost e.sent) }
        lossCursor := ((if e.hasLossCursor then e.lossCursor
          else sub16 e.sequence kLossHorizon) + e.passed.length) % 65536
        hasLossCursor := true } := by
  unfold update passed
  cases hhas : e.hasLossCursor with
  | true =>
    rw [hhas, if_pos rfl] at hstart
    simp only [if_true]
    rw [lossLoop_eq _ _ _ hstart, hhas]
  | false =>
    rw [hhas, if_neg Bool.false_ne_true] at hstart
    simp only [Bool.false_eq_true, if_false]
    rw [lossLoop_eq _ _ { e with
      lossCursor := sub16 e.sequence kLossHorizon, hasLossCursor := true } hstart]

/-- What decides the next verdicts, apart from the records, is as before. -/
structure JudgingKept (e e' : ReliableEndpoint) : Prop where
  cursor : e'.lossCursor = e.lossCursor
  any : e'.hasLossCursor = e.hasLossCursor
  lost : e'.stats.packetsLost = e.stats.packetsLost

theorem JudgingKept.refl (e : ReliableEndpoint) : JudgingKept e e := ⟨rfl, rfl, rfl⟩

theorem JudgingKept.trans {e e' e'' : ReliableEndpoint} (h : JudgingKept e e')
    (h' : JudgingKept e' e'') : JudgingKept e e'' :=
  ⟨h'.cursor.trans h.cursor, h'.any.trans h.any, h'.lost.trans h.lost⟩

theorem queueReliable_judging (e : ReliableEndpoint) (channel : UInt8) (data : List UInt8) :
    JudgingKept e (e.queueReliable channel data) := by
  unfold queueReliable
  split
  · exact JudgingKept.refl e
  · exact ⟨rfl, rfl, rfl⟩

theorem writePacket_judging (e : ReliableEndpoint) (out : Nat → UInt8) (capacity : Nat)
    (unreliable : List UInt8) (nowUs : Nat) :
    JudgingKept e (e.writePacket out capacity unreliable nowUs).1 := by
  unfold writePacket
  dsimp only
  split
  · exact ⟨rfl, rfl, rfl⟩
  · split
    · exact ⟨rfl, rfl, rfl⟩
    · exact ⟨rfl, rfl, rfl⟩

theorem noteReceived_judging (e : ReliableEndpoint)
    (received : SequenceBuffer ReceivedPacket kAckWindowSize) (s : Nat) :
    JudgingKept e (e.noteReceived received s) := by
  unfold noteReceived
  dsimp only
  split
  · exact ⟨rfl, rfl, rfl⟩
  · split
    · exact ⟨rfl, rfl, rfl⟩
    · exact ⟨rfl, rfl, rfl⟩

/-- An ack marks the record of its sequence. -/
def markAcked (sent : SequenceBuffer SentPacket kAckWindowSize) (s : Nat) :
    SequenceBuffer SentPacket kAckWindowSize :=
  (sent.find s).elim sent fun record =>
    if record.acked then sent else sent.write s { record with acked := true }

theorem onPacketAcked_judging (e : ReliableEndpoint) (s : Nat) :
    JudgingKept e (e.onPacketAcked s) ∧ (e.onPacketAcked s).sent = markAcked e.sent s := by
  unfold onPacketAcked markAcked
  cases e.sent.find s with
  | none => exact ⟨JudgingKept.refl e, rfl⟩
  | some record =>
    cases hacked : record.acked with
    | true => simp [hacked, JudgingKept.refl]
    | false =>
      simp only [hacked, Bool.false_eq_true, if_false, Option.elim_some]
      exact ⟨⟨rfl, rfl, rfl⟩, trivial⟩

theorem processAcks_judging (e : ReliableEndpoint) (ack bits : Nat) :
    JudgingKept e (e.processAcks ack bits) ∧
      (e.processAcks ack bits).sent = (ackedSequences ack bits).foldl markAcked e.sent := by
  unfold processAcks
  generalize ackedSequences ack bits = acked
  induction acked generalizing e with
  | nil => exact ⟨JudgingKept.refl e, rfl⟩
  | cons s acked ih =>
    obtain ⟨hkept, hsent⟩ := e.onPacketAcked_judging s
    obtain ⟨hrest, hlast⟩ := ih (e.onPacketAcked s)
    rw [hsent] at hlast
    exact ⟨hkept.trans hrest, hlast⟩

instance (e : ReliableEndpoint) (data : Nat → UInt8) (size : Nat) : Decidable (e.IsNew data size) :=
  inferInstanceAs (Decidable ((packetHeader data size).2.2.2.overflow = false ∧
    e.received.contains (packetHeader data size).1 = false ∧
    (e.received.insert (packetHeader data size).1).isSome = true))

/-- The sequences that `read_packet` takes as acknowledged: those its header names, if the
packet is new. -/
def acksRead (e : ReliableEndpoint) (data : Nat → UInt8) (size : Nat) : List Nat :=
  if e.IsNew data size then
    ackedSequences (packetHeader data size).2.1 (packetHeader data size).2.2.1
  else []

theorem readPacket_new {e : ReliableEndpoint} {data : Nat → UInt8} {size : Nat}
    (hnew : e.IsNew data size) (nowUs : Nat) :
    JudgingKept e (e.readPacket data size nowUs).1 ∧
      (e.readPacket data size nowUs).1.sequence = e.sequence ∧
      (e.readPacket data size nowUs).1.sent =
        (ackedSequences (packetHeader data size).2.1 (packetHeader data size).2.2.1).foldl
          markAcked e.sent := by
  revert hnew
  unfold readPacket IsNew packetHeader
  dsimp only
  generalize (BitReader.new data size).readU16 = first
  generalize first.2.readU16 = second
  generalize second.2.readU32 = third
  rintro ⟨hover, hseen, hinsert⟩
  obtain ⟨received, hinsert⟩ := Option.isSome_iff_exists.mp hinsert
  simp only [hover, hseen, hinsert, Bool.false_eq_true, if_false]
  generalize hnoted : e.noteReceived
    (received.write first.1 { recvTimeUs := nowUs, size }) first.1 = noted
  obtain ⟨hkept, hsent⟩ := noted.processAcks_judging second.1 third.1
  obtain ⟨stats, highest, hnote, -⟩ := e.noteReceived_frame
    (received.write first.1 { recvTimeUs := nowUs, size }) first.1
  have hbefore := e.noteReceived_judging
    (received.write first.1 { recvTimeUs := nowUs, size }) first.1
  obtain ⟨_, _, _, hacks, -⟩ := noted.processAcks_frame second.1 third.1
  obtain ⟨buffer, expected, hbody⟩ :=
    readBody_frame (noted.processAcks second.1 third.1) third.2 size
  rw [hnoted] at hnote hbefore
  have hsequence : noted.sequence = e.sequence := by rw [hnote]
  have hwindow : noted.sent = e.sent := by rw [hnote]
  rw [hbody, ← hwindow]
  refine ⟨?_, ?_, hsent⟩
  · have h := hbefore.trans hkept
    exact ⟨h.cursor, h.any, h.lost⟩
  · rw [hacks]
    exact hsequence

/-- A packet that is read touches the sent window through its acks only. -/
theorem readPacket_judging (e : ReliableEndpoint) (data : Nat → UInt8) (size nowUs : Nat) :
    JudgingKept e (e.readPacket data size nowUs).1 ∧
      (e.readPacket data size nowUs).1.sequence = e.sequence ∧
      (e.readPacket data size nowUs).1.sent = (e.acksRead data size).foldl markAcked e.sent := by
  unfold acksRead
  split
  next hnew => exact readPacket_new hnew nowUs
  next hold =>
    cases e.readPacket_cases data size nowUs with
    | inl hrefused =>
      rw [hrefused.2]
      exact ⟨JudgingKept.refl e, rfl, rfl⟩
    | inr hnew => exact absurd hnew.1 hold

theorem acksRead_lt (e : ReliableEndpoint) (data : Nat → UInt8) (size : Nat) :
    ∀ s ∈ e.acksRead data size, s < 65536 := by
  intro s hs
  unfold acksRead at hs
  split at hs
  next =>
    cases ackedSequences_cases hs with
    | inl hack =>
      rw [hack]
      exact BitReader.readBits_lt _ 16
    | inr hbit =>
      obtain ⟨i, -, -, rfl⟩ := hbit
      exact Nat.mod_lt _ (by decide)
  next => cases hs

end ReliableEndpoint

/-- A packet the loss cursor moved over, and whether an ack had named it by then. -/
structure Verdict where
  packet : Nat
  acknowledged : Bool
  deriving DecidableEq

/-- An endpoint, and what an observer that numbers its packets 0, 1, 2, … notes down. -/
structure Audit where
  endpoint : ReliableEndpoint := {}
  /-- The calls of `write_packet` so far; each of them takes a sequence. -/
  written : Nat := 0
  /-- What `written` was at the last `update`. -/
  lastUpdate : Option Nat := none
  acknowledged : List Nat := []
  verdicts : List Verdict := []

namespace Audit
open ReliableEndpoint

/-- The packet that a sequence stands for is the newest one written under it. -/
def packetOf (a : Audit) (s : Nat) : Option Nat := Serial.newest 65536 a.written s

def judge (a : Audit) (s : Nat) : Option Verdict :=
  (a.packetOf s).map fun p => { packet := p, acknowledged := decide (p ∈ a.acknowledged) }

def step (a : Audit) (action : EndpointAction) : Audit :=
  let after := { a with endpoint := a.endpoint.act action }
  match action with
  | .queue _ _ => after
  | .write _ _ _ _ => { after with written := a.written + 1 }
  | .read data _ =>
    { after with
      acknowledged := a.acknowledged ++
        (a.endpoint.acksRead (BitReader.view data) data.length).filterMap a.packetOf }
  | .update =>
    { after with
      lastUpdate := some a.written
      verdicts := a.verdicts ++ a.endpoint.passed.filterMap a.judge }
  | .reset => {}

/-- The first update comes while at most `kLossHorizon` packets are written, and each later
one at most 900 packets after the one before. -/
def Paced (a : Audit) : EndpointAction → Prop
  | .update => a.written ≤ a.lastUpdate.elim kLossHorizon (· + 900)
  | _ => True

instance (a : Audit) : ∀ action, Decidable (a.Paced action)
  | .update =>
    inferInstanceAs (Decidable (a.written ≤ a.lastUpdate.elim kLossHorizon (· + 900)))
  | .queue _ _ | .write _ _ _ _ | .read _ _ | .reset => isTrue trivial

/-- The audit only watches. -/
theorem step_endpoint (a : Audit) (action : EndpointAction) :
    (a.step action).endpoint = a.endpoint.act action := by
  cases action with
  | reset => rfl
  | _ => simp only [step]

theorem run_endpoint (a : Audit) (actions : List EndpointAction) :
    (Run.run step a actions).endpoint = Run.run act a.endpoint actions := by
  induction actions generalizing a with
  | nil => rfl
  | cons action actions ih =>
    rw [Run.run_cons, Run.run_cons, ih, step_endpoint]

theorem packetOf_eq_some_iff (a : Audit) {s p : Nat} (hs : s < 65536) :
    a.packetOf s = some p ↔ p < a.written ∧ a.written ≤ p + 65536 ∧ p % 65536 = s :=
  Serial.newest_eq_some_iff hs

end Audit

/-- The window holds the newest records, and the marked ones are those an ack has named. -/
structure Marked (sent : SequenceBuffer SentPacket kAckWindowSize) (written : Nat)
    (acknowledged : List Nat) (record : Nat → SentPacket) : Prop where
  window : Recorded sent written record
  marked : ∀ k < written, written ≤ k + kAckWindowSize →
    ((record k).acked = true ↔ k ∈ acknowledged)
  known : ∀ k ∈ acknowledged, k < written

section
variable {sent : SequenceBuffer SentPacket kAckWindowSize} {written : Nat}
  {acknowledged : List Nat} {record : Nat → SentPacket}

/-- The window never answers for a packet of an earlier lap: a record that is found is the
record of the packet its sequence stands for. -/
theorem Marked.find (h : Marked sent written acknowledged record) {s : Nat} (hs : s < 65536)
    {found : SentPacket} (hfind : sent.find s = some found) :
    ∃ p, Serial.newest 65536 written s = some p ∧ p < written ∧
      written ≤ p + kAckWindowSize ∧ p % 65536 = s ∧ record p = found := by
  obtain ⟨p, hp, hnear, hmod, hrecord⟩ := h.window.find hs hfind
  refine ⟨p, (Serial.newest_eq_some_iff hs).mpr ⟨hp, ?_, hmod⟩, hp, hnear, hmod, hrecord⟩
  unfold kAckWindowSize at hnear
  omega

/-- One ack, whether it finds a record or not. -/
theorem Marked.ack (h : Marked sent written acknowledged record) {s : Nat} (hs : s < 65536) :
    ∃ record', Marked (ReliableEndpoint.markAcked sent s) written
      (acknowledged ++ (Serial.newest 65536 written s).toList) record' := by
  have hknown : ∀ k ∈ acknowledged ++ (Serial.newest 65536 written s).toList, k < written := by
    intro k hk
    cases List.mem_append.mp hk with
    | inl hold => exact h.known k hold
    | inr hnew =>
      exact ((Serial.newest_eq_some_iff hs).mp (Option.mem_toList.mp hnew)).1
  unfold ReliableEndpoint.markAcked
  cases hfind : sent.find s with
  | none =>
    refine ⟨record, h.window, fun k hk hnear => ?_, hknown⟩
    rw [h.marked k hk hnear, List.mem_append, Option.mem_toList]
    constructor
    · exact Or.inl
    · intro hmem
      cases hmem with
      | inl hold => exact hold
      | inr hnewest =>
        obtain ⟨-, -, rfl⟩ := (Serial.newest_eq_some_iff hs).mp hnewest
        rw [h.window.find_mem hk hnear] at hfind
        cases hfind
  | some found =>
    obtain ⟨p, hnewest, hp, hnear, rfl, rfl⟩ := h.find hs hfind
    rw [hnewest] at hknown ⊢
    rw [Option.elim_some]
    split
    next hacked =>
      have hold : p ∈ acknowledged := (h.marked p hp hnear).mp hacked
      refine ⟨record, h.window, fun k hk hwindow => ?_, hknown⟩
      rw [h.marked k hk hwindow]
      simp only [Option.toList_some, List.mem_append, List.mem_singleton]
      constructor
      · exact Or.inl
      · intro hmem
        cases hmem with
        | inl hk => exact hk
        | inr heq => exact heq ▸ hold
    next =>
      refine ⟨_, h.window.write hp hnear { record p with acked := true }, fun k hk hwindow => ?_,
        hknown⟩
      by_cases hkp : k = p
      · subst hkp
        simp
      · simp [hkp, h.marked k hk hwindow]

theorem Marked.ackAll (h : Marked sent written acknowledged record) {acked : List Nat}
    (hacked : ∀ s ∈ acked, s < 65536) :
    ∃ record', Marked (acked.foldl ReliableEndpoint.markAcked sent) written
      (acknowledged ++ acked.filterMap (Serial.newest 65536 written)) record' := by
  induction acked generalizing sent acknowledged record with
  | nil => exact ⟨record, by simpa using h⟩
  | cons s acked ih =>
    obtain ⟨hs, hrest⟩ := List.forall_mem_cons.mp hacked
    obtain ⟨record', hone⟩ := h.ack hs
    obtain ⟨record'', hall⟩ := ih hone hrest
    refine ⟨record'', ?_⟩
    have hnames : (Serial.newest 65536 written s).toList ++
        acked.filterMap (Serial.newest 65536 written) =
        (s :: acked).filterMap (Serial.newest 65536 written) := by
      cases hnewest : Serial.newest 65536 written s <;> simp [hnewest]
    rwa [List.append_assoc, hnames] at hall

end

namespace Audit
open ReliableEndpoint

/-- For a packet still in the window the round of the cursor loop agrees with the audit. -/
theorem countsLost_judge {a : Audit} {record : Nat → SentPacket}
    (h : Marked a.endpoint.sent a.written a.acknowledged record) {s : Nat} (hs : s < 65536)
    (hnear : ∀ p ∈ a.packetOf s, a.written ≤ p + kAckWindowSize) :
    countsLost a.endpoint.sent s = (a.judge s).any fun v => !v.acknowledged := by
  unfold countsLost judge
  cases hpacket : a.packetOf s with
  | none =>
    cases hfind : a.endpoint.sent.find s with
    | none => rfl
    | some found =>
      obtain ⟨p, hp, -⟩ := h.find hs hfind
      rw [packetOf, hp] at hpacket
      cases hpacket
  | some p =>
    obtain ⟨hp, -, rfl⟩ := (a.packetOf_eq_some_iff hs).mp hpacket
    have hwindow := hnear p hpacket
    have hmarked := h.marked p hp hwindow
    rw [h.window.find_mem hp hwindow]
    simp [← hmarked]

/-- The packets judged so far are the oldest ones, up to the horizon of the last `update`. -/
structure Judged (a : Audit) (record : Nat → SentPacket) : Prop where
  sequence : a.endpoint.sequence = a.written % 65536
  marked : Marked a.endpoint.sent a.written a.acknowledged record
  fresh : a.lastUpdate = none → a.endpoint.hasLossCursor = false
  cursor : ∀ n ∈ a.lastUpdate, n ≤ a.written ∧ a.endpoint.hasLossCursor = true ∧
    a.endpoint.lossCursor = (n + 65504) % 65536
  verdicts : a.verdicts.map Verdict.packet = List.range (a.lastUpdate.getD 0 - kLossHorizon)
  lost : a.endpoint.stats.packetsLost = a.verdicts.countP fun v => !v.acknowledged

theorem judged_new : ({} : Audit).Judged default where
  sequence := rfl
  marked := ⟨⟨rfl, fun _ => rfl⟩, by simp, by simp⟩
  fresh _ := rfl
  cursor := by simp
  verdicts := rfl
  lost := rfl

/-- Between two calls of `update` no verdict falls. -/
theorem Judged.frame {a a' : Audit} {record record' : Nat → SentPacket} (h : a.Judged record)
    (hkept : JudgingKept a.endpoint a'.endpoint) (hlast : a'.lastUpdate = a.lastUpdate)
    (hverdicts : a'.verdicts = a.verdicts) (hwritten : a.written ≤ a'.written)
    (hsequence : a'.endpoint.sequence = a'.written % 65536)
    (hmarked : Marked a'.endpoint.sent a'.written a'.acknowledged record') :
    a'.Judged record' where
  sequence := hsequence
  marked := hmarked
  fresh hnone := hkept.any.trans (h.fresh (hlast ▸ hnone))
  cursor n hn := by
    obtain ⟨hle, hhas, hcursor⟩ := h.cursor n (hlast ▸ hn)
    exact ⟨hle.trans hwritten, hkept.any.trans hhas, hkept.cursor.trans hcursor⟩
  verdicts := by rw [hverdicts, hlast, h.verdicts]
  lost := by rw [hverdicts, hkept.lost, h.lost]

theorem Judged.queue_step {a : Audit} {record : Nat → SentPacket} (h : a.Judged record)
    (channel : UInt8) (data : List UInt8) : (a.step (.queue channel data)).Judged record := by
  refine h.frame (queueReliable_judging a.endpoint channel data) rfl rfl (Nat.le_refl _) ?_ ?_
  · cases a.endpoint.queueReliable_cases channel data with
    | inl heq => simp only [step, act, heq, h.sequence]
    | inr heq => simp only [step, act, heq.2, h.sequence]
  · cases a.endpoint.queueReliable_cases channel data with
    | inl heq => simpa only [step, act, heq] using h.marked
    | inr heq => simpa only [step, act, heq.2] using h.marked

theorem Judged.write_step {a : Audit} {record : Nat → SentPacket} (h : a.Judged record)
    (out : Nat → UInt8) (capacity : Nat) (unreliable : List UInt8) (nowUs : Nat) :
    ∃ record', (a.step (.write out capacity unreliable nowUs)).Judged record' := by
  have hkept := a.endpoint.writePacket_judging out capacity unreliable nowUs
  rcases a.endpoint.writePacket_cases out capacity unreliable nowUs with
    ⟨hnone, -⟩ | ⟨sent, count, value, stats, packet, hinsert, -, hnew, -, heq, -⟩
  · obtain ⟨sent, hsome, -⟩ := h.marked.window.insert default
    rw [h.sequence, hsome] at hnone
    cases hnone
  · obtain ⟨sent', hsome, hwindow⟩ := h.marked.window.insert value
    rw [h.sequence, hsome, Option.some.injEq] at hinsert
    subst hinsert
    refine ⟨Function.update record a.written value, ?_⟩
    refine h.frame hkept rfl rfl (Nat.le_succ _) ?_ ?_
    · simp only [step, act, heq, h.sequence]
      omega
    · simp only [step, act, heq, h.sequence]
      refine ⟨hwindow, fun k hk hnear => ?_, fun k hk => Nat.lt_succ_of_lt (h.marked.known k hk)⟩
      by_cases hlast : k = a.written
      · have hunknown : a.written ∉ a.acknowledged := fun hmem =>
          Nat.lt_irrefl _ (h.marked.known _ hmem)
        rw [hlast, Function.update_self, hnew]
        simp [hunknown]
      · rw [Function.update_of_ne hlast]
        exact h.marked.marked k (by omega) (by omega)

theorem Judged.read_step {a : Audit} {record : Nat → SentPacket} (h : a.Judged record)
    (data : List UInt8) (nowUs : Nat) :
    ∃ record', (a.step (.read data nowUs)).Judged record' := by
  obtain ⟨hkept, hsequence, hsent⟩ :=
    a.endpoint.readPacket_judging (BitReader.view data) data.length nowUs
  obtain ⟨record', hmarked⟩ := h.marked.ackAll
    (a.endpoint.acksRead_lt (BitReader.view data) data.length)
  refine ⟨record', ?_⟩
  refine h.frame hkept rfl rfl (Nat.le_refl _) ?_ ?_
  · exact hsequence.trans h.sequence
  · rw [← hsent] at hmarked
    exact hmarked

section
variable {a : Audit} {record : Nat → SentPacket} (h : a.Judged record)
  (hpaced : a.Paced .update)
include h hpaced

/-- The cursor, before the loop runs, is at the horizon of the last `update`; there is none
before the first, which starts at its own. -/
theorem Judged.start :
    a.lastUpdate.getD a.written ≤ a.written ∧ a.written ≤ a.lastUpdate.getD a.written + 900 ∧
      (if a.endpoint.hasLossCursor then a.endpoint.lossCursor
        else sub16 a.endpoint.sequence kLossHorizon) =
        (a.lastUpdate.getD a.written + 65504) % 65536 := by
  unfold Paced at hpaced
  cases hlast : a.lastUpdate with
  | none =>
    rw [h.fresh hlast, h.sequence]
    simp only [Option.getD_none, Bool.false_eq_true, if_false, sub16, kLossHorizon]
    omega
  | some n =>
    obtain ⟨hle, hhas, hcursor⟩ := h.cursor n hlast
    rw [hlast] at hpaced
    simp only [hhas, hcursor, if_true, Option.getD_some]
    exact ⟨hle, hpaced, trivial⟩

theorem Judged.passed_positions :
    a.endpoint.passed = (List.range' (a.lastUpdate.getD a.written + 65504)
      (a.written - a.lastUpdate.getD a.written)).map (· % 65536) := by
  obtain ⟨hle, hnear, hstart⟩ := h.start hpaced
  have hhorizon : sub16 a.endpoint.sequence kLossHorizon = (a.written + 65504) % 65536 := by
    rw [h.sequence]
    unfold sub16 kLossHorizon
    omega
  have hcount : a.written - a.lastUpdate.getD a.written =
      a.written + 65504 - (a.lastUpdate.getD a.written + 65504) := by omega
  unfold passed
  dsimp only
  rw [hstart, hhorizon, hcount]
  exact cursorRounds_positions (by omega) (by omega) (by omega)

/-- Each round is at the packet 65536 positions below, or before the first packet. -/
theorem Judged.packetOf_round {q : Nat} (hfirst : a.lastUpdate.getD a.written + 65504 ≤ q)
    (hlast : q < a.written + 65504) :
    a.packetOf (q % 65536) = if q < 65536 then none else some (q - 65536) := by
  obtain ⟨hle, hnear, -⟩ := h.start hpaced
  split
  next hlow =>
    rw [Nat.mod_eq_of_lt hlow]
    exact if_neg (by omega)
  next hhigh =>
    exact (a.packetOf_eq_some_iff (Nat.mod_lt _ (by decide))).mpr (by omega)

theorem Judged.passed_packets :
    a.endpoint.passed.filterMap a.packetOf =
      List.range' (a.lastUpdate.getD a.written - 32)
        (a.written - 32 - (a.lastUpdate.getD a.written - 32)) := by
  obtain ⟨hle, -, -⟩ := h.start hpaced
  have hround : ∀ q ∈ List.range' (a.lastUpdate.getD a.written + 65504)
      (a.written - a.lastUpdate.getD a.written),
      (a.packetOf ∘ (· % 65536)) q = if q < 65536 then none else some (q - 65536) := by
    intro q hq
    rw [List.mem_range'_1] at hq
    exact h.packetOf_round hpaced hq.1 (by omega)
  have hfirst : a.lastUpdate.getD a.written + 65504 - 65536 = a.lastUpdate.getD a.written - 32 := by
    omega
  have hcount : a.lastUpdate.getD a.written + 65504 + (a.written - a.lastUpdate.getD a.written) -
      65536 - (a.lastUpdate.getD a.written - 32) =
      a.written - 32 - (a.lastUpdate.getD a.written - 32) := by omega
  rw [h.passed_positions hpaced, List.filterMap_map, List.filterMap_congr hround,
    Serial.filterMap_range'_sub, hfirst, hcount]

theorem Judged.passed_lost :
    a.endpoint.passed.countP (countsLost a.endpoint.sent) =
      (a.endpoint.passed.filterMap a.judge).countP fun v => !v.acknowledged := by
  obtain ⟨hle, hnear, -⟩ := h.start hpaced
  rw [List.countP_filterMap]
  apply List.countP_congr
  intro s hs
  rw [h.passed_positions hpaced, List.mem_map] at hs
  obtain ⟨q, hq, rfl⟩ := hs
  rw [List.mem_range'_1] at hq
  have hround := h.packetOf_round hpaced hq.1 (by omega)
  rw [countsLost_judge h.marked (Nat.mod_lt _ (by decide))]
  · cases a.judge (q % 65536) <;> simp
  · intro p hp
    rw [hround] at hp
    split at hp
    next => cases hp
    next hhigh =>
      obtain rfl := Option.some.inj hp
      unfold kAckWindowSize
      omega

/-- The new verdicts go on where the old ones end. -/
theorem Judged.step_verdicts :
    (a.step .update).verdicts.map Verdict.packet = List.range (a.written - kLossHorizon) := by
  obtain ⟨hle, -, -⟩ := h.start hpaced
  have hjudge : Option.map Verdict.packet ∘ a.judge = a.packetOf := by
    funext s
    simp [judge, Function.comp_def]
  have hold : a.verdicts.map Verdict.packet =
      List.range' 0 (a.lastUpdate.getD a.written - 32) := by
    rw [h.verdicts, List.range_eq_range']
    cases hlast : a.lastUpdate with
    | none =>
      unfold Paced at hpaced
      rw [hlast] at hpaced
      simp [kLossHorizon] at hpaced ⊢
      omega
    | some n => rfl
  have hsplit : ∀ m n, List.range' 0 m ++ List.range' m n = List.range' 0 (m + n) := by
    intro m n
    simpa using List.range'_append_1 (s := 0) (m := m) (n := n)
  have hall : a.lastUpdate.getD a.written - 32 +
      (a.written - 32 - (a.lastUpdate.getD a.written - 32)) = a.written - 32 := by omega
  simp only [step, List.map_append, List.map_filterMap]
  change _ ++ a.endpoint.passed.filterMap (Option.map Verdict.packet ∘ a.judge) = _
  rw [hjudge, hold, h.passed_packets hpaced, List.range_eq_range', hsplit, hall]
  rfl

theorem Judged.update_step : (a.step .update).Judged record := by
  obtain ⟨hle, hnear, hstart⟩ := h.start hpaced
  have hupdate := a.endpoint.update_eq (hstart ▸ Nat.mod_lt _ (by decide))
  have hlength : a.endpoint.passed.length = a.written - a.lastUpdate.getD a.written := by
    rw [h.passed_positions hpaced, List.length_map, List.length_range']
  rw [hstart, hlength] at hupdate
  refine ⟨?_, ?_, ?_, ?_, ?_, ?_⟩
  · simp only [step, act, hupdate, h.sequence]
  · simp only [step, act, hupdate]
    exact h.marked
  · intro hnone
    cases hnone
  · intro n hn
    obtain rfl := Option.some.inj hn
    simp only [step, act, hupdate]
    refine ⟨Nat.le_refl _, trivial, ?_⟩
    omega
  · exact h.step_verdicts hpaced
  · simp only [step, act, hupdate, List.countP_append]
    rw [h.lost, h.passed_lost hpaced]

/-- The loop ends where its horizon is. -/
theorem Judged.cursor_end :
    a.endpoint.update.lossCursor = sub16 a.endpoint.update.sequence kLossHorizon := by
  have hnext := h.update_step hpaced
  obtain ⟨-, -, hcursor⟩ := hnext.cursor a.written rfl
  have hsequence := hnext.sequence
  simp only [step, act] at hcursor hsequence
  rw [hcursor, hsequence]
  unfold sub16 kLossHorizon
  omega

end

theorem judged_step (a : Audit) (action : EndpointAction) (hpaced : a.Paced action)
    (h : ∃ record, a.Judged record) : ∃ record, (a.step action).Judged record := by
  obtain ⟨record, h⟩ := h
  cases action with
  | queue channel data => exact ⟨record, h.queue_step channel data⟩
  | write out capacity unreliable nowUs => exact h.write_step out capacity unreliable nowUs
  | read data nowUs => exact h.read_step data nowUs
  | update => exact ⟨record, h.update_step hpaced⟩
  | reset => exact ⟨default, judged_new⟩

/-- In every paced run: no packet gets two verdicts; those with a verdict are the ones that
were more than `kLossHorizon` behind at the last `update`; the packets counted as lost are
those that no ack had named when the cursor passed them; and the next `update` ends with the
cursor at its horizon. -/
theorem judged_once (actions : List EndpointAction)
    (hpaced : Run.Along step Paced {} actions) :
    let a := Run.run step {} actions
    (a.verdicts.map Verdict.packet).Nodup ∧
      (∀ p, p ∈ a.verdicts.map Verdict.packet ↔ ∃ n ∈ a.lastUpdate, p + kLossHorizon < n) ∧
      a.endpoint.stats.packetsLost = a.verdicts.countP (fun v => !v.acknowledged) ∧
      (a.Paced .update →
        a.endpoint.update.lossCursor = sub16 a.endpoint.update.sequence kLossHorizon) := by
  intro a
  obtain ⟨record, h⟩ := Run.invariant (fun a => ∃ record, Judged a record) judged_step
    ⟨default, judged_new⟩ hpaced
  refine ⟨?_, fun p => ?_, h.lost, h.cursor_end⟩
  · rw [h.verdicts]
    exact List.nodup_range
  · rw [h.verdicts, List.mem_range]
    cases a.lastUpdate with
    | none => simp
    | some n =>
      simp only [Option.getD_some, Option.mem_some_iff, exists_eq_left']
      omega

/-- 34 packets, and an ack of packet 1 before the cursor gets there. -/
def oneLost : List EndpointAction :=
  .update :: List.replicate 34 (.write (fun _ => 0) 64 [] 0) ++
    [.read [9, 0, 1, 0, 0, 0, 0, 0, 0, 0, 0] 0, .update]

theorem judged_once_one_lost :
    let a := Run.run step {} oneLost
    a.verdicts = [⟨0, false⟩, ⟨1, true⟩] ∧
      (a.verdicts.map Verdict.packet).Nodup ∧
      (∀ p, p ∈ a.verdicts.map Verdict.packet ↔ ∃ n ∈ a.lastUpdate, p + kLossHorizon < n) ∧
      a.endpoint.stats.packetsLost = a.verdicts.countP (fun v => !v.acknowledged) ∧
      (a.Paced .update →
        a.endpoint.update.lossCursor = sub16 a.endpoint.update.sequence kLossHorizon) :=
  ⟨by decide +kernel, judged_once oneLost (by decide +kernel)⟩

end Audit
end Morton.Net
