import Mathlib.Algebra.Order.Field.Rat
import Mathlib.Tactic.NormNum
import Mathlib.Tactic.Positivity
import Morton.Base.Smoothing
import Morton.Net.Connection
import Morton.Net.EndpointRuns

/-! The rate estimates of a `ReliableEndpoint`: round trips are sampled when a packet is first
acknowledged, losses and rates once a window. Arithmetic is exact. -/
namespace Morton.Net
open Proto Smoothing

def kRateWindowUs : Nat := 250000

def kRttSmoothing : ℚ := 1 / 10

def kJitterSmoothing : ℚ := 1 / 10

def kRateSmoothing : ℚ := 1 / 10

/-- The estimates among the `NetworkStats`. -/
structure RateStats where
  rttMs : ℚ := 0
  rttJitterMs : ℚ := 0
  rttMinMs : ℚ := 0
  sentLossPercent : ℚ := 0
  recvLossPercent : ℚ := 0
  sentKbps : ℚ := 0
  recvKbps : ℚ := 0

/-- The members of an endpoint that only estimates depend on. -/
structure RateMeter where
  rttEwmaMs : ℚ := 0
  rttMinMs : ℚ := 0
  jitterEwmaMs : ℚ := 0
  rttInitialized : Bool := false
  ratesInitialized : Bool := false
  rateWindowStartUs : Nat := 0
  bytesSentWindow : Nat := 0
  bytesRecvWindow : Nat := 0
  packetsRecvWindow : Nat := 0
  packetsExpectedWindow : Nat := 0
  packetsAckedWindow : Nat := 0
  packetsLostWindow : Nat := 0
  stats : RateStats := {}

namespace RateMeter

/-- The estimates of the round trip after a sample. -/
def sampleRtt (m : RateMeter) (sampleMs : ℚ) : RateMeter :=
  let m := { m with packetsAckedWindow := m.packetsAckedWindow + 1 }
  let m :=
    if !m.rttInitialized then
      { m with rttEwmaMs := sampleMs, rttMinMs := sampleMs, rttInitialized := true }
    else
      { m with
        jitterEwmaMs := smooth kJitterSmoothing m.jitterEwmaMs |sampleMs - m.rttEwmaMs|
        rttEwmaMs := smooth kRttSmoothing m.rttEwmaMs sampleMs
        rttMinMs := if sampleMs < m.rttMinMs then sampleMs else m.rttMinMs }
  { m with
    stats :=
      { m.stats with
        rttMs := m.rttEwmaMs, rttJitterMs := m.jitterEwmaMs, rttMinMs := m.rttMinMs } }

def packetSent (m : RateMeter) (size : Nat) : RateMeter :=
  { m with bytesSentWindow := m.bytesSentWindow + size }

/-- What `read_packet` counts of a new packet. -/
def packetReceived (m : RateMeter) (e : ReliableEndpoint) (sequence size : Nat) : RateMeter :=
  let expected :=
    if !e.hasReceived then 1
    else if sequenceGreater16 sequence e.highestReceived then sub16 sequence e.highestReceived
    else 0
  { m with
    packetsExpectedWindow := m.packetsExpectedWindow + expected
    packetsRecvWindow := m.packetsRecvWindow + 1
    bytesRecvWindow := m.bytesRecvWindow + size }

/-- What `update` does with a window that is long enough. -/
def closeWindow (m : RateMeter) (elapsedUs nowUs : Nat) : RateMeter :=
  let elapsedS : ℚ := elapsedUs / 1000000
  let sentKbps : ℚ := m.bytesSentWindow * 8 / 1000 / elapsedS
  let recvKbps : ℚ := m.bytesRecvWindow * 8 / 1000 / elapsedS
  let sentJudged := m.packetsAckedWindow + m.packetsLostWindow
  let missing := m.packetsExpectedWindow - m.packetsRecvWindow
  let blend := blend m.ratesInitialized kRateSmoothing
  { m with
    ratesInitialized := true
    rateWindowStartUs := nowUs
    bytesSentWindow := 0
    bytesRecvWindow := 0
    packetsRecvWindow := 0
    packetsExpectedWindow := 0
    packetsAckedWindow := 0
    packetsLostWindow := 0
    stats :=
      { rttMs := m.rttEwmaMs
        rttJitterMs := m.jitterEwmaMs
        rttMinMs := m.rttMinMs
        sentKbps := blend m.stats.sentKbps sentKbps
        recvKbps := blend m.stats.recvKbps recvKbps
        sentLossPercent :=
          if 0 < sentJudged then
            blend m.stats.sentLossPercent (m.packetsLostWindow * 100 / sentJudged)
          else m.stats.sentLossPercent
        recvLossPercent :=
          if 0 < m.packetsExpectedWindow then
            blend m.stats.recvLossPercent (missing * 100 / m.packetsExpectedWindow)
          else m.stats.recvLossPercent } }

/-- `update`; `lost` packets were found lost at its beginning. -/
def update (m : RateMeter) (lost nowUs : Nat) : RateMeter :=
  let m := { m with
    rateWindowStartUs := if m.rateWindowStartUs = 0 then nowUs else m.rateWindowStartUs
    packetsLostWindow := m.packetsLostWindow + lost }
  let elapsedUs := elapsed nowUs m.rateWindowStartUs
  if elapsedUs < kRateWindowUs then m else m.closeWindow elapsedUs nowUs

end RateMeter

/-- An endpoint with its estimates, and the round trips it sampled. -/
structure Metered where
  endpoint : ReliableEndpoint := {}
  meter : RateMeter := {}
  samples : List ℚ := []

inductive MeteredAction
  | queue (channel : UInt8) (data : List UInt8)
  | write (out : Nat → UInt8) (capacity : Nat) (unreliable : List UInt8) (nowUs : Nat)
  | read (data : List UInt8) (nowUs : Nat)
  | update (nowUs : Nat)
  | reset

/-- The call without its estimates. -/
def MeteredAction.bare : MeteredAction → ReliableEndpoint.EndpointAction
  | .queue channel data => .queue channel data
  | .write out capacity unreliable nowUs => .write out capacity unreliable nowUs
  | .read data nowUs => .read data nowUs
  | .update _ => .update
  | .reset => .reset

namespace Metered

/-- `on_packet_acked` -/
def onPacketAcked (nowUs : Nat) (m : Metered) (sequence : Nat) : Metered :=
  let endpoint := m.endpoint.onPacketAcked sequence
  match m.endpoint.sent.find sequence with
  | none => { m with endpoint }
  | some record =>
    if record.acked then { m with endpoint }
    else
      let sampleMs : ℚ := elapsed nowUs record.sendTimeUs / 1000
      { endpoint, meter := m.meter.sampleRtt sampleMs, samples := m.samples ++ [sampleMs] }

def writePacket (m : Metered) (out : Nat → UInt8) (capacity : Nat) (unreliable : List UInt8)
    (nowUs : Nat) : Metered :=
  match m.endpoint.writePacket out capacity unreliable nowUs with
  | (endpoint, none) => { m with endpoint }
  | (endpoint, some packet) => { m with endpoint, meter := m.meter.packetSent packet.length }

/-- `read_packet`; the estimates depend on its header only. -/
def readPacket (m : Metered) (data : List UInt8) (nowUs : Nat) : Metered :=
  let endpoint := (m.endpoint.readPacket (BitReader.view data) data.length nowUs).1
  let (sequence, r) := (BitReader.new (BitReader.view data) data.length).readU16
  let (ack, r) := r.readU16
  let (ackBits, r) := r.readU32
  if r.overflow = true ∨ m.endpoint.received.contains sequence = true then { m with endpoint }
  else
    match m.endpoint.received.insert sequence with
    | none => { m with endpoint }
    | some received =>
      let received := received.write sequence { recvTimeUs := nowUs, size := data.length }
      let noted : Metered :=
        { m with
          endpoint := m.endpoint.noteReceived received sequence
          meter := m.meter.packetReceived m.endpoint sequence data.length }
      let acked := (ReliableEndpoint.ackedSequences ack ackBits).foldl (onPacketAcked nowUs) noted
      { acked with endpoint }

def update (m : Metered) (nowUs : Nat) : Metered :=
  let endpoint := m.endpoint.update
  let lost := endpoint.stats.packetsLost - m.endpoint.stats.packetsLost
  { m with endpoint, meter := m.meter.update lost nowUs }

def act (m : Metered) : MeteredAction → Metered
  | .queue channel data => { m with endpoint := m.endpoint.queueReliable channel data }
  | .write out capacity unreliable nowUs => m.writePacket out capacity unreliable nowUs
  | .read data nowUs => m.readPacket data nowUs
  | .update nowUs => m.update nowUs
  | .reset => {}


theorem act_endpoint (m : Metered) (action : MeteredAction) :
    (m.act action).endpoint = m.endpoint.act action.bare := by
  cases action with
  | queue channel data => rfl
  | write out capacity unreliable nowUs =>
    simp only [act, writePacket, MeteredAction.bare, ReliableEndpoint.act]
    rcases m.endpoint.writePacket out capacity unreliable nowUs with ⟨e, _ | packet⟩ <;> rfl
  | read data nowUs =>
    simp only [act, readPacket, MeteredAction.bare, ReliableEndpoint.act]
    split
    · rfl
    · split <;> rfl
  | update nowUs => simp only [act, update, MeteredAction.bare, ReliableEndpoint.act]
  | reset => simp only [act, MeteredAction.bare, ReliableEndpoint.act]

theorem run_endpoint (m : Metered) (actions : List MeteredAction) :
    (Run.run act m actions).endpoint =
      Run.run ReliableEndpoint.act m.endpoint (actions.map MeteredAction.bare) := by
  induction actions generalizing m with
  | nil => rfl
  | cons action actions ih =>
    rw [Run.run_cons, ih, act_endpoint]
    rfl

end Metered

namespace RateMeter

/-- The round trip estimates stay between the samples they were made from. -/
structure Follows (m : RateMeter) (samples : List ℚ) : Prop where
  started : m.rttInitialized = true ↔ samples ≠ []
  shown : m.stats.rttMs = m.rttEwmaMs ∧ m.stats.rttJitterMs = m.jitterEwmaMs ∧
    m.stats.rttMinMs = m.rttMinMs
  calm : samples = [] → m.jitterEwmaMs = 0
  attained : samples ≠ [] → m.rttMinMs ∈ samples
  least : ∀ s ∈ samples, m.rttMinMs ≤ s
  average : samples ≠ [] → ∀ low high, (∀ s ∈ samples, low ≤ s ∧ s ≤ high) →
    low ≤ m.rttEwmaMs ∧ m.rttEwmaMs ≤ high
  jitter : samples ≠ [] → ∀ low high, (∀ s ∈ samples, low ≤ s ∧ s ≤ high) →
    0 ≤ m.jitterEwmaMs ∧ m.jitterEwmaMs ≤ high - low

/-- The losses are percentages, and no rate is negative. -/
structure Credible (s : RateStats) : Prop where
  sentLoss : 0 ≤ s.sentLossPercent ∧ s.sentLossPercent ≤ 100
  recvLoss : 0 ≤ s.recvLossPercent ∧ s.recvLossPercent ≤ 100
  sentRate : 0 ≤ s.sentKbps
  recvRate : 0 ≤ s.recvKbps

theorem follows_new : ({} : RateMeter).Follows [] where
  started := by simp
  shown := ⟨rfl, rfl, rfl⟩
  calm := fun _ => rfl
  attained := fun h => absurd rfl h
  least := by simp
  average := fun h => absurd rfl h
  jitter := fun h => absurd rfl h

theorem credible_new : Credible {} := by
  constructor <;> norm_num

variable {m : RateMeter} {samples : List ℚ}

/-- The first sample is all there is to know. -/
theorem Follows.first (h : m.Follows []) (sample : ℚ) : (m.sampleRtt sample).Follows [sample] := by
  have hfresh : m.rttInitialized = false := by
    simpa using h.started.not.mpr (by simp)
  have hcalm := h.calm rfl
  constructor <;> simp [sampleRtt, hfresh, hcalm]
  intro low high hlow hhigh
  exact hlow.trans hhigh

theorem Follows.next (h : m.Follows samples) (hany : samples ≠ []) (sample : ℚ) :
    (m.sampleRtt sample).Follows (samples ++ [sample]) := by
  have hstarted := h.started.mpr hany
  have hbounds : ∀ {low high : ℚ}, (∀ s ∈ samples ++ [sample], low ≤ s ∧ s ≤ high) →
      (∀ s ∈ samples, low ≤ s ∧ s ≤ high) ∧ low ≤ sample ∧ sample ≤ high := by
    intro low high hall
    exact ⟨fun s hs => hall s (List.mem_append_left _ hs), hall sample (by simp)⟩
  refine ⟨?_, ⟨rfl, rfl, rfl⟩, ?_, ?_, ?_, ?_, ?_⟩
  · simp [sampleRtt, hstarted]
  · simp
  · intro _
    simp only [sampleRtt, hstarted, Bool.not_true, Bool.false_eq_true, if_false]
    split
    · simp
    · exact List.mem_append_left _ (h.attained hany)
  · intro s hs
    simp only [sampleRtt, hstarted, Bool.not_true, Bool.false_eq_true, if_false]
    rcases List.mem_append.mp hs with hold | hnew
    · have hleast := h.least s hold
      split <;> linarith
    · rw [List.mem_singleton.mp hnew]
      split <;> linarith
  · intro _ low high hall
    obtain ⟨hold, hnew⟩ := hbounds hall
    have haverage := h.average hany low high hold
    simp only [sampleRtt, hstarted, Bool.not_true, Bool.false_eq_true, if_false]
    exact ⟨le_smooth (by norm_num [kRttSmoothing]) (by norm_num [kRttSmoothing]) haverage.1 hnew.1,
      smooth_le (by norm_num [kRttSmoothing]) (by norm_num [kRttSmoothing]) haverage.2 hnew.2⟩
  · intro _ low high hall
    obtain ⟨hold, hnew⟩ := hbounds hall
    have haverage := h.average hany low high hold
    have hjitter := h.jitter hany low high hold
    have hoff : |sample - m.rttEwmaMs| ≤ high - low := by
      rw [abs_le]
      constructor <;> linarith
    simp only [sampleRtt, hstarted, Bool.not_true, Bool.false_eq_true, if_false]
    exact ⟨le_smooth (by norm_num [kJitterSmoothing]) (by norm_num [kJitterSmoothing]) hjitter.1
        (abs_nonneg _),
      smooth_le (by norm_num [kJitterSmoothing]) (by norm_num [kJitterSmoothing]) hjitter.2 hoff⟩

theorem Follows.sampleRtt (h : m.Follows samples) (sample : ℚ) :
    (m.sampleRtt sample).Follows (samples ++ [sample]) := by
  cases samples with
  | nil => exact h.first sample
  | cons s samples => exact h.next (List.cons_ne_nil s samples) sample

theorem sampleRtt_credible (h : Credible m.stats) (sample : ℚ) :
    Credible (m.sampleRtt sample).stats := by
  unfold sampleRtt
  dsimp only
  split <;> exact ⟨h.sentLoss, h.recvLoss, h.sentRate, h.recvRate⟩

theorem percent_mem {part whole : Nat} (hpart : part ≤ whole) (hwhole : 0 < whole) :
    (0 : ℚ) ≤ part * 100 / whole ∧ (part * 100 / whole : ℚ) ≤ 100 := by
  have hpos : (0 : ℚ) < whole := by exact_mod_cast hwhole
  have hle : (part : ℚ) ≤ whole := by exact_mod_cast hpart
  refine ⟨by positivity, ?_⟩
  rw [div_le_iff₀ hpos]
  linarith

theorem blend_nonneg (started : Bool) {target sample : ℚ} (htarget : 0 ≤ target)
    (hsample : 0 ≤ sample) : 0 ≤ blend started kRateSmoothing target sample := by
  cases started with
  | false => exact hsample
  | true =>
    exact le_smooth (by norm_num [kRateSmoothing]) (by norm_num [kRateSmoothing]) htarget hsample

/-- A share of a window, if there is anything to share, blends into a percentage. -/
theorem blend_percent (started : Bool) {target : ℚ} (htarget : 0 ≤ target ∧ target ≤ 100)
    {part whole : Nat} (hpart : part ≤ whole) :
    let share := if 0 < whole then blend started kRateSmoothing target (part * 100 / whole)
      else target
    0 ≤ share ∧ share ≤ 100 := by
  by_cases hwhole : 0 < whole
  · simp only [hwhole, if_true]
    exact blend_mem started (by norm_num [kRateSmoothing]) (by norm_num [kRateSmoothing]) htarget
      (percent_mem hpart hwhole)
  · simpa only [hwhole, if_false] using htarget

theorem closeWindow_credible (h : Credible m.stats) (elapsedUs nowUs : Nat) :
    Credible (m.closeWindow elapsedUs nowUs).stats where
  sentLoss := blend_percent m.ratesInitialized h.sentLoss (Nat.le_add_left _ _)
  recvLoss := blend_percent m.ratesInitialized h.recvLoss (Nat.sub_le _ _)
  sentRate := blend_nonneg m.ratesInitialized h.sentRate (by positivity)
  recvRate := blend_nonneg m.ratesInitialized h.recvRate (by positivity)

theorem update_cases (m : RateMeter) (lost nowUs : Nat) : ∃ start,
    let m' := { m with
      rateWindowStartUs := start, packetsLostWindow := m.packetsLostWindow + lost }
    m.update lost nowUs = m' ∨
      m.update lost nowUs = m'.closeWindow (elapsed nowUs start) nowUs := by
  refine ⟨if m.rateWindowStartUs = 0 then nowUs else m.rateWindowStartUs, ?_⟩
  unfold update
  generalize (if m.rateWindowStartUs = 0 then nowUs else m.rateWindowStartUs) = start
  dsimp only
  split
  · exact Or.inl rfl
  · exact Or.inr rfl

theorem update_credible (h : Credible m.stats) (lost nowUs : Nat) :
    Credible (m.update lost nowUs).stats := by
  obtain ⟨start, hopen | hclosed⟩ := m.update_cases lost nowUs
  · rw [hopen]
    exact h
  · rw [hclosed]
    apply closeWindow_credible
    exact h

/-- The round trip estimates depend on their own members only. -/
theorem Follows.of_eq {m' : RateMeter} (h : m.Follows samples)
    (hstarted : m'.rttInitialized = m.rttInitialized) (hewma : m'.rttEwmaMs = m.rttEwmaMs)
    (hmin : m'.rttMinMs = m.rttMinMs) (hjitter : m'.jitterEwmaMs = m.jitterEwmaMs)
    (hshown : m'.stats.rttMs = m'.rttEwmaMs ∧ m'.stats.rttJitterMs = m'.jitterEwmaMs ∧
      m'.stats.rttMinMs = m'.rttMinMs) : m'.Follows samples where
  started := by rw [hstarted]; exact h.started
  shown := hshown
  calm := by rw [hjitter]; exact h.calm
  attained := by rw [hmin]; exact h.attained
  least := by rw [hmin]; exact h.least
  average := by rw [hewma]; exact h.average
  jitter := by rw [hjitter]; exact h.jitter

theorem Follows.update (h : m.Follows samples) (lost nowUs : Nat) :
    (m.update lost nowUs).Follows samples := by
  obtain ⟨start, hopen | hclosed⟩ := m.update_cases lost nowUs
  · rw [hopen]
    exact h.of_eq rfl rfl rfl rfl h.shown
  · rw [hclosed]
    exact h.of_eq rfl rfl rfl rfl ⟨rfl, rfl, rfl⟩

end RateMeter

namespace Metered

structure Sound (m : Metered) : Prop where
  follows : m.meter.Follows m.samples
  credible : RateMeter.Credible m.meter.stats
  counted : m.samples.length = m.endpoint.stats.packetsAcked

theorem sound_new : ({} : Metered).Sound := ⟨RateMeter.follows_new, RateMeter.credible_new, rfl⟩

variable {m : Metered}

/-- A packet that is acknowledged for the first time is a sample. -/
theorem sound_onPacketAcked (nowUs : Nat) (h : m.Sound) (sequence : Nat) :
    (m.onPacketAcked nowUs sequence).Sound := by
  unfold onPacketAcked ReliableEndpoint.onPacketAcked
  cases m.endpoint.sent.find sequence with
  | none => exact h
  | some record =>
    dsimp only
    split
    · exact h
    · exact ⟨h.follows.sampleRtt _, RateMeter.sampleRtt_credible h.credible _, by
        simp [h.counted]⟩

theorem sound_acked (nowUs : Nat) (h : m.Sound) (sequences : List Nat) :
    (sequences.foldl (onPacketAcked nowUs) m).Sound := by
  induction sequences generalizing m with
  | nil => exact h
  | cons sequence sequences ih => exact ih (sound_onPacketAcked nowUs h sequence)

theorem onPacketAcked_endpoint (nowUs : Nat) (m : Metered) (sequence : Nat) :
    (m.onPacketAcked nowUs sequence).endpoint = m.endpoint.onPacketAcked sequence := by
  unfold onPacketAcked
  dsimp only
  split
  · rfl
  · split <;> rfl

theorem acked_endpoint (nowUs : Nat) (m : Metered) (sequences : List Nat) :
    (sequences.foldl (onPacketAcked nowUs) m).endpoint =
      sequences.foldl ReliableEndpoint.onPacketAcked m.endpoint := by
  induction sequences generalizing m with
  | nil => rfl
  | cons sequence sequences ih => rw [List.foldl_cons, List.foldl_cons, ih, onPacketAcked_endpoint]

/-- Only acknowledgements are samples. -/
theorem readBody_acked (e : ReliableEndpoint) (r : BitReader) (size : Nat) :
    (e.readBody r size).1.stats.packetsAcked = e.stats.packetsAcked := by
  obtain ⟨buffer, expected, heq⟩ := e.readBody_frame r size
  rw [heq]

theorem noteReceived_acked (e : ReliableEndpoint)
    (received : SequenceBuffer ReceivedPacket kAckWindowSize) (sequence : Nat) :
    (e.noteReceived received sequence).stats.packetsAcked = e.stats.packetsAcked := by
  unfold ReliableEndpoint.noteReceived
  dsimp only
  split
  · rfl
  · split <;> rfl

theorem sound_readPacket (h : m.Sound) (data : List UInt8) (nowUs : Nat) :
    (m.readPacket data nowUs).Sound := by
  unfold readPacket ReliableEndpoint.readPacket
  dsimp only
  generalize (BitReader.new (BitReader.view data) data.length).readU16 = first
  generalize first.2.readU16 = second
  generalize second.2.readU32 = third
  by_cases hover : third.2.overflow = true
  · simpa only [hover, true_or, if_true] using h
  · by_cases hknown : m.endpoint.received.contains first.1 = true
    · simpa only [hover, hknown, or_true, if_true, Bool.false_eq_true, if_false] using h
    · simp only [hover, hknown, Bool.false_eq_true, or_self, if_false]
      cases m.endpoint.received.insert first.1 with
      | none => exact h
      | some received =>
        dsimp only
        generalize received.write first.1 { recvTimeUs := nowUs, size := data.length } = received
        have hnoted : Sound
            { m with
              endpoint := m.endpoint.noteReceived received first.1
              meter := m.meter.packetReceived m.endpoint first.1 data.length } :=
          ⟨h.follows.of_eq rfl rfl rfl rfl h.follows.shown, h.credible, by
            rw [noteReceived_acked]
            exact h.counted⟩
        have hacked := sound_acked nowUs hnoted (ReliableEndpoint.ackedSequences second.1 third.1)
        have hcounted := hacked.counted
        rw [acked_endpoint] at hcounted
        exact ⟨hacked.follows, hacked.credible, by
          rw [readBody_acked]
          exact hcounted⟩

theorem sound_writePacket (h : m.Sound) (out : Nat → UInt8) (capacity : Nat)
    (unreliable : List UInt8) (nowUs : Nat) : (m.writePacket out capacity unreliable nowUs).Sound := by
  have hacked : (m.endpoint.writePacket out capacity unreliable nowUs).1.stats.packetsAcked =
      m.endpoint.stats.packetsAcked := by
    unfold ReliableEndpoint.writePacket
    dsimp only
    split
    · rfl
    · split <;> rfl
  unfold writePacket
  rcases hwrite : m.endpoint.writePacket out capacity unreliable nowUs with ⟨e, _ | packet⟩
  · rw [hwrite] at hacked
    exact ⟨h.follows, h.credible, h.counted.trans hacked.symm⟩
  · rw [hwrite] at hacked
    exact ⟨h.follows.of_eq rfl rfl rfl rfl h.follows.shown, h.credible,
      h.counted.trans hacked.symm⟩

theorem lossLoop_acked (horizonEnd fuel : Nat) (e : ReliableEndpoint) :
    (ReliableEndpoint.lossLoop horizonEnd fuel e).stats.packetsAcked = e.stats.packetsAcked := by
  induction fuel generalizing e with
  | zero => rfl
  | succ fuel ih =>
    rw [ReliableEndpoint.lossLoop]
    split
    · exact ih _
    · rfl

theorem sound_update (h : m.Sound) (nowUs : Nat) : (m.update nowUs).Sound := by
  have hacked : m.endpoint.update.stats.packetsAcked = m.endpoint.stats.packetsAcked := by
    rw [ReliableEndpoint.update, lossLoop_acked]
    split <;> rfl
  unfold update
  generalize m.endpoint.update = e at hacked
  exact ⟨h.follows.update _ nowUs, RateMeter.update_credible h.credible _ nowUs,
    h.counted.trans hacked.symm⟩

theorem sound_act (m : Metered) (action : MeteredAction) (h : m.Sound) : (m.act action).Sound := by
  cases action with
  | queue channel data =>
    refine ⟨h.follows, h.credible, h.counted.trans ?_⟩
    rw [act]
    rcases m.endpoint.queueReliable_cases channel data with heq | ⟨-, heq⟩
    · rw [heq]
    · rw [heq]
  | write out capacity unreliable nowUs => exact sound_writePacket h out capacity unreliable nowUs
  | read data nowUs => exact sound_readPacket h data nowUs
  | update nowUs => exact sound_update h nowUs
  | reset => exact sound_new

/-- Whatever the calls and the bytes read, the estimates, in exact arithmetic, say nothing the
packets did not. -/
theorem estimates_sound (actions : List MeteredAction) :
    (Run.run act {} actions).Sound ∧
      (Run.run act {} actions).endpoint =
        Run.run ReliableEndpoint.act {} (actions.map MeteredAction.bare) :=
  ⟨Run.invariant_always Sound sound_act sound_new actions, run_endpoint {} actions⟩

end Metered
end Morton.Net
