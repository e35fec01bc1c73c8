import Morton.Proto.Catchup
import Morton.Sim.Replicated

/-! A still world. While snapshots and acknowledgements get through, each one takes as many
changed entities along as fit, until the client holds exactly what is in view. -/
namespace Morton.Sim
open Proto Keyed ReplicationState

theorem acknowledge_newer {R : Type} {s : ReplicationState R} {tick : Nat}
    (h : s.hasAcked = true → Net.sequenceGreater32 tick s.lastAckedTick = true) :
    s.acknowledge tick = { s with lastAckedTick := tick, hasAcked := true } := by
  rw [acknowledge, if_neg]
  cases hhas : s.hasAcked with
  | false => simp
  | true => simp [h hhas]

namespace Replicated
variable {R S A : Type}

/-- A frame both rings hold is one frame. -/
theorem Inv.same_frame {kindOf : Nat → Nat} {s : Replicated R S A} (h : Inv kindOf s) {t : Nat}
    {frame held : SnapshotFrame} (hframe : s.server.history.get t = some frame)
    (hheld : s.client.baselines.get t = some held) : held = frame := by
  obtain ⟨-, e, he, htick, hstored⟩ := h.server t frame hframe
  obtain ⟨e', he', htick', hstates⟩ := h.client t held hheld
  obtain rfl := h.unique e he e' he' (htick.trans htick'.symm)
  obtain ⟨hvalid, ht⟩ := SnapshotHistory.get_some hframe
  obtain ⟨hvalid', ht'⟩ := SnapshotHistory.get_some hheld
  obtain ⟨tick, valid, states⟩ := frame
  obtain ⟨tick', valid', states'⟩ := held
  cases ht
  cases ht'
  cases hvalid
  cases hvalid'
  cases hstates _ hstored
  rfl

/-- The client can decode what is encoded against the baseline. -/
def Held (s : Replicated R S A) (tick : Nat) : Prop :=
  ∀ frame ∈ s.server.usableBaseline tick, (s.client.baselines.get frame.tick).isSome = true

/-- What the exchanges of a still world are about: a well-formed scene with the viewer in it,
numbers of the source's sizes, and a datagram with room for a record beside the longest header. -/
structure Still (kindOf : Nat → Nat) (config : InterestConfig R) (scene : Scene R) (viewer : Nat)
    (input : Nat → Nat) (capacity : Nat) : Prop where
  wf : scene.WF
  kinds : ∀ a ∈ scene.seen, a.state.kind = kindOf a.state.id
  seen : scene.hasViewer = true
  viewer : viewer < 2 ^ 32
  input : ∀ i, input i < 2 ^ 32
  room : 0 < steadyRoom config capacity
  capacity : capacity ≤ 65535

/-- What an exchange leaves behind. -/
structure Exchanged (s s' : Replicated R S A) (tick : Nat) (states : List EntityWireState) :
    Prop where
  ticks : s'.ticks = s.ticks ++ [tick]
  config : s'.server.config = s.server.config
  acked : s'.server.hasAcked = true
  last : s'.server.lastAckedTick = tick
  history : s'.server.history = s.server.history.store tick states
  baselines : s'.client.baselines = s.client.baselines.store tick states

/-- Both rings hold the frame last acknowledged, and it has nothing out of view. -/
structure Settled (kindOf : Nat → Nat) (config : InterestConfig R)
    (current : List EntityWireState) (tick : Nat) (s : Replicated R S A)
    (frame : SnapshotFrame) : Prop where
  inv : Inv kindOf s
  ticks : ∀ t ∈ s.ticks, t ≤ tick
  config : s.server.config = config
  ring : 2 ≤ s.server.history.capacity
  clientRing : s.client.baselines.capacity ≠ 0
  acked : s.server.hasAcked = true
  last : s.server.lastAckedTick = tick
  server : s.server.history.get tick = some frame
  client : s.client.baselines.get tick = some frame
  inView : ∀ b ∈ frame.states, ∃ c ∈ current, c.id = b.id

/-- After an exchange at a newer tick the sides have settled. -/
theorem Exchanged.settled {s s' : Replicated R S A} {tick : Nat} {states : List EntityWireState}
    (h : Exchanged s s' tick states) {kindOf : Nat → Nat} (hinv : Inv kindOf s')
    (hticks : ∀ t ∈ s.ticks, t < tick) (hring : 2 ≤ s.server.history.capacity)
    (hclient : s.client.baselines.capacity ≠ 0) {current : List EntityWireState}
    (hstates : ∀ b ∈ states, ∃ c ∈ current, c.id = b.id) :
    Settled kindOf s.server.config current tick s' { tick, valid := true, states } where
  inv := hinv
  ticks t ht := by
    rw [h.ticks, List.mem_append, List.mem_singleton] at ht
    cases ht with
    | inl hold => exact Nat.le_of_lt (hticks t hold)
    | inr heq => exact Nat.le_of_eq heq
  config := h.config
  ring := by rwa [h.history, SnapshotHistory.store_capacity]
  clientRing := by rwa [h.baselines, SnapshotHistory.store_capacity]
  acked := h.acked
  last := h.last
  server := by rw [h.history, SnapshotHistory.get_store_self (by omega)]
  client := by rw [h.baselines, SnapshotHistory.get_store_self hclient]
  inView := hstates

theorem newer_succ (tick : Nat) : Net.sequenceGreater32 (tick + 1) tick = true := by
  rw [Net.sequenceGreater32, Serial.after]
  simp only [Bool.or_eq_true, Bool.and_eq_true, decide_eq_true_eq]
  omega

/-- Two ticks in a row have two slots. -/
theorem slot_succ_ne {capacity tick : Nat} (h : 2 ≤ capacity) :
    tick % capacity ≠ (tick + 1) % capacity := by
  intro heq
  have hdvd := (Nat.modEq_iff_dvd' (Nat.le_succ tick)).mp heq
  rw [Nat.succ_eq_add_one, Nat.add_sub_cancel_left, Nat.dvd_one] at hdvd
  omega

theorem Settled.usable {kindOf : Nat → Nat} {config : InterestConfig R}
    {current : List EntityWireState} {tick : Nat} {s : Replicated R S A} {frame : SnapshotFrame}
    (h : Settled kindOf config current tick s frame) :
    s.server.usableBaseline (tick + 1) = some frame := by
  rw [usableBaseline, h.last, if_neg (slot_succ_ne h.ring), baseline, h.acked, if_pos rfl, h.last,
    h.server]

/-- A settled frame with nothing stale is what is in view. -/
theorem Settled.complete {kindOf : Nat → Nat} {config : InterestConfig R} {scene : Scene R}
    {s : Replicated R S A} {tick : Nat} {frame : SnapshotFrame}
    (h : Settled kindOf config scene.current tick s frame) (hscene : scene.WF)
    (hempty : stale frame.states scene.current = ∅) :
    frame = { tick, valid := true, states := scene.current } := by
  have hframe := eq_current_of_stale (h.inv.server _ frame h.server).1.increasing
    hscene.increasing h.inView hempty
  obtain ⟨hvalid, htick⟩ := SnapshotHistory.get_some h.client
  obtain ⟨tick, valid, states⟩ := frame
  cases hvalid
  cases htick
  cases hframe
  rfl

/-- The scene at another tick. -/
def atTick (scene : Scene R) (tick : Nat) : Scene R := { scene with tick }

theorem wf_atTick {scene : Scene R} (hscene : scene.WF) {tick : Nat} (htick : tick < 2 ^ 32) :
    (atTick scene tick).WF :=
  ⟨htick, hscene.distinct, hscene.fits⟩

theorem Still.atTick {kindOf : Nat → Nat} {config : InterestConfig R} {scene : Scene R}
    {viewer : Nat} {input : Nat → Nat} {capacity : Nat}
    (h : Still kindOf config scene viewer input capacity) {tick : Nat}
    (htick : tick < 2 ^ 32) :
    Still kindOf config (Replicated.atTick scene tick) viewer input capacity where
  wf := wf_atTick h.wf htick
  kinds := h.kinds
  seen := h.seen
  viewer := h.viewer
  input := h.input
  room := h.room
  capacity := h.capacity

variable [Add R] [Mul R] [Neg R] [LT R] [DecidableLT R] [OfScientific R]
  (nth : NthElement R) (physics : Physics S A)

/-- A snapshot reaches the client and its acknowledgement the server. -/
def exchange (scene : Scene R) (viewer lastInputSequence : Nat) (out : Nat → UInt8)
    (capacity : Nat) (s : Replicated R S A) : Replicated R S A :=
  Run.run (step nth physics) s [.encode scene viewer lastInputSequence out capacity,
    .apply s.log.length, .acknowledge scene.tick]

/-- The snapshot of the scene is the newest of all, it can be built and the client can decode
it. -/
structure Resumes (scene : Scene R) (viewer lastInputSequence : Nat) (out : Nat → UInt8)
    (capacity : Nat) (s : Replicated R S A) : Prop where
  newest : ∀ t ∈ s.ticks, t < scene.tick
  newer : s.server.hasAcked = true →
    Net.sequenceGreater32 scene.tick s.server.lastAckedTick = true
  held : s.Held scene.tick
  built : (s.server.encode nth scene viewer lastInputSequence out capacity).2.isSome = true

variable {kindOf : Nat → Nat} {s : Replicated R S A} {scene : Scene R}
  {viewer lastInputSequence capacity : Nat} {input : Nat → Nat} {config : InterestConfig R}

theorem Inv.exchange (h : Inv kindOf s) (out : Nat → UInt8) {i : Nat}
    (hstill : Still kindOf config scene viewer input capacity)
    (hring : s.server.history.capacity ≠ 0)
    (hresumes : s.Resumes nth scene viewer (input i) out capacity) :
    Inv kindOf (exchange nth physics scene viewer (input i) out capacity s) ∧
      Exchanged s (exchange nth physics scene viewer (input i) out capacity s) scene.tick
        (sentFrame nth s.server scene viewer (input i) out capacity) := by
  obtain ⟨hscene, hkinds, -, hviewer, hinput, -, hcapacity⟩ := hstill
  obtain ⟨hnewest, hnewer, hheld, hsent⟩ := hresumes
  have hfresh : scene.tick ∉ s.ticks := fun hmem => Nat.lt_irrefl _ (hnewest _ hmem)
  refine ⟨Run.invariant (Inv kindOf) (inv_step nth physics) h
    ⟨⟨hfresh, hscene, hkinds, hviewer, hinput i, hcapacity⟩, trivial, trivial, trivial⟩, ?_⟩
  have hbase : Increasing EntityWireState.id (s.server.baseStates scene.tick) := by
    unfold ReplicationState.baseStates
    cases hbase : s.server.usableBaseline scene.tick with
    | none => exact List.Pairwise.nil
    | some frame => exact (h.server _ frame (usableBaseline_get hbase)).1.increasing
  have hplain := encode_eq nth s.server hscene hbase viewer (input i) out capacity
  rcases encode_spec nth s.server hscene hkinds (fun t frame hget => (h.server t frame hget).1)
    hviewer (hinput i) out hcapacity with
    hfail | ⟨bytes, states, priority, decoded, heq, -, hpeek, hdecode, htick, hstates⟩
  · rw [hfail] at hsent
    cases hsent
  · -- the states are those of the selection
    have hframe : states = sentFrame nth s.server scene viewer (input i) out capacity := by
      dsimp only at hplain
      split at hplain
      · rw [hplain] at hsent
        cases hsent
      · rw [heq, Prod.mk.injEq] at hplain
        have hstore := congrArg (fun server => server.history.get scene.tick) hplain.1
        dsimp only at hstore
        rw [SnapshotHistory.get_store_self hring, SnapshotHistory.get_store_self hring] at hstore
        exact congrArg SnapshotFrame.states (Option.some.inj hstore)
    subst hframe
    -- the client decodes over the same frame
    have hsame : (if (s.server.usableBaseline scene.tick).isNone = true then none
        else s.client.baselines.get
          (((s.server.usableBaseline scene.tick).map SnapshotFrame.tick).getD 0)) =
        s.server.usableBaseline scene.tick := by
      cases hbase : s.server.usableBaseline scene.tick with
      | none => rfl
      | some frame =>
        have hget := usableBaseline_get hbase
        obtain ⟨held, hclient⟩ := Option.isSome_iff_exists.mp (hheld frame hbase)
        have hat : s.server.lastAckedTick = frame.tick := (SnapshotHistory.get_some hget).2.symm
        rw [if_neg (by simp), Option.map_some, Option.getD_some, hclient,
          h.same_frame (hat ▸ hget) hclient]
    have happly : s.client.applySnapshot physics (BitReader.view bytes) bytes.length =
        (s.client.install physics decoded, some decoded) := by
      unfold ClientView.applySnapshot
      rw [hpeek]
      dsimp only
      rw [hsame, hdecode, if_neg]
      cases s.server.usableBaseline scene.tick with
      | none => simp
      | some frame => simp
    have hindex : ∀ e : Emitted, (s.log ++ [e])[s.log.length]? = some e := by
      intro e
      simp
    simp only [Replicated.exchange, Run.run_cons, Run.run_nil, step, heq, Option.toList_some,
      List.map_singleton, hindex, happly]
    rw [acknowledge_newer (by exact hnewer)]
    refine ⟨rfl, rfl, rfl, rfl, rfl, ?_⟩
    dsimp only
    rw [ClientView.install_baselines, htick, hstates]

/-- In a settled state a snapshot at the next tick can be built and decoded, and has the steady
room, if nobody of the frame has gone out of view. -/
theorem Settled.resumes {current : List EntityWireState} {tick : Nat} {frame : SnapshotFrame}
    (h : Settled kindOf config current tick s frame)
    (hstill : Still kindOf config scene viewer input capacity) (htick : scene.tick = tick + 1)
    (hids : ∀ b ∈ frame.states, ∃ c ∈ scene.current, c.id = b.id) (lastInputSequence : Nat)
    (out : Nat → UInt8) :
    s.Resumes nth scene viewer lastInputSequence out capacity ∧
      s.server.baseStates scene.tick = frame.states ∧
      steadyRoom config capacity ≤
        fits (s.server.headerWriter scene viewer lastInputSequence out capacity).bitsRemaining := by
  have husable := h.usable
  rw [← htick] at husable
  have hstates : s.server.baseStates scene.tick = frame.states := by
    rw [ReplicationState.baseStates, husable]
    rfl
  have hbase : Increasing EntityWireState.id (s.server.baseStates scene.tick) := by
    rw [hstates]
    exact (h.inv.server _ frame h.server).1.increasing
  obtain ⟨hsent, hfit⟩ := encode_steady nth hstill.wf hstill.seen hbase
    (by rwa [hstates]) viewer lastInputSequence out hstill.capacity
    (by rw [h.config]; exact hstill.room)
  rw [h.config] at hfit
  refine ⟨⟨fun t ht => ?_, fun _ => ?_, fun base hbase => ?_, hsent⟩, hstates, hfit⟩
  · rw [htick]
    exact Nat.lt_succ_of_le (h.ticks t ht)
  · rw [htick, h.last]
    exact newer_succ tick
  · rw [husable] at hbase
    obtain rfl := Option.some.inj hbase
    rw [(SnapshotHistory.get_some h.client).2, h.client]
    rfl

/-- An exchange in a settled state takes as many stale entities along as have room. -/
theorem Settled.exchange {tick : Nat} {frame : SnapshotFrame}
    (h : Settled kindOf config scene.current tick s frame)
    (hstill : Still kindOf config scene viewer input capacity) (i : Nat) (out : Nat → UInt8)
    (htick : tick + 1 < 2 ^ 32) :
    ∃ frame', Settled kindOf config scene.current (tick + 1) (Replicated.exchange nth physics
        (atTick scene (tick + 1)) viewer (input i) out capacity s) frame' ∧
      (stale frame'.states scene.current).card ≤
        (stale frame.states scene.current).card - steadyRoom config capacity := by
  have hnext := hstill.atTick htick
  obtain ⟨hresumes, hstates, hfit⟩ := h.resumes nth hnext rfl h.inView (input i) out
  have hring : s.server.history.capacity ≠ 0 := by
    have := h.ring
    omega
  obtain ⟨hinv, hdone⟩ := h.inv.exchange nth physics out hnext hring hresumes
  have hsettled := hdone.settled hinv hresumes.newest h.ring h.clientRing
    fun b hb => id_of_mem_frameStates hb
  rw [h.config] at hsettled
  refine ⟨_, hsettled, ?_⟩
  have hleft := s.server.stale_sentFrame (atTick scene (tick + 1)) viewer nth hnext.wf (input i)
    out capacity
  rw [hstates] at hleft
  change (stale _ (atTick scene (tick + 1)).current).card ≤
    (stale frame.states (atTick scene (tick + 1)).current).card - _
  rw [hleft]
  omega

/-- Exchanges at consecutive ticks from the scene's own on, while the world stands still. -/
def exchanges (scene : Scene R) (viewer : Nat) (input : Nat → Nat) (out : Nat → UInt8)
    (capacity : Nat) (s : Replicated R S A) : Nat → Replicated R S A
  | 0 => exchange nth physics scene viewer (input 0) out capacity s
  | n+1 => exchange nth physics (atTick scene (scene.tick + n + 1)) viewer (input (n + 1)) out
      capacity (exchanges scene viewer input out capacity s n)

/-- The sizes of the rings and the interest configuration stay as configured. -/
def Configured (interest : InterestConfig R) (config : ClientViewConfig) (s : Replicated R S A) :
    Prop :=
  s.server.config = interest ∧ s.server.history.capacity = interest.baselineHistory ∧
    s.client.baselines.capacity = config.snapshotHistory

theorem encode_configured (s : ReplicationState R) (scene : Scene R)
    (viewer lastInputSequence : Nat) (out : Nat → UInt8) (capacity : Nat) :
    (s.encode nth scene viewer lastInputSequence out capacity).1.config = s.config ∧
      (s.encode nth scene viewer lastInputSequence out capacity).1.history.capacity =
        s.history.capacity := by
  unfold encode
  split
  · exact ⟨rfl, rfl⟩
  · dsimp only
    split
    · exact ⟨rfl, rfl⟩
    · split
      · exact ⟨rfl, rfl⟩
      · exact ⟨rfl, SnapshotHistory.store_capacity⟩

theorem configured_step (interest : InterestConfig R) (config : ClientViewConfig)
    (s : Replicated R S A) (action : ReplicatedAction R S A) (h : Configured interest config s) :
    Configured interest config (s.step nth physics action) := by
  obtain ⟨hconfig, hserver, hclient⟩ := h
  cases action with
  | encode scene viewer lastInputSequence out capacity =>
    obtain ⟨hsame, hring⟩ := encode_configured nth s.server scene viewer lastInputSequence out
      capacity
    exact ⟨hsame.trans hconfig, hring.trans hserver, hclient⟩
  | acknowledge tick =>
    have hkept : (s.server.acknowledge tick).config = s.server.config := by
      unfold acknowledge
      split
      · rfl
      · rfl
    refine ⟨hkept.trans hconfig, ?_, hclient⟩
    rw [step, acknowledge_history]
    exact hserver
  | resetServer => exact ⟨hconfig, hserver, hclient⟩
  | apply index =>
    cases hget : s.log[index]? with
    | none =>
      rw [step, hget]
      exact ⟨hconfig, hserver, hclient⟩
    | some sent =>
      simp only [step, hget]
      refine ⟨hconfig, hserver, ?_⟩
      rcases s.client.applySnapshot_cases physics (BitReader.view sent.bytes) sent.bytes.length with
        heq | ⟨tick, baselineTick, full, snapshot, -, -, -, heq⟩
      · rw [heq]
        exact hclient
      · rw [heq]
        dsimp only
        rw [ClientView.install_baselines, SnapshotHistory.store_capacity]
        exact hclient
  | push axes sprint clientTick => exact ⟨hconfig, hserver, hclient⟩
  | adopt entity state => exact ⟨hconfig, hserver, hclient⟩
  | resetClient => exact ⟨hconfig, hserver, hclient⟩

/-- Exchanges in a row, from one whose snapshot could be built and decoded. -/
theorem Inv.exchanges (h : Inv kindOf s) (hconfig : s.server.config = config)
    (hring : 2 ≤ s.server.history.capacity) (hclient : s.client.baselines.capacity ≠ 0)
    (hstill : Still kindOf config scene viewer input capacity) (out : Nat → UInt8)
    (hresumes : s.Resumes nth scene viewer (input 0) out capacity) (n : Nat)
    (hlast : scene.tick + n < 2 ^ 32) :
    ∃ frame, Settled kindOf config scene.current (scene.tick + n)
        (exchanges nth physics scene viewer input out capacity s n) frame ∧
      (stale frame.states scene.current).card ≤
        (stale (s.server.baseStates scene.tick) scene.current).card -
          steadyRoom config capacity * n := by
  induction n with
  | zero =>
    obtain ⟨hinv, hdone⟩ := h.exchange nth physics out hstill (by omega) hresumes
    have hsettled := hdone.settled hinv hresumes.newest hring hclient
      fun b hb => id_of_mem_frameStates hb
    rw [hconfig] at hsettled
    refine ⟨_, hsettled, ?_⟩
    -- whatever the first packet had room for, it makes nothing stale
    rw [s.server.stale_sentFrame scene viewer nth hstill.wf (input 0) out capacity]
    exact Nat.sub_le _ _
  | succ n ih =>
    obtain ⟨frame, hsettled, hleft⟩ := ih (by omega)
    obtain ⟨frame', hsettled', hleft'⟩ := hsettled.exchange nth physics hstill (n + 1) out
      (by omega)
    refine ⟨frame', hsettled', hleft'.trans ?_⟩
    rw [Nat.mul_succ]
    omega

/-- From any run, once a snapshot can be built and decoded again, the view of a still world
is complete after one more exchange for each packet full of entities that the baseline did not
have as they are. -/
theorem view_converges (interest : InterestConfig R) (config : ClientViewConfig)
    (kindOf : Nat → Nat) (actions : List (ReplicatedAction R S A))
    (hfair : Run.Along (step nth physics) (Fair kindOf) (start physics interest config) actions)
    (hring : 2 ≤ interest.baselineHistory) (hclient : config.snapshotHistory ≠ 0) {scene : Scene R}
    {viewer : Nat} {input : Nat → Nat} {capacity : Nat}
    (hstill : Still kindOf interest scene viewer input capacity) (out : Nat → UInt8) :
    let s := Run.run (step nth physics) (start physics interest config) actions
    s.Resumes nth scene viewer (input 0) out capacity →
    ∀ n, scene.tick + n < 2 ^ 32 →
      (stale (s.server.baseStates scene.tick) scene.current).card ≤
        steadyRoom interest capacity * n →
      (exchanges nth physics scene viewer input out capacity s n).client.baselines.get
          (scene.tick + n) =
        some { tick := scene.tick + n, valid := true, states := scene.current } := by
  intro s hresumes n hlast hcount
  have hinv := inv_run nth physics interest config actions hfair
  have hstart : Configured interest config (start physics interest config : Replicated R S A) :=
    ⟨rfl, rfl, rfl⟩
  obtain ⟨hsame, hserver, hbaselines⟩ := Run.invariant_always (Configured interest config)
    (configured_step nth physics interest config) hstart actions
  obtain ⟨frame, hsettled, hleft⟩ := hinv.exchanges nth physics hsame (by rwa [hserver])
    (by rwa [hbaselines]) hstill out hresumes n hlast
  have hempty : stale frame.states scene.current = ∅ := by
    rw [← Finset.card_eq_zero]
    exact Nat.le_zero.mp (hleft.trans_eq (Nat.sub_eq_zero_of_le hcount))
  rw [hsettled.client, hsettled.complete hstill.wf hempty]

def evenly : InterestConfig ℚ := { distancePriorityFalloff := 1 }

/-- Two entities, shown in one packet. -/
def pair : Scene ℚ :=
  { tick := 7, hasViewer := true
    seen := [⟨{ id := 3, px := 9 }, 1⟩, ⟨{ id := 5, px := 4 }, 1⟩] }

/-- A tick later one of them has moved and a third has come. -/
def trio : Scene ℚ :=
  { tick := 8, hasViewer := true
    seen := [⟨{ id := 3, px := 9 }, 1⟩, ⟨{ id := 5, px := 6 }, 1⟩, ⟨{ id := 6, px := 2 }, 1⟩] }

theorem still_pair : Still (fun _ => 0) evenly pair 3 (fun _ => 0) 200 where
  wf := by decide
  kinds := by decide
  seen := rfl
  viewer := by decide
  input _ := by decide
  room := by decide
  capacity := by decide

theorem still_trio : Still (fun _ => 0) evenly trio 3 (fun _ => 0) 45 where
  wf := by decide
  kinds := by decide
  seen := rfl
  viewer := by decide
  input _ := by decide
  room := by decide
  capacity := by decide

theorem current_pair : pair.current = [{ id := 3, px := 9 }, { id := 5, px := 4 }] := by
  rw [Scene.current, List.mergeSort_of_pairwise (by decide)]
  rfl

theorem current_trio :
    trio.current = [{ id := 3, px := 9 }, { id := 5, px := 6 }, { id := 6, px := 2 }] := by
  rw [Scene.current, List.mergeSort_of_pairwise (by decide)]
  rfl

/-- The first packet takes both along, and the sides settle on them. -/
theorem settled_pair : Settled (fun _ => 0) evenly pair.current 7
    (exchange (NthElement.sorting ℚ) Physics.still pair 3 0 (fun _ => 0) 200
      (start Physics.still evenly {}))
    { tick := 7, valid := true, states := pair.current } := by
  have hinv : Inv (fun _ => 0) (start Physics.still evenly {} : Replicated ℚ Unit Unit) :=
    inv_run (NthElement.sorting ℚ) Physics.still evenly {} [] trivial
  have hbase : (configure evenly).baseStates pair.tick = [] := rfl
  obtain ⟨hsent, hroom⟩ := encode_steady (s := configure evenly) (NthElement.sorting ℚ)
    still_pair.wf rfl (by rw [hbase]; exact List.Pairwise.nil)
    (by rw [hbase]; exact List.forall_mem_nil _) 3 0 (fun _ => 0) still_pair.capacity
    (show 0 < steadyRoom evenly 200 by decide)
  have hresumes : (start Physics.still evenly {} : Replicated ℚ Unit Unit).Resumes
      (NthElement.sorting ℚ) pair 3 0 (fun _ => 0) 200 := by
    refine ⟨?_, ?_, ?_, hsent⟩
    · intro t ht
      cases ht
    · intro h
      cases h
    · intro frame hframe
      cases hframe
  obtain ⟨hinv', hdone⟩ := hinv.exchange (NthElement.sorting ℚ) Physics.still (fun _ => 0) (i := 0)
    still_pair (by decide) hresumes
  have hsettled := hdone.settled hinv' hresumes.newest (by decide) (by decide)
    fun b hb => id_of_mem_frameStates hb
  have hempty : stale (sentFrame (NthElement.sorting ℚ) (configure evenly) pair 3 0 (fun _ => 0)
      200) pair.current = ∅ := by
    have hleft := (configure evenly).stale_sentFrame pair 3 (NthElement.sorting ℚ) still_pair.wf 0
      (fun _ => 0) 200
    have hcount : (stale [] pair.current).card ≤ 2 := by
      rw [current_pair]
      exact stale_card_le
    have htwo : 2 ≤ steadyRoom (configure evenly).config 200 := by decide
    rw [← Finset.card_eq_zero, hleft, hbase]
    omega
  have hframe := hsettled.complete still_pair.wf hempty
  rw [hframe] at hsettled
  exact hsettled

/-- Packets with room for one entity show what changed in two more exchanges. -/
theorem view_converges_trio :
    (exchanges (NthElement.sorting ℚ) Physics.still trio 3 (fun _ => 0) (fun _ => 0) 45
        (Run.run (step (NthElement.sorting ℚ) Physics.still) (start Physics.still evenly {})
          [.encode pair 3 0 (fun _ => 0) 200, .apply 0, .acknowledge 7])
        2).client.baselines.get 10 =
      some { tick := 10, valid := true, states := trio.current } := by
  have hids : ∀ b ∈ pair.current, ∃ c ∈ trio.current, c.id = b.id := by
    rw [current_pair, current_trio]
    decide
  obtain ⟨hresumes, hstates, -⟩ := settled_pair.resumes (NthElement.sorting ℚ) still_trio rfl hids 0
    (fun _ => 0)
  have hcount : (stale pair.current trio.current).card = 2 := by
    rw [current_pair, current_trio]
    rfl
  refine view_converges (NthElement.sorting ℚ) Physics.still evenly {} (fun _ => 0)
    [.encode pair 3 0 (fun _ => 0) 200, .apply 0, .acknowledge 7]
    ⟨⟨by decide, still_pair.wf, still_pair.kinds, by decide, by decide, by decide⟩, trivial,
      trivial, trivial⟩ (by decide) (by decide) still_trio (fun _ => 0) hresumes 2 (by decide) ?_
  refine (congrArg (fun states => (stale states trio.current).card) hstates).le.trans ?_
  exact hcount.le.trans (by decide)

end Replicated
end Morton.Sim
