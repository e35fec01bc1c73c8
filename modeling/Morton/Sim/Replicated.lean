import Morton.Base.Run
import Morton.Proto.Replication
import Morton.Sim.ClientView

/-! One replication state, one client view, and a network that loses, duplicates and
reorders snapshots. The rings of both sides forget at different times; what they
hold under a tick is always the frame stored for that tick. -/
namespace Morton.Sim
open Proto ReplicationState

/-- A snapshot in the network: the tick it was encoded at and the frame the server's
ring held for that tick right after. -/
structure Emitted where
  tick : Nat
  stored : Option (List EntityWireState)
  bytes : List UInt8

/-- Both ends, the ticks encoded so far, the packets sent, and what
`apply_snapshot` decoded each time it returned true. -/
structure Replicated (R S A : Type) where
  server : ReplicationState R
  client : ClientView S A
  ticks : List Nat := []
  log : List Emitted := []
  applied : List (Emitted × DecodedSnapshot) := []

inductive ReplicatedAction (R S A : Type)
  | encode (scene : Scene R) (viewer lastInputSequence : Nat) (out : Nat → UInt8) (capacity : Nat)
  | acknowledge (tick : Nat)
  | resetServer
  | apply (index : Nat)
  | push (axes : A) (sprint : Bool) (clientTick : Nat)
  | adopt (entity : Nat) (state : S)
  | resetClient

namespace Replicated
variable {R S A : Type}

def start (physics : Physics S A) (interest : InterestConfig R) (config : ClientViewConfig) :
    Replicated R S A :=
  { server := ReplicationState.configure interest, client := ClientView.configure physics config }

def step [Add R] [Mul R] [Neg R] [LT R] [DecidableLT R] [OfScientific R] (nth : NthElement R)
    (physics : Physics S A) (s : Replicated R S A) : ReplicatedAction R S A → Replicated R S A
  | .encode scene viewer lastInputSequence out capacity =>
    let (server, packet) := s.server.encode nth scene viewer lastInputSequence out capacity
    { s with
      server
      ticks := s.ticks ++ [scene.tick]
      log := s.log ++ packet.toList.map fun bytes =>
        { tick := scene.tick
          stored := (server.history.get scene.tick).map SnapshotFrame.states
          bytes } }
  | .acknowledge tick => { s with server := s.server.acknowledge tick }
  | .resetServer => { s with server := s.server.reset }
  | .apply index =>
    match s.log[index]? with
    | none => s
    | some sent =>
      let (client, decoded) :=
        s.client.applySnapshot physics (BitReader.view sent.bytes) sent.bytes.length
      { s with client, applied := s.applied ++ decoded.toList.map fun d => (sent, d) }
  | .push axes sprint clientTick =>
    { s with client := (s.client.pushInput physics axes sprint clientTick).2 }
  | .adopt entity state => { s with client := s.client.adoptMigratedState entity state }
  | .resetClient => { s with client := s.client.reset physics }

/-- One encode for each world tick, an id keeps its kind, and the arguments are what
the server's callers pass: 32-bit numbers and a datagram-sized buffer. -/
def Fair (kindOf : Nat → Nat) (s : Replicated R S A) : ReplicatedAction R S A → Prop
  | .encode scene viewer lastInputSequence _ capacity =>
    scene.tick ∉ s.ticks ∧ scene.WF ∧ (∀ a ∈ scene.seen, a.state.kind = kindOf a.state.id) ∧
      viewer < 2 ^ 32 ∧ lastInputSequence < 2 ^ 32 ∧ capacity ≤ 65535
  | _ => True

/-- A packet of the log decodes over the frame of the tick it names. -/
def Decodes (log : List Emitted) (sent : Emitted) : Prop :=
  ∃ (base : Option SnapshotFrame) (decoded : DecodedSnapshot),
    (∀ frame ∈ base, frame.valid = true ∧
      ∃ e ∈ log, e.tick = frame.tick ∧ e.stored = some frame.states) ∧
    peekSnapshotHeader (BitReader.view sent.bytes) sent.bytes.length =
      some (sent.tick, (base.map SnapshotFrame.tick).getD 0, base.isNone) ∧
    decodeSnapshot (BitReader.view sent.bytes) sent.bytes.length base = some decoded ∧
    decoded.tick = sent.tick ∧ ∀ states ∈ sent.stored, decoded.states = states

structure Inv (kindOf : Nat → Nat) (s : Replicated R S A) : Prop where
  ticks : ∀ e ∈ s.log, e.tick ∈ s.ticks
  unique : ∀ e ∈ s.log, ∀ e' ∈ s.log, e.tick = e'.tick → e = e'
  server : ∀ t frame, s.server.history.get t = some frame → FrameOk kindOf frame ∧
    ∃ e ∈ s.log, e.tick = t ∧ e.stored = some frame.states
  client : ∀ t frame, s.client.baselines.get t = some frame →
    ∃ e ∈ s.log, e.tick = t ∧ ∀ states ∈ e.stored, frame.states = states
  packets : ∀ e ∈ s.log, Decodes s.log e
  applied : ∀ x ∈ s.applied, x.2.tick = x.1.tick ∧ ∀ states ∈ x.1.stored, x.2.states = states

theorem Decodes.mono {log : List Emitted} {sent : Emitted} (h : Decodes log sent)
    (more : List Emitted) : Decodes (log ++ more) sent := by
  obtain ⟨base, decoded, hbase, hpeek, hdecode, htick, hstates⟩ := h
  refine ⟨base, decoded, fun frame hframe => ?_, hpeek, hdecode, htick, hstates⟩
  obtain ⟨hvalid, e, he, hmatch⟩ := hbase frame hframe
  exact ⟨hvalid, e, List.mem_append_left _ he, hmatch⟩

/-- Steps that only shrink what the rings show. -/
theorem Inv.shrink {kindOf : Nat → Nat} {s s' : Replicated R S A} (h : Inv kindOf s)
    (hticks : s'.ticks = s.ticks) (hlog : s'.log = s.log) (happlied : s'.applied = s.applied)
    (hserver : ∀ t frame, s'.server.history.get t = some frame →
      s.server.history.get t = some frame)
    (hclient : ∀ t frame, s'.client.baselines.get t = some frame →
      s.client.baselines.get t = some frame) : Inv kindOf s' where
  ticks := by rw [hlog, hticks]; exact h.ticks
  unique := by rw [hlog]; exact h.unique
  server t frame hget := by rw [hlog]; exact h.server t frame (hserver t frame hget)
  client t frame hget := by rw [hlog]; exact h.client t frame (hclient t frame hget)
  packets := by rw [hlog]; exact h.packets
  applied := by rw [happlied]; exact h.applied

/-- A packet that the client accepts was decoded over the server's own frame. -/
theorem Inv.apply_decoded (physics : Physics S A) {kindOf : Nat → Nat} {s : Replicated R S A}
    (h : Inv kindOf s) {sent : Emitted} (hsent : sent ∈ s.log) :
    s.client.applySnapshot physics (BitReader.view sent.bytes) sent.bytes.length =
      (s.client, none) ∨
    ∃ decoded, s.client.applySnapshot physics (BitReader.view sent.bytes) sent.bytes.length =
        (s.client.install physics decoded, some decoded) ∧
      decoded.tick = sent.tick ∧ ∀ states ∈ sent.stored, decoded.states = states := by
  obtain ⟨base, decoded, hbase, hpeek, hdecode, htick, hstates⟩ := h.packets sent hsent
  rcases s.client.applySnapshot_cases physics (BitReader.view sent.bytes) sent.bytes.length with
    hfail | ⟨tick, baselineTick, full, snapshot, hpeek', hdecode', hhave, heq⟩
  · exact Or.inl hfail
  · rw [hpeek, Option.some.injEq, Prod.mk.injEq, Prod.mk.injEq] at hpeek'
    obtain ⟨-, rfl, rfl⟩ := hpeek'
    have hsame : (if base.isNone = true then none else s.client.baselines.get
        ((base.map SnapshotFrame.tick).getD 0)) = base := by
      cases base with
      | none => rfl
      | some frame =>
        obtain ⟨hvalid, e, he, het, hstored⟩ := hbase frame rfl
        obtain ⟨held, hheld⟩ := Option.isSome_iff_exists.mp (hhave rfl)
        obtain ⟨e', he', het', hstates'⟩ := h.client _ held hheld
        obtain ⟨hheldValid, hheldTick⟩ := SnapshotHistory.get_some hheld
        obtain rfl : e = e' := h.unique e he e' he' (het.trans het'.symm)
        have hframe : held = frame := by
          obtain ⟨t, v, xs⟩ := held
          obtain ⟨t', v', xs'⟩ := frame
          cases hheldTick
          cases hheldValid
          cases hvalid
          cases hstates' xs' hstored
          rfl
        rw [if_neg (by simp), hheld, hframe]
    rw [hsame, hdecode, Option.some.injEq] at hdecode'
    subst hdecode'
    exact Or.inr ⟨decoded, heq, htick, hstates⟩

variable [Add R] [Mul R] [Neg R] [LT R] [DecidableLT R] [OfScientific R]
  (nth : NthElement R) (physics : Physics S A)

/-- A new packet is in step with the frame stored beside it. -/
theorem Inv.encode_step {kindOf : Nat → Nat} {s : Replicated R S A} (h : Inv kindOf s)
    {scene : Scene R} {viewer lastInputSequence capacity : Nat} (out : Nat → UInt8)
    (hfair : Fair kindOf s (.encode scene viewer lastInputSequence out capacity)) :
    Inv kindOf (s.step nth physics (.encode scene viewer lastInputSequence out capacity)) := by
  obtain ⟨hfresh, hscene, hkinds, hviewer, hinput, hcapacity⟩ := hfair
  have hnew : ∀ e ∈ s.log, e.tick ≠ scene.tick := fun e he heq => hfresh (heq ▸ h.ticks e he)
  rcases encode_spec nth s.server hscene hkinds (fun t frame hget => (h.server t frame hget).1)
    hviewer hinput out hcapacity with
    hfail | ⟨bytes, states, priority, decoded, heq, hframe, hpeek, hdecode, htick, hstates⟩
  · simp only [step, hfail, Option.toList_none, List.map_nil, List.append_nil]
    exact ⟨fun e he => List.mem_append_left _ (h.ticks e he), h.unique, h.server, h.client,
      h.packets, h.applied⟩
  · simp only [step, heq, Option.toList_some, List.map_singleton]
    generalize hsent : ({
      tick := scene.tick
      stored := ((s.server.history.store scene.tick states).get scene.tick).map
        SnapshotFrame.states
      bytes : Emitted }) = sent
    have hsentTick : sent.tick = scene.tick := hsent ▸ rfl
    -- the ring shows the new frame under its tick, and nothing older
    have hshown : ∀ t frame, (s.server.history.store scene.tick states).get t = some frame →
        (t = scene.tick ∧ frame = { tick := scene.tick, valid := true, states }) ∨
        t ≠ scene.tick ∧ s.server.history.get t = some frame := by
      intro t frame hget
      rcases SnapshotHistory.get_store hget with hown | hold
      · exact Or.inl hown
      · obtain ⟨-, e, he, htick', -⟩ := h.server t frame hold
        exact Or.inr ⟨htick' ▸ hnew e he, hold⟩
    have hsentStored : ∀ x ∈ sent.stored, decoded.states = x := by
      subst hsent
      intro x hx
      obtain ⟨frame, hget, rfl⟩ := Option.map_eq_some_iff.mp hx
      rcases hshown _ frame hget with ⟨-, rfl⟩ | ⟨hne, -⟩
      · exact hstates
      · exact absurd rfl hne
    refine ⟨fun e he => ?_, fun e he e' he' htt => ?_, fun t frame hget => ?_,
      fun t frame hget => ?_, fun e he => ?_, h.applied⟩
    · rcases List.mem_append.mp he with he | he
      · exact List.mem_append_left _ (h.ticks e he)
      · rw [List.mem_singleton.mp he, hsentTick]
        exact List.mem_append_right _ (List.mem_singleton_self _)
    · rcases List.mem_append.mp he with he | he <;> rcases List.mem_append.mp he' with he' | he'
      · exact h.unique e he e' he' htt
      · rw [List.mem_singleton.mp he', hsentTick] at htt
        exact absurd htt (hnew e he)
      · rw [List.mem_singleton.mp he, hsentTick] at htt
        exact absurd htt.symm (hnew e' he')
      · rw [List.mem_singleton.mp he, List.mem_singleton.mp he']
    · rcases hshown t frame hget with ⟨rfl, rfl⟩ | ⟨-, hold⟩
      · refine ⟨hframe, sent, List.mem_append_right _ (List.mem_singleton_self _), hsentTick, ?_⟩
        rw [← hsent]
        exact congrArg (Option.map SnapshotFrame.states) hget
      · obtain ⟨hok, e, he, hmatch⟩ := h.server t frame hold
        exact ⟨hok, e, List.mem_append_left _ he, hmatch⟩
    · obtain ⟨e, he, hmatch⟩ := h.client t frame hget
      exact ⟨e, List.mem_append_left _ he, hmatch⟩
    · rcases List.mem_append.mp he with he | he
      · exact (h.packets e he).mono _
      · rw [List.mem_singleton.mp he]
        refine ⟨s.server.usableBaseline scene.tick, decoded, fun frame hbase => ?_, ?_, ?_,
          htick.trans hsentTick.symm, hsentStored⟩
        · have hget := usableBaseline_get hbase
          obtain ⟨hvalid, htick'⟩ := SnapshotHistory.get_some hget
          obtain ⟨-, e', he', hmatch⟩ := h.server _ frame hget
          exact ⟨hvalid, e', List.mem_append_left _ he', htick' ▸ hmatch.1, hmatch.2⟩
        · rw [← hsent]
          exact hpeek
        · rw [← hsent]
          exact hdecode

theorem Inv.apply_step {kindOf : Nat → Nat} {s : Replicated R S A} (h : Inv kindOf s)
    (index : Nat) : Inv kindOf (s.step nth physics (.apply index)) := by
  cases hget : s.log[index]? with
  | none => simpa only [step, hget] using h
  | some sent =>
    have hmem := List.mem_of_getElem? hget
    rcases Inv.apply_decoded physics h hmem with hfail | ⟨decoded, heq, htick, hstates⟩
    · simpa only [step, hget, hfail, Option.toList_none, List.map_nil, List.append_nil] using h
    · simp only [step, hget, heq, Option.toList_some, List.map_singleton]
      refine ⟨h.ticks, h.unique, h.server, fun t frame hshown => ?_, h.packets, fun x hx => ?_⟩
      · rw [ClientView.install_baselines] at hshown
        rcases SnapshotHistory.get_store hshown with ⟨rfl, rfl⟩ | hold
        · exact ⟨sent, hmem, htick.symm, hstates⟩
        · exact h.client t frame hold
      · rcases List.mem_append.mp hx with hx | hx
        · exact h.applied x hx
        · rw [List.mem_singleton.mp hx]
          exact ⟨htick, hstates⟩

theorem inv_step {kindOf : Nat → Nat} (s : Replicated R S A) (action : ReplicatedAction R S A)
    (hfair : Fair kindOf s action) (h : Inv kindOf s) :
    Inv kindOf (s.step nth physics action) := by
  cases action with
  | encode scene viewer lastInputSequence out capacity => exact h.encode_step nth physics out hfair
  | acknowledge tick =>
    refine h.shrink rfl rfl rfl (fun t frame hget => ?_) fun _ _ => id
    simpa only [step, acknowledge_history] using hget
  | resetServer =>
    refine h.shrink rfl rfl rfl (fun t frame hget => ?_) fun _ _ => id
    simp only [step, ReplicationState.reset, SnapshotHistory.get_reset] at hget
    cases hget
  | apply index => exact h.apply_step nth physics index
  | push axes sprint clientTick => exact h.shrink rfl rfl rfl (fun _ _ => id) fun _ _ => id
  | adopt entity state =>
    refine h.shrink rfl rfl rfl (fun _ _ => id) fun t frame hget => ?_
    simp only [step, ClientView.adoptMigratedState, SnapshotHistory.get_reset] at hget
    cases hget
  | resetClient =>
    refine h.shrink rfl rfl rfl (fun _ _ => id) fun t frame hget => ?_
    simp only [step, ClientView.reset, SnapshotHistory.get_reset] at hget
    cases hget

/-- Every snapshot for which `apply_snapshot` returned true was decoded to the frame
the server stored when it encoded that packet. -/
def AppliedAsStored (s : Replicated R S A) : Prop :=
  ∀ x ∈ s.applied, x.2.tick = x.1.tick ∧ ∀ states ∈ x.1.stored, x.2.states = states

theorem inv_run {kindOf : Nat → Nat} (interest : InterestConfig R) (config : ClientViewConfig)
    (actions : List (ReplicatedAction R S A))
    (hfair : Run.Along (step nth physics) (Fair kindOf) (start physics interest config) actions) :
    Inv kindOf (Run.run (step nth physics) (start physics interest config) actions) := by
  refine Run.invariant (Inv kindOf) (inv_step nth physics) ⟨?_, ?_, ?_, ?_, ?_, ?_⟩ hfair
  · simp [start]
  · simp [start]
  · simp [start, ReplicationState.configure, SnapshotHistory.get_configure]
  · simp [start, ClientView.configure, SnapshotHistory.get_configure]
  · simp [start]
  · simp [start]

/-- Two players of whom one moves. -/
def walking (tick px : Nat) : Scene ℚ :=
  { tick, hasViewer := true, seen := [⟨{ id := 3, px }, 1⟩, ⟨{ id := 5, px := 4 }, 1⟩] }

theorem walking_wf {tick px : Nat} (htick : tick < 2 ^ 32) (hpx : px < 2 ^ 16) :
    (walking tick px).WF := by
  refine ⟨htick, by simp [walking], fun a ha => ?_⟩
  rcases List.mem_cons.mp ha with rfl | hrest
  · exact ⟨show 3 < 2 ^ 32 by decide, hpx, show 0 < 65536 by decide, show 0 < 2 ^ 12 by decide,
      show 0 < 2 ^ 12 by decide, show 0 < 2 ^ kKindBits by decide⟩
  · rw [List.mem_singleton.mp hrest]
    decide

theorem walking_sorted (tick px : Nat) :
    ((walking tick px).seen.mergeSort fun a b => decide (a.state.id ≤ b.state.id)) =
      (walking tick px).seen :=
  List.mergeSort_of_pairwise (by simp [walking])

/-- The first snapshot is lost, the second is acknowledged and comes twice; the third is a delta
over it. -/
def lossy : List (ReplicatedAction ℚ Unit Unit) :=
  [.encode (walking 7 9) 3 0 (fun _ => 0) 1200, .encode (walking 8 10) 3 0 (fun _ => 0) 1200,
    .apply 1, .acknowledge 8, .encode (walking 9 12) 3 0 (fun _ => 0) 1200, .apply 2, .apply 1]

end Replicated
end Morton.Sim
