import Morton.App.Bookkeeping
import Morton.App.GameClient
import Morton.App.SlotEffects
import Morton.Base.Run
import Morton.Proto.InputCodec

/-! One client and the shard it plays on: commands are numbered, packed with the ones
before them, lost, repeated or overtaken on the way, and queued. A session lasts until the
client goes to another shard. -/
namespace Morton.Sim.PlayerSlot
variable {A : Type} (quantize : A → A)

/-- `queue_input` drops the command. -/
def Stale (slot : PlayerSlot A) (input : MoveInput A) : Prop :=
  input.sequence ≤ slot.highestReceivedSequence ∧ slot.highestReceivedSequence ≠ 0

instance (slot : PlayerSlot A) (input : MoveInput A) : Decidable (slot.Stale input) :=
  inferInstanceAs (Decidable (_ ∧ _))

/-- Those of the commands that `queue_input` appends, as it appends them. -/
def accepts : PlayerSlot A → List (MoveInput A) → List (MoveInput A)
  | _, [] => []
  | slot, input :: inputs =>
    let rest := accepts (slot.receive quantize input) inputs
    if slot.Stale input then rest else { input with axes := quantize input.axes } :: rest

/-- The newest sequence among some commands and an older one. -/
def newestOf (inputs : List (MoveInput A)) (newest : Nat) : Nat :=
  inputs.foldl (fun newest input => max newest input.sequence) newest

theorem foldl_receive_highest (inputs : List (MoveInput A)) (slot : PlayerSlot A) :
    (inputs.foldl (receive quantize) slot).highestReceivedSequence =
      newestOf inputs slot.highestReceivedSequence := by
  induction inputs generalizing slot with
  | nil => rfl
  | cons input inputs ih =>
    rw [List.foldl_cons, ih, receive_highest]
    rfl

/-- What waits is the end of what waited and was accepted since; a full queue loses its oldest
commands. -/
theorem foldl_receive_waiting (inputs : List (MoveInput A)) (slot : PlayerSlot A) :
    (inputs.foldl (receive quantize) slot).pending <:+
      slot.pending ++ slot.accepts quantize inputs := by
  induction inputs generalizing slot with
  | nil =>
    rw [accepts, List.append_nil]
    exact List.suffix_refl _
  | cons input inputs ih =>
    rw [List.foldl_cons, accepts]
    refine (ih (slot.receive quantize input)).trans ?_
    by_cases hstale : slot.Stale input
    · have hpending : (slot.receive quantize input).pending = slot.pending := by
        rw [receive, if_pos (show _ ∧ _ from hstale)]
      rw [if_pos hstale, hpending]
    · have hpending : (slot.receive quantize input).pending <:+
          slot.pending ++ [{ input with axes := quantize input.axes }] := by
        rw [receive, if_neg (show ¬ (_ ∧ _) from hstale)]
        dsimp only
        split
        · obtain ⟨first, hfirst⟩ := List.tail_suffix slot.pending
          exact ⟨first, by rw [← List.append_assoc, hfirst]⟩
        · exact List.suffix_refl _
      obtain ⟨first, hfirst⟩ := hpending
      rw [if_neg hstale]
      exact ⟨first, by rw [← List.append_assoc, hfirst, List.append_assoc, List.singleton_append]⟩

theorem newestOf_quantized (inputs : List (MoveInput A)) (newest : Nat) :
    newestOf (inputs.map fun input => { input with axes := quantize input.axes }) newest =
      newestOf inputs newest := by
  simp only [newestOf, List.foldl_map]

end Morton.Sim.PlayerSlot

namespace Morton.App
open Proto Sim Cluster

/-- The commands of a packet that `on_payload` gets into the queue of its client. -/
def WorldServer.accepted {R A : Type} [LT R] (env : ShardEnv R A) (w : WorldServer R A)
    (client : Nat) (packet : Option (InputPacket A)) : List (MoveInput A) :=
  match w.players.lookup client, w.world.players.lookup client, packet with
  | some player, some slot, some packet =>
    if player.redirecting then []
    else
      slot.accepts env.sim.quantizeInput
        (packet.inputs.map fun input => { input with axes := env.sim.quantizeInput input.axes })
  | _, _, _ => []

/-- A client, its shard and what has passed between them. -/
structure Session (R S A : Type) where
  shard : Shard R A
  game : GameClient S A
  client : Nat
  /-- The commands of the client, in order. -/
  issued : List (MoveInput A) := []
  /-- The packet that went out with each command. -/
  sent : List Bytes := []
  /-- Which packets `on_payload` was given, in the order of their arrival. -/
  arrived : List Nat := []
  /-- The newest sequence in these packets. -/
  newest : Nat := 0
  /-- The commands that were appended to the queue. -/
  accepted : List (MoveInput A) := []

inductive SessionAction (A : Type)
  | send (axes : A) (sprint : Bool)
  /-- The packet of the command with this index arrives, perhaps not for the first time. -/
  | arrive (index : Nat)
  /-- Anything else the shard does. -/
  | shard (action : ShardAction A)
  /-- A payload reaches the client. -/
  | payload (data : Bytes)
  | worldConfig (entity : Nat)
  | link (connected : Bool)

namespace Session
variable {R S A : Type}

/-- The newest command of which a packet has arrived. -/
def reached (x : Session R S A) : Nat :=
  x.arrived.foldl (fun reached index => max reached (index + 1)) 0

/-- The commands in the packet with this index. -/
def window (issued : List (MoveInput A)) (index : Nat) : List (MoveInput A) :=
  (issued.take (index + 1)).drop (index + 1 - kInputRedundancy)

section
variable [LT R] [Add R] [Mul R] [Neg R] [DecidableLT R] [OfScientific R]
  (env : ShardEnv R A) (physics : Physics S A) (axis : AxisQuantizer A)

def step (x : Session R S A) : SessionAction A → Session R S A
  | .send axes sprint =>
    match x.game.sendInput physics axes sprint with
    | (game, none) => { x with game }
    | (game, some (input, packet)) =>
      { x with
        game
        issued := x.issued ++ [input]
        sent := x.sent ++ [encodeInputPacket axis packet kMaxDatagramSize] }
  | .arrive index =>
    match x.sent[index]? with
    | none => x
    | some data =>
      -- what could not be encoded was not sent
      if data = [] ∨ x.shard.task.isSome = true ∨ x.client ∉ x.shard.server.connections then x
      else
        let packet := decodeInputPacket axis data
        { x with
          shard := x.shard.step env (.payload x.client packet)
          arrived := x.arrived ++ [index]
          newest := PlayerSlot.newestOf (packet.elim [] InputPacket.inputs) x.newest
          accepted := x.accepted ++ x.shard.server.accepted env x.client packet }
  | .shard action => { x with shard := x.shard.step env action }
  | .payload data => { x with game := x.game.handlePayload physics data }
  | .worldConfig entity => { x with game := x.game.handleWorldConfig entity }
  | .link connected => { x with game := { x.game with connected } }

end

/-- What the client has sent: commands in order, each packet with the newest of its time. -/
structure Packed (axis : AxisQuantizer A) (x : Session R S A) : Prop where
  numbered : ∀ index input, x.issued[index]? = some input →
    input.sequence = (index + 1) % 2 ^ 32
  next : x.game.view.nextInputSequence = (x.issued.length + 1) % 2 ^ 32
  recent : x.game.inputWindow = x.issued.drop (x.issued.length - kInputRedundancy)
  count : x.sent.length = x.issued.length
  carries : ∀ index data, x.sent[index]? = some data → data ≠ [] →
    ∃ clientTick ackedSnapshotTick, decodeInputPacket axis data =
      some { clientTick, ackedSnapshotTick
             inputs := (window x.issued index).map (conveyed axis) }

/-- Steps that leave the commands of the client alone. -/
theorem Packed.of_same {axis : AxisQuantizer A} {x x' : Session R S A} (h : Packed axis x) (hissued : x'.issued = x.issued)
    (hsent : x'.sent = x.sent)
    (hnext : x'.game.view.nextInputSequence = x.game.view.nextInputSequence)
    (hwindow : x'.game.inputWindow = x.game.inputWindow) : Packed axis x' where
  numbered := by
    rw [hissued]
    exact h.numbered
  next := by rw [hnext, hissued, h.next]
  recent := by rw [hwindow, hissued, h.recent]
  count := by rw [hsent, hissued, h.count]
  carries := by
    rw [hsent, hissued]
    exact h.carries

/-- A later command changes no earlier packet. -/
theorem window_append {issued : List (MoveInput A)} {index : Nat} (h : index < issued.length)
    (input : MoveInput A) : window (issued ++ [input]) index = window issued index := by
  unfold window
  rw [List.take_append_of_le_length h]

theorem window_last (issued : List (MoveInput A)) (input : MoveInput A) :
    window (issued ++ [input]) issued.length =
      (issued ++ [input]).drop ((issued ++ [input]).length - kInputRedundancy) := by
  unfold window
  rw [List.take_of_length_le (by simp), List.length_append, List.length_singleton]

theorem getElem?_concat {α : Type} {xs : List α} {x y : α} {index : Nat}
    (h : (xs ++ [x])[index]? = some y) :
    index < xs.length ∧ xs[index]? = some y ∨ index = xs.length ∧ y = x := by
  rw [List.getElem?_append] at h
  split at h
  · exact Or.inl ⟨‹_›, h⟩
  · have hlast : index - xs.length = 0 := by
      have := (List.getElem?_eq_some_iff.mp h).1
      simpa using this
    rw [hlast] at h
    exact Or.inr ⟨by omega, by simpa using h.symm⟩

theorem numbered_append {issued : List (MoveInput A)} {input : MoveInput A}
    (h : ∀ index input, issued[index]? = some input → input.sequence = (index + 1) % 2 ^ 32)
    (hinput : input.sequence = (issued.length + 1) % 2 ^ 32) (index : Nat) (other : MoveInput A)
    (hother : (issued ++ [input])[index]? = some other) :
    other.sequence = (index + 1) % 2 ^ 32 := by
  rcases getElem?_concat hother with ⟨-, hold⟩ | ⟨rfl, rfl⟩
  · exact h index other hold
  · exact hinput

theorem window_eq (issued : List (MoveInput A)) (index : Nat) :
    window issued index =
      (issued.drop (index + 1 - kInputRedundancy)).take (min (index + 1) kInputRedundancy) := by
  unfold window
  rw [List.drop_take]
  congr 1
  omega

theorem reached_append {x x' : Session R S A} {index : Nat}
    (h : x'.arrived = x.arrived ++ [index]) : x'.reached = max x.reached (index + 1) := by
  simp only [reached, h, List.foldl_append, List.foldl_cons, List.foldl_nil]

/-- The last sequence before the numbers start over. -/
def lastSequence : Nat := 2 ^ 32 - 1

/-- Consecutive commands of which none is more than one ahead go into the queue from where
it stands, up to the last number there is. -/
theorem accepts_consecutive (quantize : A → A) (carry store : MoveInput A → MoveInput A)
    (hcarry : ∀ input, (carry input).sequence = input.sequence)
    (hstore : ∀ input, { carry input with axes := quantize (carry input).axes } = store input)
    {issued : List (MoveInput A)}
    (hnumbered : ∀ index input, issued[index]? = some input →
      input.sequence = (index + 1) % 2 ^ 32)
    {first count reached : Nat} (hfirst : first ≤ reached)
    (hlength : first + count ≤ issued.length) {slot : PlayerSlot A}
    (hhighest : slot.highestReceivedSequence = min reached lastSequence) :
    (issued.take (min reached lastSequence)).map store ++
        slot.accepts quantize (((issued.drop first).take count).map carry) =
      (issued.take (min (max reached (first + count)) lastSequence)).map store ∧
    PlayerSlot.newestOf (((issued.drop first).take count).map carry) slot.highestReceivedSequence =
      min (max reached (first + count)) lastSequence := by
  generalize hlast : lastSequence = last at hhighest ⊢
  replace hlast : last = 4294967295 := hlast.symm
  induction count generalizing first reached slot with
  | zero =>
    simp only [List.take_zero, List.map_nil, PlayerSlot.accepts, PlayerSlot.newestOf,
      List.foldl_nil, List.append_nil, Nat.add_zero, Nat.max_eq_left hfirst, hhighest, and_self]
  | succ count ih =>
    have hlt : first < issued.length := by omega
    have hsequence := hnumbered first _ (List.getElem?_eq_getElem hlt)
    rw [← hcarry] at hsequence
    rw [List.drop_eq_getElem_cons hlt, List.take_succ_cons, List.map_cons]
    simp only [PlayerSlot.accepts, PlayerSlot.newestOf, List.foldl_cons]
    have hreceived := slot.receive_highest quantize (carry issued[first])
    have hstored := hstore issued[first]
    dsimp only at hstored
    rw [hsequence, hhighest] at hreceived
    rw [hsequence] at hstored
    rw [hsequence, hhighest, hstored]
    have htotal : first + (count + 1) = first + 1 + count := by omega
    rw [htotal]
    -- what is not stale is the next number, unless there is none
    by_cases hnext : first = reached ∧ reached < last
    · obtain ⟨rfl, hroom⟩ := hnext
      have hfresh : ¬ slot.Stale (carry issued[first]) := by
        unfold PlayerSlot.Stale
        omega
      have hhighest' : (slot.receive quantize (carry issued[first])).highestReceivedSequence =
          min (first + 1) last := by omega
      have hmax : max first (first + 1 + count) = max (first + 1) (first + 1 + count) := by omega
      have htake : min (first + 1) last = first + 1 := by omega
      have hold : min first last = first := by omega
      obtain ⟨haccepts, hnewest⟩ := ih (Nat.le_refl (first + 1)) (by omega) hhighest'
      rw [if_neg hfresh, hmax, ← haccepts, ← hnewest, hreceived, htake, hold, List.take_add_one,
        List.getElem?_eq_getElem hlt, List.map_append, List.append_assoc]
      exact ⟨rfl, rfl⟩
    · have hstale : slot.Stale (carry issued[first]) := by
        unfold PlayerSlot.Stale
        omega
      have hhighest' : (slot.receive quantize (carry issued[first])).highestReceivedSequence =
          min (max reached (first + 1)) last := by omega
      have hmax : max reached (first + 1 + count) =
          max (max reached (first + 1)) (first + 1 + count) := by omega
      have hold : min reached last = min (max reached (first + 1)) last := by omega
      obtain ⟨haccepts, hnewest⟩ := ih (Nat.le_max_right reached (first + 1)) (by omega) hhighest'
      rw [if_pos hstale, hmax, ← haccepts, ← hnewest, hreceived, hold]
      exact ⟨rfl, rfl⟩

/-- Packets of the client's connection are the client's own, and no arrival is further ahead
than the redundancy covers. -/
def Covered (x : Session R S A) : SessionAction A → Prop
  | .arrive index => index + 1 ≤ x.reached + kInputRedundancy
  | .shard (.payload client _) => client ≠ x.client
  | _ => True

/-- `on_payload` listens to the player: it is not on its way to another shard. -/
def Staying (x : Session R S A) : SessionAction A → Prop
  | .arrive _ => (x.shard.server.players.lookup x.client).all
      (fun player => !player.redirecting) = true
  | _ => True

theorem Covered.other {x : Session R S A} {action : ShardAction A} (h : x.Covered (.shard action))
    (packet : Option (InputPacket A)) : action ≠ .payload x.client packet := by
  rintro rfl
  exact h rfl

section
variable [LT R] (env : ShardEnv R A) (axis : AxisQuantizer A)

/-- A command as `on_payload` hands it on. -/
def carried (input : MoveInput A) : MoveInput A :=
  { conveyed axis input with axes := env.sim.quantizeInput (conveyed axis input).axes }

/-- A command as it stands in the queue. -/
def queued (input : MoveInput A) : MoveInput A :=
  { carried env axis input with axes := env.sim.quantizeInput (carried env axis input).axes }

/-- The queue has taken every command up to the newest that arrived, over what waited before. -/
structure Streamed (before : List (MoveInput A)) (x : Session R S A) : Prop where
  packed : Packed axis x
  booked : x.shard.Booked
  client : x.client < x.shard.server.nextClient
  within : x.reached ≤ x.issued.length
  newest : x.newest = min x.reached lastSequence
  accepted : x.accepted =
    (x.issued.take (min x.reached lastSequence)).map (queued env axis)
  highest : ∀ slot, x.shard.server.world.players.lookup x.client = some slot →
    slot.highestReceivedSequence = x.newest
  waiting : ∀ slot, x.shard.server.world.players.lookup x.client = some slot →
    slot.pending <:+ before ++ x.accepted

/-- Steps in which no packet arrives. -/
theorem Streamed.of_quiet {before : List (MoveInput A)} {x x' : Session R S A}
    (h : Streamed env axis before x)
    (hpacked : Packed axis x') (hbooked : x'.shard.Booked) (hclient : x'.client = x.client)
    (hissued : ∃ more, x'.issued = x.issued ++ more) (harrived : x'.arrived = x.arrived)
    (hnewest : x'.newest = x.newest) (haccepted : x'.accepted = x.accepted)
    (hfollows : x.shard.server.Follows x.client x'.shard.server) :
    Streamed env axis before x' := by
  obtain ⟨more, hissued⟩ := hissued
  have hreached : x'.reached = x.reached := by
    unfold reached
    rw [harrived]
  refine ⟨hpacked, hbooked, ?_, ?_, ?_, ?_, fun slot' hslot' => ?_, fun slot' hslot' => ?_⟩
  · rw [hclient]
    exact Nat.lt_of_lt_of_le h.client hfollows.numbered
  · rw [hreached, hissued, List.length_append]
    exact Nat.le_add_right_of_le h.within
  · rw [hnewest, hreached, h.newest]
  · rw [haccepted, h.accepted, hreached, hissued, List.take_append_of_le_length]
    exact Nat.le_trans (Nat.min_le_left _ _) h.within
  · rw [hclient] at hslot'
    obtain ⟨slot, hslot, hconsumes⟩ := hfollows.slot slot' hslot'
    rw [hnewest, hconsumes.highest, h.highest slot hslot]
  · rw [hclient] at hslot'
    obtain ⟨slot, hslot, hconsumes⟩ := hfollows.slot slot' hslot'
    obtain ⟨taken, hpending, -⟩ := hconsumes.pending
    rw [haccepted]
    exact (show slot'.pending <:+ slot.pending from ⟨taken, hpending.symm⟩).trans
      (h.waiting slot hslot)

end

section
variable [LT R] [Add R] [Mul R] [Neg R] [DecidableLT R] [OfScientific R]
  (env : ShardEnv R A) (physics : Physics S A) (axis : AxisQuantizer A)

theorem packed_send {x : Session R S A} (h : Packed axis x) (axes : A) (sprint : Bool) :
    Packed axis (x.step env physics axis (.send axes sprint)) := by
  rcases x.game.sendInput_cases physics axes sprint with
    hsame | ⟨-, -, input, view, clientTick, hpush, hsend⟩
  · simp only [step, hsame]
    exact h.of_same rfl rfl rfl rfl
  · obtain ⟨hinput, hview⟩ : input.sequence = x.game.view.nextInputSequence ∧
        view.nextInputSequence = (x.game.view.nextInputSequence + 1) % 2 ^ 32 := by
      cases hpush
      exact ⟨rfl, rfl⟩
    have hnumbered := numbered_append h.numbered (hinput.trans h.next)
    have hslide : GameClient.slide x.game.inputWindow input =
        window (x.issued ++ [input]) x.issued.length := by
      rw [h.recent, GameClient.slide_eq, window_last]
    simp only [step, hsend]
    refine ⟨hnumbered, ?_, ?_, ?_, fun index data hdata hsome => ?_⟩
    · dsimp only
      rw [hview, h.next, List.length_append, List.length_singleton]
      omega
    · dsimp only
      rw [h.recent, GameClient.slide_eq]
    · rw [List.length_append, List.length_append, h.count]
      rfl
    · dsimp only at hdata ⊢
      rcases getElem?_concat hdata with ⟨hold, hdata⟩ | ⟨hlast, rfl⟩
      · rw [window_append (h.count ▸ hold)]
        exact h.carries index data hdata hsome
      · rw [h.count] at hlast
        subst hlast
        rw [hslide]
        refine ⟨_, _, decodeInputPacket_encode axis ?_ ?_ (hslide ▸ hsome)⟩
        · dsimp only
          have hsize : kInputRedundancy = 6 := rfl
          have hmost : kMaxInputsPerPacket = 16 := rfl
          rw [window_last, List.length_drop]
          omega
        · intro other hother
          obtain ⟨j, hj⟩ := List.mem_iff_getElem?.mp (List.mem_of_mem_take (List.mem_of_mem_drop hother))
          rw [hnumbered j other hj]
          exact Nat.mod_lt _ (by decide)

theorem packed_step {x : Session R S A} (h : Packed axis x) (action : SessionAction A) :
    Packed axis (x.step env physics axis action) := by
  cases action with
  | send axes sprint => exact packed_send env physics axis h axes sprint
  | arrive index =>
    simp only [step]
    split
    · exact h
    · split
      · exact h
      · exact h.of_same rfl rfl rfl rfl
  | shard action => exact h.of_same rfl rfl rfl rfl
  | payload data =>
    refine h.of_same rfl rfl ?_ ?_
    · exact (x.game.handlePayload_frame physics data).1
    · exact (x.game.handlePayload_frame physics data).2
  | worldConfig entity => exact h.of_same rfl rfl rfl rfl
  | link connected => exact h.of_same rfl rfl rfl rfl

/-- A packet does not reach `on_payload`, or its commands go through it. -/
theorem arrive_cases {x : Session R S A} (h : Packed axis x) (hbooked : x.shard.Booked)
    (index : Nat) :
    x.step env physics axis (.arrive index) = x ∨
    index < x.issued.length ∧ ∃ packet player slot,
      packet.inputs = (window x.issued index).map (conveyed axis) ∧ x.shard.task = none ∧
      x.client ∈ x.shard.server.connections ∧
      x.shard.server.players.lookup x.client = some player ∧
      x.shard.server.world.players.lookup x.client = some slot ∧
      x.step env physics axis (.arrive index) =
        { x with
          shard := x.shard.step env (.payload x.client (some packet))
          arrived := x.arrived ++ [index]
          newest := PlayerSlot.newestOf packet.inputs x.newest
          accepted := x.accepted ++ x.shard.server.accepted env x.client (some packet) } := by
  cases hdata : x.sent[index]? with
  | none => exact Or.inl (by simp only [step, hdata])
  | some data =>
    by_cases hlost : data = [] ∨ x.shard.task.isSome = true ∨ x.client ∉ x.shard.server.connections
    · exact Or.inl (by simp only [step, hdata, if_pos hlost])
    · simp only [step, hdata, if_neg hlost]
      rw [not_or, not_or, not_not] at hlost
      obtain ⟨hsome, htask, hclient⟩ := hlost
      obtain ⟨clientTick, acked, hpacket⟩ := h.carries index data hdata hsome
      obtain ⟨player, hplayer⟩ := hbooked.kept.connected x.client hclient (by simp)
      obtain ⟨slot, hslot, -⟩ :=
        Option.map_eq_some_iff.mp (hbooked.seated.seat x.client player hplayer)
      rw [hpacket]
      refine Or.inr ⟨?_, _, player, slot, rfl, by simpa using htask, hclient, hplayer, hslot, rfl⟩
      exact h.count ▸ (List.getElem?_eq_some_iff.mp hdata).1

theorem streamed_arrive {before : List (MoveInput A)} {x : Session R S A}
    (h : Streamed env axis before x) {index : Nat}
    (hcovered : x.Covered (.arrive index)) (hstaying : x.Staying (.arrive index)) :
    Streamed env axis before (x.step env physics axis (.arrive index)) := by
  have hpacked := packed_step env physics axis h.packed (.arrive index)
  rcases arrive_cases env physics axis h.packed h.booked index with
    hsame | ⟨hindex, packet, player, slot, hinputs, htask, hclient, hplayer, hslot, hstep⟩
  · rw [hsame]
    exact h
  · have hstays : player.redirecting = false := by
      simpa [Staying, hplayer] using hstaying
    have hsize : kInputRedundancy = 6 := rfl
    have hnear : index + 1 ≤ x.reached + kInputRedundancy := hcovered
    have hwhole : index + 1 - kInputRedundancy + min (index + 1) kInputRedundancy = index + 1 := by
      omega
    obtain ⟨haccepts, hnewest⟩ := accepts_consecutive env.sim.quantizeInput (carried env axis)
      (queued env axis) (fun _ => rfl) (fun _ => rfl) h.packed.numbered
      (show index + 1 - kInputRedundancy ≤ x.reached by omega)
      (show _ + min (index + 1) kInputRedundancy ≤ x.issued.length by omega)
      ((h.highest slot hslot).trans h.newest)
    have hcarried : (packet.inputs.map fun input =>
        { input with axes := env.sim.quantizeInput input.axes }) =
        ((x.issued.drop (index + 1 - kInputRedundancy)).take
          (min (index + 1) kInputRedundancy)).map (carried env axis) := by
      rw [hinputs, window_eq, List.map_map]
      rfl
    rw [hwhole, ← hcarried, PlayerSlot.newestOf_quantized, h.highest slot hslot] at hnewest
    rw [hwhole, ← hcarried, ← h.accepted] at haccepts
    obtain ⟨hslot', -⟩ := x.shard.step_payload env htask hclient hplayer hstays hslot packet
    have hbooked := Shard.booked_step env h.booked (.payload x.client (some packet))
    have hreached := reached_append (congrArg arrived hstep)
    rw [← hreached] at hnewest haccepts
    rw [hstep] at hpacked hreached hnewest haccepts ⊢
    have haccepted : x.shard.server.accepted env x.client (some packet) =
        slot.accepts env.sim.quantizeInput
          (packet.inputs.map fun input => { input with axes := env.sim.quantizeInput input.axes }) := by
      simp only [WorldServer.accepted, hplayer, hslot, hstays, Bool.false_eq_true, if_false]
    refine ⟨hpacked, hbooked, ?_, ?_, hnewest, ?_, fun slot' hlookup => ?_, fun slot' hlookup => ?_⟩
    · exact hbooked.seated.client_lt hslot'
    · rw [hreached]
      exact Nat.max_le.mpr ⟨h.within, hindex⟩
    · rw [← haccepts]
      exact congrArg (x.accepted ++ ·) haccepted
    · cases hslot'.symm.trans hlookup
      rw [PlayerSlot.foldl_receive_highest, PlayerSlot.newestOf_quantized, h.highest slot hslot]
    · cases hslot'.symm.trans hlookup
      obtain ⟨gone, hgone⟩ := h.waiting slot hslot
      dsimp only
      rw [haccepted, ← List.append_assoc, ← hgone, List.append_assoc]
      exact (PlayerSlot.foldl_receive_waiting _ _ slot).trans (List.suffix_append _ _)

theorem streamed_step {before : List (MoveInput A)} {x : Session R S A}
    (h : Streamed env axis before x) {action : SessionAction A}
    (hcovered : x.Covered action) (hstaying : x.Staying action) :
    Streamed env axis before (x.step env physics axis action) := by
  have hpacked := packed_step env physics axis h.packed action
  have hquiet := (WorldServer.Steady.refl x.client x.shard.server).follows
  cases action with
  | send axes sprint =>
    rcases x.game.sendInput_cases physics axes sprint with
      hsame | ⟨-, -, input, view, clientTick, -, hsend⟩
    · simp only [step, hsame] at hpacked ⊢
      exact h.of_quiet env axis hpacked h.booked rfl ⟨[], by simp⟩ rfl rfl rfl hquiet
    · simp only [step, hsend] at hpacked ⊢
      exact h.of_quiet env axis hpacked h.booked rfl ⟨[input], rfl⟩ rfl rfl rfl hquiet
  | arrive index => exact streamed_arrive env physics axis h hcovered hstaying
  | shard action =>
    exact h.of_quiet env axis hpacked (Shard.booked_step env h.booked action) rfl
      ⟨[], by simp [step]⟩ rfl rfl rfl
      (Shard.follows_step env h.booked.tidy h.client hcovered.other)
  | payload data =>
    exact h.of_quiet env axis hpacked h.booked rfl ⟨[], by simp [step]⟩ rfl rfl rfl hquiet
  | worldConfig entity =>
    exact h.of_quiet env axis hpacked h.booked rfl ⟨[], by simp [step]⟩ rfl rfl rfl hquiet
  | link connected =>
    exact h.of_quiet env axis hpacked h.booked rfl ⟨[], by simp [step]⟩ rfl rfl rfl hquiet

end

/-- A client that has just started and plays as `client` on the shard. -/
def start (physics : Physics S A) (shard : Shard R A) (client : Nat) (config : ClientViewConfig) :
    Session R S A :=
  { shard, client, game := GameClient.start physics config }

theorem packed_start (axis : AxisQuantizer A) (physics : Physics S A) (shard : Shard R A)
    (client : Nat) (config : ClientViewConfig) :
    Packed axis (start physics shard client config) := by
  refine ⟨fun index input h => ?_, rfl, rfl, rfl, fun index data h => ?_⟩
  · cases h
  · cases h

/-- Commands below the wrap carry the numbers from 1 on. -/
theorem sequences_take {issued : List (MoveInput A)}
    (h : ∀ index input, issued[index]? = some input → input.sequence = (index + 1) % 2 ^ 32)
    {count : Nat} (hcount : count ≤ issued.length) (hlast : count ≤ lastSequence) :
    (issued.take count).map MoveInput.sequence = List.range' 1 count := by
  apply List.ext_getElem
  · simp [hcount]
  · intro index hleft hright
    rw [List.length_range'] at hright
    have hwithin : index < issued.length := Nat.lt_of_lt_of_le hright hcount
    have hsmall : index + 1 < 2 ^ 32 := Nat.lt_succ_of_le (Nat.le_trans hright hlast)
    rw [List.getElem_map, List.getElem_take, List.getElem_range',
      h index _ (List.getElem?_eq_getElem hwithin), Nat.mod_eq_of_lt hsmall]
    omega

section
variable [LT R] [Add R] [Mul R] [Neg R] [DecidableLT R] [OfScientific R]
  (env : ShardEnv R A) (physics : Physics S A) (axis : AxisQuantizer A)

theorem streamed_start {shard : Shard R A} (hshard : shard.Reachable env) {client : Nat}
    {slot : PlayerSlot A} (hslot : shard.server.world.players.lookup client = some slot)
    (hfresh : slot.highestReceivedSequence = 0) (config : ClientViewConfig) :
    Streamed env axis slot.pending (start physics shard client config) := by
  refine ⟨packed_start axis physics shard client config, hshard.booked env, ?_, Nat.zero_le _, rfl,
    rfl, fun other hother => ?_, fun other hother => ?_⟩
  · exact (hshard.booked env).seated.client_lt hslot
  · cases hslot.symm.trans hother
    exact hfresh
  · cases hslot.symm.trans hother
    exact (List.append_nil _).symm ▸ List.suffix_refl _

/-- Redundancy covers loss: while no packet that arrives is more than six commands ahead and
the player is not being redirected, the queue has taken each command up to the newest that
has arrived, once and in order; what waits in it is the end of what it took. -/
theorem accepted_in_order {shard : Shard R A} (hshard : shard.Reachable env) {client : Nat}
    (hfresh : (shard.server.world.players.lookup client).map PlayerSlot.highestReceivedSequence =
      some 0) (config : ClientViewConfig) {actions : List (SessionAction A)}
    (hcovered : Run.Along (step env physics axis) Covered (start physics shard client config)
      actions)
    (hstaying : Run.Along (step env physics axis) Staying (start physics shard client config)
      actions) :
    let x := Run.run (step env physics axis) (start physics shard client config) actions
    x.accepted.map MoveInput.sequence = List.range' 1 x.newest ∧
    x.accepted = (x.issued.take x.newest).map (queued env axis) ∧
    ∀ first slot, shard.server.world.players.lookup client = some first →
      x.shard.server.world.players.lookup x.client = some slot →
      ∃ gone, first.pending ++ x.accepted = gone ++ slot.pending := by
  intro x
  obtain ⟨first, hfirst, hzero⟩ := Option.map_eq_some_iff.mp hfresh
  have h : Streamed env axis first.pending x := Run.invariant (Streamed env axis first.pending)
    (fun x action hok h => streamed_step env physics axis h hok.1 hok.2)
    (streamed_start env physics axis hshard hfirst hzero config) (Run.along_and hcovered hstaying)
  clear_value x
  have hlength : x.newest ≤ x.issued.length := by
    rw [h.newest]
    exact Nat.le_trans (Nat.min_le_left _ _) h.within
  have hlast : x.newest ≤ lastSequence := by
    rw [h.newest]
    exact Nat.min_le_right _ _
  have haccepted := h.accepted
  rw [← h.newest] at haccepted
  refine ⟨?_, haccepted, fun other slot hother hslot => ?_⟩
  · rw [haccepted, List.map_map, ← sequences_take h.packed.numbered hlength hlast]
    rfl
  · cases hfirst.symm.trans hother
    obtain ⟨gone, hgone⟩ := h.waiting slot hslot
    exact ⟨gone, hgone.symm⟩

end
/-- Shard "a" as player "p" joins it under client id 1. -/
def lobby : Shard ℚ Unit :=
  Run.run (Shard.step .still)
    (Shard.start
      { shardId := [97], interest := { distancePriorityFalloff := 1 }, advertise := false }
      { config := { id := [97] } } [])
    [.connect (some { token := 5, playerId := [112] }) 0]

/-- The first two packets are lost, then one of them comes after all. -/
def overtaken : List (SessionAction Unit) :=
  [.worldConfig 1, .link true, .send () false, .send () false, .send () false, .arrive 2,
    .arrive 0, .shard (.tick 0 [1] [1]), .send () false, .arrive 3]

instance decidableCovered (x : Session R S A) (action : SessionAction A) :
    Decidable (x.Covered action) :=
  match action with
  | .arrive _ => inferInstanceAs (Decidable (_ ≤ _))
  | .shard (.payload _ _) => inferInstanceAs (Decidable (_ ≠ _))
  | .shard (.connect _ _) | .shard (.disconnect _ _) | .shard (.tick _ _ _)
  | .shard (.refresh _ _) | .shard (.membership _) | .shard (.resume _ _)
  | .send _ _ | .payload _ | .worldConfig _ | .link _ => isTrue trivial

instance decidableStaying (x : Session R S A) (action : SessionAction A) :
    Decidable (x.Staying action) :=
  match action with
  | .arrive _ => inferInstanceAs (Decidable (_ = _))
  | .send _ _ | .shard _ | .payload _ | .worldConfig _ | .link _ => isTrue trivial

theorem accepted_in_order_overtaken :
    let x := Run.run (step .still .still .centered) (start .still lobby 1 {}) overtaken
    x.newest = 4 ∧ x.accepted.map MoveInput.sequence = List.range' 1 x.newest := by
  refine ⟨by decide +kernel, ?_⟩
  exact (accepted_in_order .still .still .centered ⟨_, _, _, _, rfl⟩ (by decide +kernel) {}
    (by decide +kernel) (by decide +kernel)).1

/-- Shard "a", which has the even regions, as player "p" joins it in region 0. -/
def border : Shard ℚ Unit :=
  Run.run (Shard.step .eastward)
    (Shard.start { shardId := [97], interest := { distancePriorityFalloff := 1 } }
      { config := { id := [97] } } [])
    [.membership
        [{ id := [97], udpEndpoint := [1] }, { id := [98], udpEndpoint := [2] }],
      .connect (some { token := 5, playerId := [112] }) 0,
      .resume (some [.hash (some { shard := [97], region := 0, session := some 5, updated := 0 })]) 0,
      .resume (some []) 0]

/-- A tick sends the player to shard "b"; its first command comes after that. -/
def departed : List (SessionAction Unit) :=
  [.worldConfig 1, .link true, .shard (.tick 0 [1] [1]),
    .shard (.resume (some [.ok, .integer 1]) 0), .send () false, .arrive 0]

/-- A redirected player's packet arrives and nothing of it is queued, though no arrival is too
far ahead and the queue is never full. -/
theorem redirected_unheard :
    let begin := start Physics.still border 1 {}
    let x := Run.run (step .eastward .still .centered) begin departed
    border.Reachable .eastward ∧
    (border.server.world.players.lookup 1).map PlayerSlot.highestReceivedSequence = some 0 ∧
    Run.Along (step .eastward .still .centered) Covered begin departed ∧
    Run.Along (step .eastward .still .centered)
      (fun x _ => ((x.shard.server.world.players.lookup x.client).elim []
        PlayerSlot.pending).length < kMaxQueuedInputs) begin departed ∧
    x.newest = 1 ∧ x.accepted = [] ∧
      x.accepted.map MoveInput.sequence ≠ List.range' 1 x.newest := by
  refine ⟨⟨_, _, _, _, rfl⟩, ?_⟩
  decide +kernel

end Session
end Morton.App
