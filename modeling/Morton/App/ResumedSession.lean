import Morton.App.InputStream

/-! A player comes back with a new client and the shard resumes it from a ghost. The new
client numbers its commands from 1; the ghost carries the sequence of the old one. -/
namespace Morton.Sim.PlayerSlot
variable {A : Type} (quantize : A → A)

/-- Of commands in increasing order those beyond the highest are appended. -/
theorem accepts_increasing (carry store : MoveInput A → MoveInput A)
    (hcarry : ∀ input, (carry input).sequence = input.sequence)
    (hstore : ∀ input, { carry input with axes := quantize (carry input).axes } = store input)
    {inputs : List (MoveInput A)}
    (hincreasing : inputs.Pairwise fun a b => a.sequence < b.sequence)
    (hpositive : ∀ input ∈ inputs, 0 < input.sequence) (slot : PlayerSlot A) :
    slot.accepts quantize (inputs.map carry) =
      (inputs.filter fun input =>
        decide (slot.highestReceivedSequence < input.sequence)).map store := by
  induction inputs generalizing slot with
  | nil => rfl
  | cons input inputs ih =>
    obtain ⟨hfirst, hrest⟩ := List.pairwise_cons.mp hincreasing
    have hpos := hpositive input List.mem_cons_self
    have hreceived := slot.receive_highest quantize (carry input)
    rw [hcarry] at hreceived
    rw [List.map_cons, accepts, ih hrest fun other hother =>
      hpositive other (List.mem_cons_of_mem _ hother)]
    by_cases hnew : slot.highestReceivedSequence < input.sequence
    · have hfresh : ¬ slot.Stale (carry input) := by
        rw [Stale, hcarry]
        omega
      rw [if_neg hfresh, List.filter_cons_of_pos (by simpa using hnew), List.map_cons, ← hstore]
      congr 2
      refine List.filter_congr fun other hother => ?_
      have hlater := hfirst other hother
      simp only [hreceived, decide_eq_decide]
      omega
    · have hstale : slot.Stale (carry input) := by
        rw [Stale, hcarry]
        omega
      rw [if_pos hstale, List.filter_cons_of_neg (by simpa using hnew), hreceived,
        Nat.max_eq_left (Nat.le_of_not_lt hnew)]

/-- A queue with room loses nothing. -/
theorem foldl_receive_pending (inputs : List (MoveInput A)) {slot : PlayerSlot A}
    (h : slot.pending.length + (slot.accepts quantize inputs).length ≤ kMaxQueuedInputs) :
    (inputs.foldl (receive quantize) slot).pending =
      slot.pending ++ slot.accepts quantize inputs ∧
    (inputs.foldl (receive quantize) slot).lastAppliedSequence = slot.lastAppliedSequence := by
  induction inputs generalizing slot with
  | nil => exact ⟨(List.append_nil _).symm, rfl⟩
  | cons input inputs ih =>
    rw [List.foldl_cons]
    simp only [accepts] at h ⊢
    have hlast := (slot.receive_frame quantize input).2
    by_cases hstale : slot.Stale input
    · have hpending : (slot.receive quantize input).pending = slot.pending := by
        rw [receive, if_pos (show _ ∧ _ from hstale)]
      rw [if_pos hstale] at h ⊢
      rw [← hpending] at h ⊢
      rw [← hlast]
      exact ih h
    · rw [if_neg hstale] at h ⊢
      have hroom : ¬ slot.pending.length ≥ kMaxQueuedInputs := by
        rw [List.length_cons] at h
        omega
      have hpending : (slot.receive quantize input).pending =
          slot.pending ++ [{ input with axes := quantize input.axes }] := by
        rw [receive, if_neg (show ¬ (_ ∧ _) from hstale)]
        simp only [if_neg hroom]
      have hnext : (slot.receive quantize input).pending.length +
          ((slot.receive quantize input).accepts quantize inputs).length ≤ kMaxQueuedInputs := by
        rw [hpending, List.length_append, List.length_singleton]
        rw [List.length_cons] at h
        omega
      obtain ⟨hqueue, happlied⟩ := ih hnext
      rw [hqueue, happlied, hlast, hpending, List.append_assoc]
      exact ⟨rfl, rfl⟩

/-- The sequence of the last of some commands, zero if there is none. -/
def lastOf (inputs : List (MoveInput A)) : Nat := ((inputs.getLast?).map MoveInput.sequence).getD 0

theorem lastOf_append (inputs more : List (MoveInput A)) :
    lastOf (inputs ++ more) = ((more.getLast?).map MoveInput.sequence).getD (lastOf inputs) := by
  unfold lastOf
  rw [List.getLast?_append]
  cases more.getLast? with
  | none => rfl
  | some input => rfl

theorem lastOf_le {inputs : List (MoveInput A)} {bound : Nat}
    (h : ∀ input ∈ inputs, input.sequence ≤ bound) : lastOf inputs ≤ bound := by
  unfold lastOf
  cases hlast : inputs.getLast? with
  | none => exact Nat.zero_le _
  | some input => exact h input (List.mem_of_getLast? hlast)

theorem lastOf_le_append {inputs more : List (MoveInput A)}
    (h : (inputs ++ more).Pairwise fun a b => a.sequence < b.sequence) :
    lastOf inputs ≤ lastOf (inputs ++ more) := by
  rw [lastOf_append]
  cases hlast : more.getLast? with
  | none => exact Nat.le_refl _
  | some input =>
    refine lastOf_le fun other hother => Nat.le_of_lt ?_
    exact (List.pairwise_append.mp h).2.2 other hother input (List.mem_of_getLast? hlast)

/-- In increasing order the last is the highest. -/
theorem lastOf_eq {inputs : List (MoveInput A)} {bound : Nat}
    (h : inputs.Pairwise fun a b => a.sequence < b.sequence)
    (hle : ∀ input ∈ inputs, input.sequence ≤ bound)
    (hmem : ∃ input ∈ inputs, input.sequence = bound) : lastOf inputs = bound := by
  refine Nat.le_antisymm (lastOf_le hle) ?_
  obtain ⟨input, hinput, rfl⟩ := hmem
  rcases List.eq_nil_or_concat inputs with rfl | ⟨init, last, rfl⟩
  · cases hinput
  · rw [List.concat_eq_append] at h hinput ⊢
    rw [lastOf_append]
    rcases List.mem_append.mp hinput with hinit | hlast
    · exact Nat.le_of_lt ((List.pairwise_append.mp h).2.2 input hinit last (List.mem_singleton_self _))
    · cases List.mem_singleton.mp hlast
      exact Nat.le_refl _

theorem newestOf_eq {inputs : List (MoveInput A)} {newest bound : Nat} (hnewest : newest ≤ bound)
    (hle : ∀ input ∈ inputs, input.sequence ≤ bound)
    (hmem : newest = bound ∨ ∃ input ∈ inputs, input.sequence = bound) :
    newestOf inputs newest = bound := by
  induction inputs generalizing newest with
  | nil =>
    rcases hmem with rfl | ⟨input, hinput, -⟩
    · rfl
    · cases hinput
  | cons input inputs ih =>
    have hfirst := hle input List.mem_cons_self
    refine ih (Nat.max_le.mpr ⟨hnewest, hfirst⟩)
      (fun other hother => hle other (List.mem_cons_of_mem _ hother)) ?_
    rcases hmem with rfl | ⟨other, hother, hbound⟩
    · exact Or.inl (Nat.max_eq_left hfirst)
    · rcases List.mem_cons.mp hother with rfl | hother
      · exact Or.inl ((Nat.max_eq_right (hbound ▸ hnewest)).trans hbound)
      · exact Or.inr ⟨other, hother, hbound⟩

end Morton.Sim.PlayerSlot

namespace Morton.App
open Proto Sim Cluster

/-- The ghost from which `on_connect` resumes a session admitted without a ticket, once a
stale session of the player is gone. -/
def WorldServer.ghostFor {R A : Type} (w : WorldServer R A) (credential : ConnectCredential)
    (now : Nat) : Option GhostState :=
  (((w.numberClient credential.playerId).replaceStale credential.playerId w.nextClient
    now).ghosts.lookup credential.playerId).filter fun ghost =>
      decide (now < ghost.expiresMs) && ghost.sessionToken == credential.token

/-- The slot of a resumed player goes on from the ghost's sequence. -/
theorem WorldServer.slot_resumed {R A : Type} [LT R] (env : ShardEnv R A) {w : WorldServer R A}
    (hpending : w.pendingAdmits = ∅) {credential : ConnectCredential} {now : Nat}
    {ghost : GhostState} (hghost : w.ghostFor credential now = some ghost)
    (region admittedMs : Nat) :
    ∃ slot, (w.finishAdmit env credential none region admittedMs now).1.world.players.lookup
        w.nextClient = some slot ∧
      slot.highestReceivedSequence = ghost.lastInputSequence ∧
      slot.lastAppliedSequence = ghost.lastInputSequence ∧ slot.pending = [] := by
  rw [finishAdmit_eq env hpending]
  unfold ghostFor at hghost
  simp only [join, startState, hghost, World.adoptEntity, Finmap.lookup_insert]
  exact ⟨_, rfl, rfl, rfl, rfl⟩

namespace Session
variable {R S A : Type}

theorem foldl_reached (arrived : List Nat) (reached : Nat) :
    let last := arrived.foldl (fun reached index => max reached (index + 1)) reached
    reached ≤ last ∧ (∀ index ∈ arrived, index + 1 ≤ last) ∧
    (last = reached ∨ ∃ index ∈ arrived, index + 1 = last) := by
  induction arrived generalizing reached with
  | nil => simp
  | cons index arrived ih =>
    obtain ⟨hgrows, hall, hsome⟩ := ih (max reached (index + 1))
    simp only [List.foldl_cons]
    refine ⟨by omega, fun other hother => ?_, ?_⟩
    · rcases List.mem_cons.mp hother with rfl | hother
      · omega
      · exact hall other hother
    · rcases hsome with heq | ⟨other, hother, heq⟩
      · rcases Nat.le_total (index + 1) reached with hle | hle
        · exact Or.inl (by omega)
        · exact Or.inr ⟨index, List.mem_cons_self, by omega⟩
      · exact Or.inr ⟨other, List.mem_cons_of_mem _ hother, heq⟩

theorem le_reached {x : Session R S A} {index : Nat} (h : index ∈ x.arrived) :
    index + 1 ≤ x.reached :=
  (foldl_reached x.arrived 0).2.1 index h

theorem exists_reached {x : Session R S A} (h : 0 < x.reached) :
    ∃ index ∈ x.arrived, index + 1 = x.reached := by
  rcases (foldl_reached x.arrived 0).2.2 with hzero | hsome
  · exact absurd hzero (Nat.ne_of_gt h)
  · exact hsome

theorem mem_window {issued : List (MoveInput A)} {index : Nat} {input : MoveInput A} :
    input ∈ window issued index ↔
      ∃ j, issued[j]? = some input ∧ j ≤ index ∧ index < j + kInputRedundancy := by
  unfold window
  constructor
  · intro h
    obtain ⟨k, hk⟩ := List.mem_iff_getElem?.mp h
    rw [List.getElem?_drop, List.getElem?_take] at hk
    split at hk
    · exact ⟨_, hk, by omega, by omega⟩
    · cases hk
  · rintro ⟨j, hj, hle, hlt⟩
    refine List.mem_iff_getElem?.mpr ⟨j - (index + 1 - kInputRedundancy), ?_⟩
    have hsum : index + 1 - kInputRedundancy + (j - (index + 1 - kInputRedundancy)) = j := by omega
    rw [List.getElem?_drop, hsum, List.getElem?_take, if_pos (by omega), hj]

/-- As long as the numbers do not start over. -/
theorem sequence_eq {issued : List (MoveInput A)}
    (h : ∀ index input, issued[index]? = some input → input.sequence = (index + 1) % 2 ^ 32)
    (hbelow : issued.length ≤ lastSequence) {index : Nat} {input : MoveInput A}
    (hinput : issued[index]? = some input) : input.sequence = index + 1 := by
  have hlt := (List.getElem?_eq_some_iff.mp hinput).1
  have hlast : lastSequence = 2 ^ 32 - 1 := rfl
  rw [h index input hinput]
  exact Nat.mod_eq_of_lt (by omega)

theorem increasing_issued {issued : List (MoveInput A)}
    (h : ∀ index input, issued[index]? = some input → input.sequence = (index + 1) % 2 ^ 32)
    (hbelow : issued.length ≤ lastSequence) :
    issued.Pairwise fun a b => a.sequence < b.sequence := by
  refine List.pairwise_iff_getElem.mpr fun i j hi hj hlt => ?_
  rw [sequence_eq h hbelow (List.getElem?_eq_getElem hi),
    sequence_eq h hbelow (List.getElem?_eq_getElem hj)]
  omega

/-- Packets of the client's connection are the client's own and arrive in order. -/
def InOrder (x : Session R S A) : SessionAction A → Prop
  | .arrive index => x.reached ≤ index
  | .shard (.payload client _) => client ≠ x.client
  | _ => True

/-- A snapshot that the client takes in was published for it while nothing was waiting. The
session starts where the trace has `base` entries. -/
def Level (physics : Physics S A) (base : Nat) (x : Session R S A) : SessionAction A → Prop
  | .payload data => ∀ snapshot, x.game.takesIn physics data = some snapshot →
      ∃ p, Trace.published p ∈ x.shard.server.trace.drop base ∧ p.client = x.client ∧
        p.sequence = snapshot.lastInputSequence ∧ p.waiting = []
  | _ => True

/-- The commands in a packet that are newer than all that have arrived. -/
def fresh (x : Session R S A) (index : Nat) : List (MoveInput A) :=
  (window x.issued index).filter fun input => decide (x.reached < input.sequence)

/-- No limit is met: numbers do not start over, the client has room for what the shard has
not applied, the player is not being redirected and its queue has room. -/
def Unhindered (x : Session R S A) : SessionAction A → Prop
  | .send _ _ => x.issued.length < lastSequence ∧
      (x.shard.server.world.players.lookup x.client).all (fun slot =>
        decide (x.issued.length < slot.lastAppliedSequence + x.game.view.config.inputHistory)) = true
  | .arrive index =>
      (x.shard.server.players.lookup x.client).all (fun player => !player.redirecting) = true ∧
      (x.shard.server.world.players.lookup x.client).all (fun slot =>
        decide (slot.pending.length + (x.fresh index).length ≤ kMaxQueuedInputs)) = true
  | _ => True

theorem InOrder.other {x : Session R S A} {action : ShardAction A} (h : x.InOrder (.shard action))
    (packet : Option (InputPacket A)) : action ≠ .payload x.client packet := by
  rintro rfl
  exact h rfl

section
variable [LT R] (env : ShardEnv R A) (axis : AxisQuantizer A)

/-- What has arrived was appended, and leaves the queue only to be applied. -/
structure Lossless (base : Nat) (x : Session R S A) : Prop where
  packed : Packed axis x
  booked : x.shard.Booked
  client : x.client < x.shard.server.nextClient
  within : x.reached ≤ x.issued.length
  below : x.issued.length ≤ lastSequence
  heard : ∀ index ∈ x.arrived, ∀ input ∈ window x.issued index,
    queued env axis input ∈ x.accepted
  increasing : x.accepted.Pairwise fun a b => a.sequence < b.sequence
  bounded : ∀ input ∈ x.accepted, input.sequence ≤ x.reached
  newest : PlayerSlot.lastOf x.accepted = x.reached
  highest : ∀ slot, x.shard.server.world.players.lookup x.client = some slot →
    slot.highestReceivedSequence = x.reached
  queue : ∀ slot, x.shard.server.world.players.lookup x.client = some slot →
    ∃ applied, x.accepted = applied ++ slot.pending ∧
      slot.lastAppliedSequence = PlayerSlot.lastOf applied
  since : base ≤ x.shard.server.trace.length
  published : ∀ p, Trace.published p ∈ x.shard.server.trace.drop base → p.client = x.client →
    p.waiting = [] → ∀ slot, x.shard.server.world.players.lookup x.client = some slot →
      p.sequence ≤ slot.lastAppliedSequence

/-- The client still has what the shard has not applied. -/
def Remembers (x : Session R S A) : Prop :=
  ∃ count, x.game.view.inputHistory = x.issued.drop count ∧
    ∀ slot, x.shard.server.world.players.lookup x.client = some slot →
      count ≤ slot.lastAppliedSequence

variable {env axis} {base : Nat}

theorem Lossless.setGame {x : Session R S A} (h : Lossless env axis base x) {game : GameClient S A}
    (hpacked : Packed axis { x with game }) : Lossless env axis base { x with game } :=
  ⟨hpacked, h.booked, h.client, h.within, h.below, h.heard, h.increasing, h.bounded, h.newest,
    h.highest, h.queue, h.since, h.published⟩

/-- Commands are applied in the order of the queue. -/
theorem Lossless.applied {x : Session R S A} (h : Lossless env axis base x) {w' : WorldServer R A}
    (hfollows : x.shard.server.Follows x.client w') {slot' : PlayerSlot A}
    (hslot' : w'.world.players.lookup x.client = some slot') :
    ∃ slot, x.shard.server.world.players.lookup x.client = some slot ∧
      slot.lastAppliedSequence ≤ slot'.lastAppliedSequence ∧
      slot'.highestReceivedSequence = slot.highestReceivedSequence ∧
      ∃ applied, x.accepted = applied ++ slot'.pending ∧
        slot'.lastAppliedSequence = PlayerSlot.lastOf applied := by
  obtain ⟨slot, hslot, ⟨taken, hpending, hlast⟩, hhighest⟩ := hfollows.slot slot' hslot'
  obtain ⟨applied, haccepted, happlied⟩ := h.queue slot hslot
  have hlast' : slot'.lastAppliedSequence = PlayerSlot.lastOf (applied ++ taken) := by
    rw [PlayerSlot.lastOf_append, hlast, happlied]
  have hsplit : x.accepted = (applied ++ taken) ++ slot'.pending := by
    rw [haccepted, hpending, List.append_assoc]
  have hincreasing := h.increasing
  rw [hsplit] at hincreasing
  refine ⟨slot, hslot, ?_, hhighest, applied ++ taken, hsplit, hlast'⟩
  rw [happlied, hlast']
  exact PlayerSlot.lastOf_le_append (List.pairwise_append.mp hincreasing).1

theorem Lossless.setShard {x : Session R S A} (h : Lossless env axis base x) {shard : Shard R A}
    (hbooked : shard.Booked) (hfollows : x.shard.server.Follows x.client shard.server) :
    Lossless env axis base { x with shard } := by
  have hpacked : Packed axis { x with shard } := h.packed.of_same rfl rfl rfl rfl
  obtain ⟨more, hmore, hreports⟩ := hfollows.published
  refine ⟨hpacked, hbooked, Nat.lt_of_lt_of_le h.client hfollows.numbered, h.within, h.below,
    h.heard, h.increasing, h.bounded, h.newest, fun slot' hslot' => ?_, fun slot' hslot' => ?_, ?_,
    fun p hp hclient hwaiting slot' hslot' => ?_⟩
  · obtain ⟨slot, hslot, -, hhighest, -⟩ := h.applied hfollows hslot'
    exact hhighest.trans (h.highest slot hslot)
  · obtain ⟨slot, -, -, -, hqueue⟩ := h.applied hfollows hslot'
    exact hqueue
  · show base ≤ shard.server.trace.length
    rw [hmore, List.length_append]
    exact Nat.le_add_right_of_le h.since
  · obtain ⟨slot, hslot, hgrows, hhighest, applied, haccepted, happlied⟩ :=
      h.applied hfollows hslot'
    change Trace.published p ∈ shard.server.trace.drop base at hp
    rw [hmore, List.drop_append_of_le_length h.since] at hp
    rcases List.mem_append.mp hp with hold | hnew
    · exact Nat.le_trans (h.published p hold hclient hwaiting slot hslot) hgrows
    -- with nothing waiting the sequence handed out is the one applied last
    · obtain ⟨player', hplayer'⟩ := hbooked.kept.simulated x.client slot' hslot'
      obtain ⟨hsequence, hpending⟩ := hreports p hnew hclient player' slot' hplayer' hslot'
      have hempty : slot'.pending = [] := List.map_eq_nil_iff.mp (hpending.symm.trans hwaiting)
      have hseat := hbooked.seated.seat x.client player' hplayer'
      rw [World.seat, hslot', Option.map_some] at hseat
      have hsame : slot'.highestReceivedSequence = player'.lastInputSequence :=
        congrArg Prod.snd (Option.some.inj hseat)
      rw [hempty, List.append_nil] at haccepted
      rw [hsequence, ← hsame, hhighest, h.highest slot hslot, happlied, ← haccepted, h.newest]

theorem Remembers.setShard {x : Session R S A} (h : Lossless env axis base x)
    (hremembers : x.Remembers) {shard : Shard R A}
    (hfollows : x.shard.server.Follows x.client shard.server) :
    Remembers { x with shard } := by
  obtain ⟨count, hhistory, hcount⟩ := hremembers
  refine ⟨count, hhistory, fun slot' hslot' => ?_⟩
  obtain ⟨slot, hslot, hgrows, -⟩ := h.applied hfollows hslot'
  exact Nat.le_trans (hcount slot hslot) hgrows

/-- Dropping acknowledged commands drops no later ones. -/
theorem dropWhile_issued {issued : List (MoveInput A)}
    (h : ∀ index input, issued[index]? = some input → input.sequence = (index + 1) % 2 ^ 32)
    (hbelow : issued.length ≤ lastSequence) (count bound : Nat) :
    ∃ count', (issued.drop count).dropWhile (fun input => decide (input.sequence ≤ bound)) =
      issued.drop count' ∧ count' ≤ max count bound := by
  induction hleft : issued.length - count generalizing count with
  | zero => exact ⟨count, by rw [List.drop_of_length_le (by omega), List.dropWhile_nil], by omega⟩
  | succ left ih =>
    have hlt : count < issued.length := by omega
    have hsequence := sequence_eq h hbelow (List.getElem?_eq_getElem hlt)
    rw [List.drop_eq_getElem_cons hlt]
    by_cases hle : issued[count].sequence ≤ bound
    · obtain ⟨count', hdrop, hcount'⟩ := ih (count + 1) (by omega)
      rw [List.dropWhile_cons_of_pos (by simpa using hle)]
      exact ⟨count', hdrop, by omega⟩
    · rw [List.dropWhile_cons_of_neg (by simpa using hle)]
      exact ⟨count, (List.drop_eq_getElem_cons hlt).symm, by omega⟩

theorem keepLast_issued (issued : List (MoveInput A)) (input : MoveInput A) {count limit : Nat} :
    ∃ count', ClientView.keepLast limit (issued.drop count ++ [input]) =
      (issued ++ [input]).drop count' ∧ count' ≤ max count (issued.length + 1 - limit) := by
  by_cases hcount : count ≤ issued.length
  · refine ⟨count + (issued.length - count + 1 - limit), ?_, by omega⟩
    unfold ClientView.keepLast
    rw [← List.drop_append_of_le_length hcount, List.drop_drop, List.length_drop, List.length_append,
      List.length_singleton]
    congr 2
    omega
  · refine ⟨issued.length + (1 - limit), ?_, by omega⟩
    unfold ClientView.keepLast
    rw [List.drop_of_length_le (Nat.le_of_not_le hcount), List.nil_append, List.length_singleton,
      ← List.drop_drop, List.drop_left]

theorem remembers_payload (physics : Physics S A) {x : Session R S A} (h : Lossless env axis base x)
    (hremembers : x.Remembers) {data : Bytes} (hlevel : x.Level physics base (.payload data)) :
    Remembers { x with game := x.game.handlePayload physics data } := by
  rcases x.game.handlePayload_cases physics data with hsame | ⟨snapshot, htaken, hinstalled⟩
  · rw [hsame]
    exact hremembers
  · obtain ⟨p, hp, hclient, hsequence, hwaiting⟩ := hlevel snapshot htaken
    obtain ⟨count, heq, hcount⟩ := hremembers
    rw [hinstalled]
    rcases x.game.view.install_inputHistory physics snapshot with hkept | htrimmed
    · exact ⟨count, hkept.trans heq, hcount⟩
    · rw [heq] at htrimmed
      obtain ⟨count', hdrop, hcount'⟩ := dropWhile_issued h.packed.numbered h.below count
        snapshot.lastInputSequence
      refine ⟨count', htrimmed.trans hdrop, fun slot hslot => ?_⟩
      have hold := hcount slot hslot
      have hpublished := h.published p hp hclient hwaiting slot hslot
      omega

theorem Lossless.mem_fresh {x : Session R S A} (h : Lossless env axis base x) {index : Nat}
    {input : MoveInput A} :
    input ∈ x.fresh index ↔
      ∃ j, x.issued[j]? = some input ∧ x.reached ≤ j ∧ j ≤ index ∧ index < j + kInputRedundancy := by
  rw [fresh, List.mem_filter, mem_window, decide_eq_true_eq]
  constructor
  · rintro ⟨⟨j, hj, hle, hlt⟩, hnew⟩
    rw [sequence_eq h.packed.numbered h.below hj] at hnew
    exact ⟨j, hj, Nat.le_of_lt_succ hnew, hle, hlt⟩
  · rintro ⟨j, hj, hnew, hle, hlt⟩
    refine ⟨⟨j, hj, hle, hlt⟩, ?_⟩
    rw [sequence_eq h.packed.numbered h.below hj]
    exact Nat.lt_succ_of_le hnew

/-- What a packet adds to the queue: the commands beyond the newest so far. -/
theorem Lossless.accepts {x : Session R S A} (h : Lossless env axis base x) (index : Nat)
    {slot : PlayerSlot A} (hslot : x.shard.server.world.players.lookup x.client = some slot) :
    slot.accepts env.sim.quantizeInput ((window x.issued index).map (carried env axis)) =
      (x.fresh index).map (queued env axis) := by
  have hsublist : (window x.issued index).Sublist x.issued :=
    (List.drop_sublist _ _).trans (List.take_sublist _ _)
  rw [fresh, ← h.highest slot hslot]
  refine PlayerSlot.accepts_increasing _ (carried env axis) (queued env axis) (fun _ => rfl)
    (fun _ => rfl) ((increasing_issued h.packed.numbered h.below).sublist hsublist) (fun input hinput => ?_) slot
  obtain ⟨j, hj, -⟩ := mem_window.mp hinput
  rw [sequence_eq h.packed.numbered h.below hj]
  exact Nat.succ_pos j

/-- The queue after a packet that came in order: everything in it has been appended. -/
theorem Lossless.extend {x : Session R S A} (h : Lossless env axis base x) {index : Nat}
    (hindex : index < x.issued.length) (horder : x.reached ≤ index) :
    (x.accepted ++ (x.fresh index).map (queued env axis)).Pairwise
      (fun a b => a.sequence < b.sequence) ∧
    (∀ input ∈ x.accepted ++ (x.fresh index).map (queued env axis), input.sequence ≤ index + 1) ∧
    (∃ input ∈ x.accepted ++ (x.fresh index).map (queued env axis),
      input.sequence = index + 1) ∧
    ∀ input ∈ window x.issued index,
      queued env axis input ∈ x.accepted ++ (x.fresh index).map (queued env axis) := by
  have hnumber := fun {j input} => @sequence_eq A x.issued h.packed.numbered h.below j input
  have hsublist : (x.fresh index).Sublist x.issued :=
    List.filter_sublist.trans ((List.drop_sublist _ _).trans (List.take_sublist _ _))
  have hfresh : ∀ input ∈ (x.fresh index).map (queued env axis),
      x.reached < input.sequence ∧ input.sequence ≤ index + 1 := by
    intro input hinput
    obtain ⟨command, hcommand, rfl⟩ := List.mem_map.mp hinput
    obtain ⟨j, hj, hnew, hle, -⟩ := h.mem_fresh.mp hcommand
    show x.reached < command.sequence ∧ command.sequence ≤ index + 1
    rw [hnumber hj]
    omega
  refine ⟨List.pairwise_append.mpr ⟨h.increasing, ?_, fun a ha b hb => ?_⟩, fun input hinput => ?_,
    ?_, fun input hinput => ?_⟩
  · rw [List.pairwise_map]
    exact (increasing_issued h.packed.numbered h.below).sublist hsublist
  · exact Nat.lt_of_le_of_lt (h.bounded a ha) (hfresh b hb).1
  · rcases List.mem_append.mp hinput with hold | hnew
    · exact Nat.le_trans (h.bounded input hold) (Nat.le_succ_of_le horder)
    · exact (hfresh input hnew).2
  · have hlast := List.getElem?_eq_getElem hindex
    refine ⟨_, List.mem_append_right _ (List.mem_map_of_mem (h.mem_fresh.mpr
      ⟨index, hlast, horder, Nat.le_refl _, ?_⟩)),
      (hnumber hlast : x.issued[index].sequence = index + 1)⟩
    exact Nat.lt_add_of_pos_right (by decide)
  · obtain ⟨j, hj, hle, hlt⟩ := mem_window.mp hinput
    by_cases hnew : x.reached ≤ j
    · exact List.mem_append_right _ (List.mem_map_of_mem (h.mem_fresh.mpr ⟨j, hj, hnew, hle, hlt⟩))
    -- what is not newer was in the newest packet before
    · obtain ⟨last, hlast, hreached⟩ := exists_reached (x := x) (by omega)
      refine List.mem_append_left _ (h.heard last hlast input (mem_window.mpr ⟨j, hj, ?_, ?_⟩))
      · omega
      · omega

theorem Lossless.newestOf_window {x : Session R S A} (h : Lossless env axis base x) {index : Nat}
    (hindex : index < x.issued.length) (horder : x.reached ≤ index) :
    PlayerSlot.newestOf ((window x.issued index).map (conveyed axis)) x.reached = index + 1 := by
  refine PlayerSlot.newestOf_eq (Nat.le_succ_of_le horder) (fun input hinput => ?_) (Or.inr ?_)
  · obtain ⟨command, hcommand, rfl⟩ := List.mem_map.mp hinput
    obtain ⟨j, hj, hle, -⟩ := mem_window.mp hcommand
    show command.sequence ≤ index + 1
    rw [sequence_eq h.packed.numbered h.below hj]
    omega
  · have hcommand := List.getElem?_eq_getElem hindex
    have hsequence := sequence_eq h.packed.numbered h.below hcommand
    refine ⟨_, List.mem_map_of_mem (mem_window.mpr ⟨index, hcommand, Nat.le_refl _, ?_⟩), hsequence⟩
    exact Nat.lt_add_of_pos_right (by decide)

/-- A command that has arrived, or is yet to arrive, is applied or still with the client. -/
theorem Lossless.kept {x : Session R S A} (h : Lossless env axis base x) (hremembers : x.Remembers)
    {slot : PlayerSlot A} (hslot : x.shard.server.world.players.lookup x.client = some slot) :
    ∃ applied, x.accepted = applied ++ slot.pending ∧
      ∀ index input, x.issued[index]? = some input →
        (x.reached ≤ index ∨ ∃ i ∈ x.arrived, input ∈ window x.issued i) →
        queued env axis input ∈ applied ∨ input ∈ x.game.view.inputHistory := by
  obtain ⟨count, hhistory, hcount⟩ := hremembers
  obtain ⟨applied, haccepted, hlast⟩ := h.queue slot hslot
  refine ⟨applied, haccepted, fun index input hinput hknown => ?_⟩
  have hremembered : slot.lastAppliedSequence ≤ index → input ∈ x.game.view.inputHistory := by
    intro hlater
    have hsum : count + (index - count) = index :=
      Nat.add_sub_cancel' (Nat.le_trans (hcount slot hslot) hlater)
    refine List.mem_iff_getElem?.mpr ⟨index - count, ?_⟩
    rw [hhistory, List.getElem?_drop, hsum, hinput]
  rcases hknown with hahead | ⟨i, hi, hwindow⟩
  · refine Or.inr (hremembered (Nat.le_trans ?_ hahead))
    rw [hlast]
    exact PlayerSlot.lastOf_le fun other hother =>
      h.bounded other (haccepted ▸ List.mem_append_left _ hother)
  · have hmem := h.heard i hi input hwindow
    rw [haccepted] at hmem
    rcases List.mem_append.mp hmem with hdone | hwaits
    · exact Or.inl hdone
    -- what is waiting comes after everything applied
    · refine Or.inr (hremembered ?_)
      have hincreasing := h.increasing
      rw [haccepted] at hincreasing
      rw [hlast]
      refine PlayerSlot.lastOf_le fun other hother => Nat.le_of_lt_succ ?_
      have hbefore := (List.pairwise_append.mp hincreasing).2.2 other hother _ hwaits
      have hsequence := sequence_eq h.packed.numbered h.below hinput
      exact Nat.lt_of_lt_of_eq hbefore hsequence

variable (env axis) in
theorem lossless_start (physics : Physics S A) {shard : Shard R A} (hbooked : shard.Booked) {client : Nat}
    {slot : PlayerSlot A} (hslot : shard.server.world.players.lookup client = some slot)
    (hhighest : slot.highestReceivedSequence = 0) (happlied : slot.lastAppliedSequence = 0)
    (hpending : slot.pending = []) (config : ClientViewConfig) :
    Lossless env axis shard.server.trace.length (start physics shard client config) ∧
    (start physics shard client config).Remembers := by
  have hsame : ∀ other, shard.server.world.players.lookup client = some other → other = slot :=
    fun other hother => Option.some.inj (hother.symm.trans hslot)
  refine ⟨⟨packed_start axis physics shard client config, hbooked, hbooked.seated.client_lt hslot,
    Nat.zero_le _, Nat.zero_le _, fun index hindex => ?_, List.Pairwise.nil, fun input hinput => ?_,
    rfl, fun other hother => ?_, fun other hother => ?_, Nat.le_refl _, fun p hp => ?_⟩, ?_⟩
  · cases hindex
  · cases hinput
  · exact hsame other hother ▸ hhighest
  · cases hsame other hother
    exact ⟨[], hpending.symm, happlied⟩
  · change Trace.published p ∈ shard.server.trace.drop shard.server.trace.length at hp
    rw [List.drop_length] at hp
    cases hp
  · exact ⟨0, rfl, fun other hother => Nat.zero_le _⟩

section
variable [Add R] [Mul R] [Neg R] [DecidableLT R] [OfScientific R] (physics : Physics S A)

theorem lossless_send {x : Session R S A} (h : Lossless env axis base x) (hremembers : x.Remembers)
    {axes : A} {sprint : Bool} (hfree : x.Unhindered (.send axes sprint)) :
    Lossless env axis base (x.step env physics axis (.send axes sprint)) ∧
    (x.step env physics axis (.send axes sprint)).Remembers := by
  have hpacked := packed_step env physics axis h.packed (.send axes sprint)
  rcases x.game.sendInput_cases physics axes sprint with
    hsame | ⟨-, -, input, view, clientTick, hpush, hsend⟩
  · simp only [step, hsame] at hpacked ⊢
    exact ⟨h.setGame hpacked, hremembers⟩
  · obtain ⟨hroom, hhistory⟩ := hfree
    simp only [step, hsend] at hpacked ⊢
    refine ⟨⟨hpacked, h.booked, h.client, ?_, ?_, fun index hindex other hother => ?_, h.increasing,
      h.bounded, h.newest, h.highest, h.queue, h.since, h.published⟩, ?_⟩
    · show x.reached ≤ _
      rw [List.length_append]
      exact Nat.le_add_right_of_le h.within
    · rw [List.length_append]
      exact hroom
    · have hlt : index < x.issued.length := Nat.lt_of_lt_of_le (le_reached hindex) h.within
      rw [window_append hlt] at hother
      exact h.heard index hindex other hother
    · obtain ⟨count, heq, hcount⟩ := hremembers
      have hview : view.inputHistory =
          ClientView.keepLast x.game.view.config.inputHistory (x.game.view.inputHistory ++ [input]) := by
        cases hpush
        rfl
      obtain ⟨count', hkept, hcount'⟩ := keepLast_issued x.issued input
      rw [heq] at hview
      refine ⟨count', hview.trans hkept, fun slot hslot => ?_⟩
      have hslot : x.shard.server.world.players.lookup x.client = some slot := hslot
      rw [hslot, Option.all_some, decide_eq_true_eq] at hhistory
      have hold := hcount slot hslot
      omega

theorem lossless_arrive {x : Session R S A} (h : Lossless env axis base x)
    (hremembers : x.Remembers) {index : Nat} (horder : x.InOrder (.arrive index))
    (hfree : x.Unhindered (.arrive index)) :
    Lossless env axis base (x.step env physics axis (.arrive index)) ∧
    (x.step env physics axis (.arrive index)).Remembers := by
  have hpacked := packed_step env physics axis h.packed (.arrive index)
  rcases arrive_cases env physics axis h.packed h.booked index with
    hsame | ⟨hindex, packet, player, slot, hinputs, htask, hclient, hplayer, hslot, hstep⟩
  · rw [hsame]
    exact ⟨h, hremembers⟩
  · obtain ⟨hstays, hroom⟩ := hfree
    rw [hplayer, Option.all_some, Bool.not_eq_true'] at hstays
    rw [hslot, Option.all_some, decide_eq_true_eq] at hroom
    have hnext : x.reached ≤ index := horder
    have hcarried : (packet.inputs.map fun input =>
        { input with axes := env.sim.quantizeInput input.axes }) =
        (window x.issued index).map (carried env axis) := by
      rw [hinputs, List.map_map]
      rfl
    have haccepts := h.accepts index hslot
    rw [← hcarried] at haccepts
    obtain ⟨hslot', htrace⟩ := x.shard.step_payload env htask hclient hplayer hstays hslot packet
    have hbooked := Shard.booked_step env h.booked (.payload x.client (some packet))
    have hadded : x.shard.server.accepted env x.client (some packet) =
        (x.fresh index).map (queued env axis) := by
      simp only [WorldServer.accepted, hplayer, hslot, hstays, Bool.false_eq_true, if_false]
      exact haccepts
    obtain ⟨hpending, happlied⟩ := PlayerSlot.foldl_receive_pending env.sim.quantizeInput _
      (show _ + _ ≤ kMaxQueuedInputs by
        rw [haccepts, List.length_map]
        exact hroom)
    rw [haccepts] at hpending
    obtain ⟨hincreasing, hbounded, hlast, hheard⟩ := h.extend hindex hnext
    have hreached : (x.step env physics axis (.arrive index)).reached = index + 1 :=
      (reached_append (congrArg arrived hstep)).trans (Nat.max_eq_right (Nat.le_succ_of_le hnext))
    rw [hstep, hadded] at hpacked hreached ⊢
    refine ⟨⟨hpacked, hbooked, hbooked.seated.client_lt hslot', ?_, h.below,
      fun i hi input hinput => ?_, hincreasing, ?_, ?_, fun slot' hlookup => ?_,
      fun slot' hlookup => ?_, ?_, fun p hp hclient hwaiting slot' hlookup => ?_⟩, ?_⟩
    · rw [hreached]
      exact hindex
    · rcases List.mem_append.mp hi with hold | hnew
      · exact List.mem_append_left _ (h.heard i hold input hinput)
      · cases List.mem_singleton.mp hnew
        exact hheard input hinput
    · rw [hreached]
      exact hbounded
    · rw [hreached]
      exact PlayerSlot.lastOf_eq hincreasing hbounded hlast
    · cases hslot'.symm.trans hlookup
      rw [hreached, PlayerSlot.foldl_receive_highest, PlayerSlot.newestOf_quantized,
        h.highest slot hslot, hinputs]
      exact h.newestOf_window hindex hnext
    · cases hslot'.symm.trans hlookup
      obtain ⟨applied, haccepted, hlastApplied⟩ := h.queue slot hslot
      refine ⟨applied, ?_, happlied.trans hlastApplied⟩
      rw [hpending, ← List.append_assoc, ← haccepted]
    · dsimp only
      rw [htrace]
      exact h.since
    · cases hslot'.symm.trans hlookup
      dsimp only at hp
      rw [htrace] at hp
      rw [happlied]
      exact h.published p hp hclient hwaiting slot hslot
    · obtain ⟨count, hhistory, hcount⟩ := hremembers
      refine ⟨count, hhistory, fun slot' hlookup => ?_⟩
      cases hslot'.symm.trans hlookup
      rw [happlied]
      exact hcount slot hslot

theorem lossless_step {x : Session R S A} (h : Lossless env axis base x ∧ x.Remembers)
    {action : SessionAction A} (horder : x.InOrder action) (hlevel : x.Level physics base action)
    (hfree : x.Unhindered action) :
    Lossless env axis base (x.step env physics axis action) ∧
    (x.step env physics axis action).Remembers := by
  obtain ⟨h, hremembers⟩ := h
  have hpacked := packed_step env physics axis h.packed action
  cases action with
  | send axes sprint => exact lossless_send physics h hremembers hfree
  | arrive index => exact lossless_arrive physics h hremembers horder hfree
  | shard action =>
    have hfollows := Shard.follows_step env h.booked.tidy h.client horder.other
    exact ⟨h.setShard (Shard.booked_step env h.booked action) hfollows,
      hremembers.setShard h hfollows⟩
  | payload data => exact ⟨h.setGame hpacked, remembers_payload physics h hremembers hlevel⟩
  | worldConfig entity => exact ⟨h.setGame hpacked, hremembers⟩
  | link connected => exact ⟨h.setGame hpacked, hremembers⟩

variable (env axis)

/-- A player resumed from a ghost can play if the ghost's sequence is zero, as long as no
limit is met and snapshots are published with nothing waiting: of the packets that arrive in
order every command has been appended, and each command that has arrived or is yet to arrive
is applied or still kept by the client. -/
theorem resumed_plays {s : Shard R A} (hs : s.Reachable env) {credential : ConnectCredential}
    {now : Nat} {ghost : GhostState} (hghost : s.server.ghostFor credential now = some ghost)
    (hzero : ghost.lastInputSequence = 0) {joining : ShardAction A} {region admittedMs : Nat}
    (hjoin : s.step env joining =
      Shard.ofProgress (s.server.finishAdmit env credential none region admittedMs now))
    (config : ClientViewConfig) {actions : List (SessionAction A)}
    (horder : Run.Along (step env physics axis) InOrder
      (start physics (s.step env joining) s.server.nextClient config) actions)
    (hlevel : Run.Along (step env physics axis)
      (Level physics (s.step env joining).server.trace.length)
      (start physics (s.step env joining) s.server.nextClient config) actions)
    (hfree : Run.Along (step env physics axis) Unhindered
      (start physics (s.step env joining) s.server.nextClient config) actions) :
    let x := Run.run (step env physics axis)
      (start physics (s.step env joining) s.server.nextClient config) actions
    (∀ index ∈ x.arrived, ∀ input ∈ window x.issued index,
      queued env axis input ∈ x.accepted) ∧
    ∀ slot, x.shard.server.world.players.lookup x.client = some slot →
      ∃ applied, x.accepted = applied ++ slot.pending ∧
        ∀ index input, x.issued[index]? = some input →
          (x.reached ≤ index ∨ ∃ i ∈ x.arrived, input ∈ window x.issued i) →
          queued env axis input ∈ applied ∨ input ∈ x.game.view.inputHistory := by
  have hbooked := hs.booked env
  have hjoined := Shard.booked_step env hbooked joining
  obtain ⟨slot, hslot, hhighest, happlied, hpending⟩ :=
    WorldServer.slot_resumed env hbooked.tidy.pending hghost region admittedMs
  rw [hzero] at hhighest happlied
  have hstart : (s.step env joining).server.world.players.lookup s.server.nextClient = some slot := by
    rw [hjoin]
    exact hslot
  have h := Run.invariant
    (fun x => Lossless env axis (s.step env joining).server.trace.length x ∧ x.Remembers)
    (fun x action hok h => lossless_step physics h hok.1.1 hok.1.2 hok.2)
    (lossless_start env axis physics hjoined hstart hhighest happlied hpending config)
    (Run.along_and (Run.along_and horder hlevel) hfree)
  generalize Run.run (step env physics axis)
    (start physics (s.step env joining) s.server.nextClient config) actions = x at h
  exact ⟨h.1.heard, fun slot hslot => h.1.kept h.2 hslot⟩

end

end

/-- Shard "a" after player "p" was there: it issued the commands and lost its connection. -/
def abandoned (inputs : List (MoveInput Unit)) : Shard ℚ Unit :=
  Run.run (Shard.step .still)
    (Shard.start
      { shardId := [97], interest := { distancePriorityFalloff := 1 }, advertise := false }
      { config := { id := [97] } } [])
    [.connect (some { token := 5, playerId := [112] }) 0, .payload 1 (some { inputs }),
      .tick 0 [1] [1], .disconnect 1 0]

/-- Player "p" comes back to shard "a". -/
def comeback : ShardAction Unit := .connect (some { token := 5, playerId := [112] }) 0

/-- Two commands arrive, the first of them once more, and one is applied. -/
def replayed : List (SessionAction Unit) :=
  [.worldConfig 2, .link true, .send () false, .arrive 0, .send () false,
    .shard (.tick 0 [2] [2]), .arrive 1]

instance decidableInOrder (x : Session R S A) (action : SessionAction A) :
    Decidable (x.InOrder action) :=
  match action with
  | .arrive _ => inferInstanceAs (Decidable (_ ≤ _))
  | .shard (.payload _ _) => inferInstanceAs (Decidable (_ ≠ _))
  | .shard (.connect _ _) | .shard (.disconnect _ _) | .shard (.tick _ _ _)
  | .shard (.refresh _ _) | .shard (.membership _) | .shard (.resume _ _)
  | .send _ _ | .payload _ | .worldConfig _ | .link _ => isTrue trivial

instance decidableUnhindered (x : Session R S A) (action : SessionAction A) :
    Decidable (x.Unhindered action) :=
  match action with
  | .send _ _ | .arrive _ => inferInstanceAs (Decidable (_ ∧ _))
  | .shard _ | .payload _ | .worldConfig _ | .link _ => isTrue trivial

theorem resumed_plays_idle :
    let x := Run.run (step .still .still .centered)
      (start .still ((abandoned []).step .still comeback) 2 {}) replayed
    ((abandoned []).server.ghostFor { token := 5, playerId := [112] } 0).map
      GhostState.lastInputSequence = some 0 ∧
    ∀ index ∈ x.arrived, ∀ input ∈ window x.issued index,
      queued .still .centered input ∈ x.accepted := by
  have hghost : ((abandoned []).server.ghostFor { token := 5, playerId := [112] } 0).map
      GhostState.lastInputSequence = some 0 := by decide +kernel
  refine ⟨hghost, ?_⟩
  obtain ⟨ghost, hfound, hzero⟩ := Option.map_eq_some_iff.mp hghost
  have hjoin : (abandoned []).step .still comeback = Shard.ofProgress
      ((abandoned []).server.finishAdmit .still { token := 5, playerId := [112] } none 0 0 0) := by
    rfl
  refine (resumed_plays .still .centered .still ⟨_, _, _, _, rfl⟩ hfound hzero hjoin {} ?_ ?_ ?_).1
  · decide +kernel
  · simp [Run.Along, Level, replayed]
  · decide +kernel

/-- The ghost of a player with one applied command: the first command of the next session
arrives, with nothing else in its way, and is dropped as stale. -/
theorem resumed_first_dropped :
    let ghost := (abandoned [{ sequence := 1, axes := () }]).server.ghostFor
      { token := 5, playerId := [112] } 0
    let actions : List (SessionAction Unit) :=
      [.worldConfig 2, .link true, .send () false, .arrive 0]
    let begin := start Physics.still
      ((abandoned [{ sequence := 1, axes := () }]).step .still comeback) 2 {}
    let x := Run.run (step .still .still .centered) begin actions
    (abandoned [{ sequence := 1, axes := () }]).Reachable .still ∧ ghost.map GhostState.lastInputSequence = some 1 ∧
    begin.shard.server.trace.getLast? =
      some (.joined 2 { token := 5, playerId := [112] } none) ∧
    Run.Along (step .still .still .centered) InOrder begin actions ∧
    Run.Along (step .still .still .centered) Unhindered begin actions ∧
    x.arrived = [0] ∧ x.issued.map MoveInput.sequence = [1] ∧ x.accepted = [] ∧
    (x.shard.server.world.players.lookup 2).map PlayerSlot.droppedStaleInputs = some 1 := by
  refine ⟨⟨_, _, _, _, rfl⟩, ?_⟩
  decide +kernel

end Session
end Morton.App
