import Morton.Proto.Messages
import Morton.Sim.ClientView

/-! The client above its connection: numbering and sending commands, snapshots, and the
move to another shard. Matchmaking, rendering and statistics are left out. -/
namespace Morton.App
open Proto Sim

/-- `Channel::kSnapshot` -/
def kSnapshotChannel : Nat := 2

structure GameClient (S A : Type) where
  view : ClientView S A
  /-- `connection_.connected()` -/
  connected : Bool := false
  localEntity : Nat := kInvalidEntity
  pendingRedirect : Option MigrateRedirectEvent := none
  inputWindow : List (MoveInput A) := []
  clientTick : Nat := 0

namespace GameClient
variable {S A : Type} (physics : Physics S A)

/-- A client after `start`. -/
def start (config : ClientViewConfig) : GameClient S A :=
  { view := ClientView.configure physics config }

/-- `start` on a client that has played before. -/
def restart (g : GameClient S A) (config : ClientViewConfig) : GameClient S A :=
  { g with
    connected := false
    view := { ClientView.configure physics config with localEntity := g.view.localEntity } }

/-- `push_back`, then `erase` of the oldest when there are too many. -/
def slide (window : List (MoveInput A)) (input : MoveInput A) : List (MoveInput A) :=
  let window := window ++ [input]
  if kInputRedundancy < window.length then window.tail else window

/-- The packet is what `send_input` encodes, if it gets that far. -/
def sendInput (g : GameClient S A) (axes : A) (sprint : Bool) :
    GameClient S A × Option (MoveInput A × InputPacket A) :=
  if g.connected = false ∨ g.localEntity = kInvalidEntity then (g, none)
  else
    let clientTick := (g.clientTick + 1) % 2 ^ 32
    let (input, view) := g.view.pushInput physics axes sprint clientTick
    let inputWindow := slide g.inputWindow input
    ({ g with view, clientTick, inputWindow },
      some (input, { clientTick, ackedSnapshotTick := view.latestTick, inputs := inputWindow }))

def handlePayload (g : GameClient S A) (data : Bytes) : GameClient S A :=
  if data.length ≤ 1 ∨ (data.getD 0 0).toNat ≠ kSnapshotChannel then g
  else
    { g with
      view := (g.view.applySnapshot physics (BitReader.view (data.drop 1)) (data.length - 1)).1 }

/-- `handle_message` of a world config. -/
def handleWorldConfig (g : GameClient S A) (entity : Nat) : GameClient S A :=
  { g with localEntity := entity, view := { g.view with localEntity := entity } }

/-- `handle_message` of a redirect. -/
def handleRedirect (g : GameClient S A) (event : MigrateRedirectEvent) : GameClient S A :=
  { g with pendingRedirect := some event }

/-- `apply_redirect` once the endpoint and the credential are good; `state` is the predicted
position with the velocity that was drawn last. -/
def applyRedirect (g : GameClient S A) (state : S) : GameClient S A :=
  { g with
    pendingRedirect := none
    connected := false
    localEntity := kInvalidEntity
    view := g.view.adoptMigratedState kInvalidEntity state }

/-- A command is numbered and packed with the ones before it, or nothing happens. -/
theorem sendInput_cases (g : GameClient S A) (axes : A) (sprint : Bool) :
    g.sendInput physics axes sprint = (g, none) ∨
    g.connected = true ∧ g.localEntity ≠ kInvalidEntity ∧
      ∃ input view clientTick, g.view.pushInput physics axes sprint clientTick = (input, view) ∧
        g.sendInput physics axes sprint =
          ({ g with view, clientTick, inputWindow := slide g.inputWindow input },
            some (input, { clientTick, ackedSnapshotTick := view.latestTick,
                           inputs := slide g.inputWindow input })) := by
  unfold sendInput
  split
  · exact Or.inl rfl
  · rename_i hready
    rw [not_or] at hready
    exact Or.inr ⟨by simpa using hready.1, hready.2, _, _, _, rfl, rfl⟩

/-- The snapshot that `handle_payload` takes in. -/
def takesIn (g : GameClient S A) (data : Bytes) : Option DecodedSnapshot :=
  if data.length ≤ 1 ∨ (data.getD 0 0).toNat ≠ kSnapshotChannel then none
  else (g.view.applySnapshot physics (BitReader.view (data.drop 1)) (data.length - 1)).2

theorem handlePayload_none {g : GameClient S A} {data : Bytes}
    (h : g.takesIn physics data = none) : g.handlePayload physics data = g := by
  unfold takesIn at h
  unfold handlePayload
  split
  · rfl
  · rename_i hsnapshot
    rw [if_neg hsnapshot] at h
    rcases g.view.applySnapshot_cases physics (BitReader.view (data.drop 1)) (data.length - 1) with
      hsame | ⟨tick, baselineTick, full, snapshot, -, -, -, hinstalled⟩
    · rw [hsame]
    · rw [hinstalled] at h
      cases h

theorem handlePayload_some {g : GameClient S A} {data : Bytes} {snapshot : DecodedSnapshot}
    (h : g.takesIn physics data = some snapshot) :
    g.handlePayload physics data = { g with view := g.view.install physics snapshot } := by
  unfold takesIn at h
  unfold handlePayload
  split
  · rename_i hother
    rw [if_pos hother] at h
    cases h
  · rename_i hsnapshot
    rw [if_neg hsnapshot] at h
    rcases g.view.applySnapshot_cases physics (BitReader.view (data.drop 1)) (data.length - 1) with
      hsame | ⟨tick, baselineTick, full, decoded, -, -, -, hinstalled⟩
    · rw [hsame] at h
      cases h
    · rw [hinstalled] at h ⊢
      cases h
      rfl

theorem handlePayload_cases (g : GameClient S A) (data : Bytes) :
    g.handlePayload physics data = g ∨
    ∃ snapshot, g.takesIn physics data = some snapshot ∧
      g.handlePayload physics data = { g with view := g.view.install physics snapshot } := by
  cases htaken : g.takesIn physics data with
  | none => exact Or.inl (handlePayload_none physics htaken)
  | some snapshot => exact Or.inr ⟨snapshot, rfl, handlePayload_some physics htaken⟩

/-- What is taken in has the tick of the header behind the channel byte. -/
theorem takesIn_tick (g : GameClient S A) {channel : UInt8} {bytes : Bytes}
    {tick baselineTick : Nat} {full : Bool}
    (hpeek : peekSnapshotHeader (BitReader.view bytes) bytes.length =
      some (tick, baselineTick, full))
    {snapshot : DecodedSnapshot} (h : g.takesIn physics (channel :: bytes) = some snapshot) :
    snapshot.tick = tick := by
  unfold takesIn at h
  split at h
  · cases h
  · exact g.view.applySnapshot_tick physics hpeek h

/-- A payload changes neither the numbering nor the window. -/
theorem handlePayload_frame (g : GameClient S A) (data : Bytes) :
    (g.handlePayload physics data).view.nextInputSequence = g.view.nextInputSequence ∧
    (g.handlePayload physics data).inputWindow = g.inputWindow := by
  rcases g.handlePayload_cases physics data with hsame | ⟨snapshot, -, hinstalled⟩
  · rw [hsame]
    exact ⟨rfl, rfl⟩
  · rw [hinstalled]
    exact ⟨g.view.install_nextInputSequence physics snapshot, rfl⟩

theorem mem_slide {window : List (MoveInput A)} {input other : MoveInput A}
    (h : other ∈ slide window input) : other ∈ window ∨ other = input := by
  unfold slide at h
  have hmem : other ∈ window ++ [input] := by
    dsimp only at h
    split at h
    · exact List.mem_of_mem_tail h
    · exact h
  simpa using hmem

theorem length_slide {window : List (MoveInput A)} {input : MoveInput A}
    (h : window.length ≤ kInputRedundancy) : (slide window input).length ≤ kInputRedundancy := by
  unfold slide
  dsimp only
  split
  · simpa using h
  · rename_i hroom
    exact Nat.le_of_not_lt hroom

/-- The window holds the newest commands. -/
theorem slide_eq (issued : List (MoveInput A)) (input : MoveInput A) :
    slide (issued.drop (issued.length - kInputRedundancy)) input =
      (issued ++ [input]).drop ((issued ++ [input]).length - kInputRedundancy) := by
  unfold slide
  simp only [List.length_append, List.length_drop, List.length_singleton]
  split
  · rename_i hfull
    have hlength : kInputRedundancy ≤ issued.length := by
      have : kInputRedundancy = 6 := rfl
      omega
    rw [← List.drop_append_of_le_length (Nat.sub_le _ _), List.tail_drop]
    congr 1
    omega
  · rename_i hroom
    have hshort : issued.length - kInputRedundancy = issued.length + 1 - kInputRedundancy := by
      have : kInputRedundancy = 6 := rfl
      omega
    rw [← hshort, List.drop_append_of_le_length (Nat.sub_le _ _)]

end GameClient
end Morton.App
