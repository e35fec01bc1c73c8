import Mathlib.Order.Monotone.Defs
import Morton.Sim.Prediction

/-! Which snapshot the authoritative state comes from. A view judges a snapshot by the command
it acknowledges; snapshots that acknowledge the same command are told apart by their ticks only,
and those `reconcile` does not look at. -/
namespace Morton.Sim
open Proto

/-- One session of one shard: how far the player's commands were applied at each tick. -/
structure Session where
  applied : Nat → Nat
  mono : Monotone applied

/-- A snapshot of the session says what was applied at its tick. -/
def Session.Sent (session : Session) (snapshot : DecodedSnapshot) : Prop :=
  snapshot.lastInputSequence = session.applied snapshot.tick

/-- A view and the snapshots of the session that it reconciled with, newest delivery first. -/
structure Follower (S A : Type) where
  view : ClientView S A
  reconciled : List DecodedSnapshot := []

inductive SessionCall (A : Type)
  | pushInput (axes : A) (sprint : Bool) (clientTick : Nat)
  | applySnapshot (data : Nat → UInt8) (size : Nat)
  /-- `advance` writes the render clock, the correction offset and the render list only. -/
  | advance

namespace Follower
variable {S A : Type} (physics : Physics S A)

def step (f : Follower S A) : SessionCall A → Follower S A
  | .pushInput axes sprint clientTick =>
    { f with view := (f.view.pushInput physics axes sprint clientTick).2 }
  | .applySnapshot data size =>
    match f.view.applySnapshot physics data size with
    | (view, none) => { f with view }
    | (view, some snapshot) =>
      { view
        reconciled := if (f.view.record snapshot).reconciles snapshot
          then snapshot :: f.reconciled else f.reconciled }
  | .advance => f

/-- The snapshot a call delivers, if it is one the view can decode. -/
def delivers (f : Follower S A) : SessionCall A → Option DecodedSnapshot
  | .applySnapshot data size => (f.view.applySnapshot physics data size).2
  | _ => none

/-- The snapshot names the entity that is local once it has been recorded. -/
def namesLocal (f : Follower S A) (snapshot : DecodedSnapshot) : Prop :=
  ∃ state ∈ snapshot.states, state.id =
    if snapshot.viewer ≠ kInvalidEntity then snapshot.viewer else f.view.localEntity

/-- A snapshot that acknowledges nothing new, and is older than one already reconciled. -/
def Overtaken (f : Follower S A) (snapshot : DecodedSnapshot) : Prop :=
  f.namesLocal snapshot ∧ snapshot.lastInputSequence = f.view.lastAcknowledgedInput ∧
    ∃ other ∈ f.reconciled, snapshot.tick < other.tick

/-- The authoritative state comes from the highest tick reconciled so far. -/
def FromHighest (f : Follower S A) : Prop :=
  ∀ newest ∈ f.reconciled.head?,
    (∃ mine ∈ newest.states, f.view.authoritative = physics.decode mine) ∧
      ∀ other ∈ f.reconciled, other.tick ≤ newest.tick

/-- What holds in every state of a session. -/
structure Inv (session : Session) (f : Follower S A) : Prop where
  sent : ∀ snapshot ∈ f.reconciled, session.Sent snapshot
  bounded : ∀ snapshot ∈ f.reconciled, snapshot.lastInputSequence ≤ f.view.lastAcknowledgedInput
  source : ∀ newest ∈ f.reconciled.head?,
    ∃ mine ∈ newest.states, f.view.authoritative = physics.decode mine

variable {physics}

theorem reconciles_iff (f : Follower S A) (snapshot : DecodedSnapshot) :
    (f.view.record snapshot).reconciles snapshot = true ↔
      f.namesLocal snapshot ∧ f.view.lastAcknowledgedInput ≤ snapshot.lastInputSequence := by
  simp [ClientView.reconciles, ClientView.record, namesLocal]

/-- A call leaves the authoritative state alone, or delivers a snapshot that replaces it. -/
theorem step_cases (physics : Physics S A) (f : Follower S A) (call : SessionCall A) :
    ((f.step physics call).reconciled = f.reconciled ∧
      (f.step physics call).view.authoritative = f.view.authoritative ∧
      (f.step physics call).view.lastAcknowledgedInput = f.view.lastAcknowledgedInput ∧
      ∀ snapshot, f.delivers physics call = some snapshot →
        ¬ (f.namesLocal snapshot ∧ f.view.lastAcknowledgedInput ≤ snapshot.lastInputSequence)) ∨
    ∃ snapshot, f.delivers physics call = some snapshot ∧ f.namesLocal snapshot ∧
      f.view.lastAcknowledgedInput ≤ snapshot.lastInputSequence ∧
      (f.step physics call).reconciled = snapshot :: f.reconciled ∧
      (f.step physics call).view.lastAcknowledgedInput = snapshot.lastInputSequence ∧
      ∃ mine ∈ snapshot.states, (f.step physics call).view.authoritative = physics.decode mine := by
  cases call with
  | pushInput axes sprint clientTick => exact Or.inl ⟨rfl, rfl, rfl, fun _ h => by cases h⟩
  | advance => exact Or.inl ⟨rfl, rfl, rfl, fun _ h => by cases h⟩
  | applySnapshot data size =>
    simp only [step, delivers]
    obtain hfail | ⟨_, _, _, snapshot, -, -, -, happlied⟩ :=
      f.view.applySnapshot_cases physics data size
    · rw [hfail]
      exact Or.inl ⟨rfl, rfl, rfl, fun _ h => by cases h⟩
    · rw [happlied, ClientView.install_eq]
      have hnames := f.reconciles_iff snapshot
      cases hreconciles : (f.view.record snapshot).reconciles snapshot with
      | false =>
        obtain ⟨-, hsame⟩ | ⟨htrue, -⟩ :=
          ClientView.reconcile_cases physics (f.view.record snapshot) snapshot
        · rw [hsame]
          refine Or.inl ⟨if_neg (by simp [hreconciles]), rfl, rfl, fun other hother => ?_⟩
          obtain rfl := Option.some.inj hother
          rw [← hnames, hreconciles]
          decide
        · rw [hreconciles] at htrue
          cases htrue
      | true =>
        obtain ⟨hlocal, hack⟩ := hnames.mp hreconciles
        refine Or.inr ⟨snapshot, rfl, hlocal, hack, if_pos hreconciles, ?_⟩
        obtain ⟨state, hstate, hid⟩ := hlocal
        unfold ClientView.reconcile
        have hfound : (snapshot.states.find? fun state =>
            state.id == (f.view.record snapshot).localEntity).isSome = true := by
          rw [List.find?_isSome]
          exact ⟨state, hstate, by simpa [ClientView.record] using hid⟩
        obtain ⟨mine, hmine⟩ := Option.isSome_iff_exists.mp hfound
        have hfresh : ¬ snapshot.lastInputSequence <
            (f.view.record snapshot).lastAcknowledgedInput := by
          simpa [ClientView.record] using hack
        simp only [hmine, if_neg hfresh]
        exact ⟨trivial, mine, List.mem_of_find?_eq_some hmine, rfl⟩

variable {session : Session}

/-- The calls of a session: what they deliver was sent in it. -/
def InSession (physics : Physics S A) (session : Session) (f : Follower S A)
    (call : SessionCall A) : Prop :=
  ∀ snapshot, f.delivers physics call = some snapshot → session.Sent snapshot

theorem Inv.step {f : Follower S A} (h : f.Inv physics session) {call : SessionCall A}
    (hcall : f.InSession physics session call) : (f.step physics call).Inv physics session := by
  obtain ⟨hreconciled, hauthoritative, hack, -⟩ |
    ⟨snapshot, hdelivers, -, hle, hreconciled, hack, hsource⟩ := step_cases physics f call
  · exact
      { sent := hreconciled ▸ h.sent
        bounded := by rw [hreconciled, hack]; exact h.bounded
        source := by rw [hreconciled, hauthoritative]; exact h.source }
  · constructor
    · rw [hreconciled]
      exact List.forall_mem_cons.mpr ⟨hcall snapshot hdelivers, h.sent⟩
    · rw [hreconciled, hack]
      exact List.forall_mem_cons.mpr ⟨le_rfl, fun other hother => (h.bounded other hother).trans hle⟩
    · rw [hreconciled]
      intro newest hnewest
      obtain rfl := Option.some.inj hnewest
      exact hsource

/-- A delivery keeps the authoritative state at the highest tick exactly when it is not overtaken. -/
theorem fromHighest_step_iff {f : Follower S A} (h : f.Inv physics session)
    (hnow : f.FromHighest physics) {call : SessionCall A}
    (hcall : f.InSession physics session call) :
    (∀ snapshot, f.delivers physics call = some snapshot → ¬ f.Overtaken snapshot) ↔
      (f.step physics call).FromHighest physics := by
  have hnext := h.step hcall
  obtain ⟨hreconciled, hauthoritative, -, hnot⟩ |
    ⟨snapshot, hdelivers, hnames, hle, hreconciled, -, hsource⟩ :=
    step_cases physics f call
  · constructor
    · intro _ newest hnewest
      rw [hreconciled] at hnewest ⊢
      rw [hauthoritative]
      exact hnow newest hnewest
    · rintro - snapshot hsnapshot ⟨hnames, hack, -⟩
      exact hnot snapshot hsnapshot ⟨hnames, hack.ge⟩
  · constructor
    · intro hclean newest hnewest
      rw [hreconciled] at hnewest ⊢
      obtain rfl := Option.some.inj hnewest
      refine ⟨hsource, List.forall_mem_cons.mpr ⟨le_rfl, fun other hother => ?_⟩⟩
      by_contra hnewer
      have hlater : snapshot.tick < other.tick := Nat.not_le.mp hnewer
      -- the older snapshot acknowledges no more than the one that overtook it
      have hsent : snapshot.lastInputSequence = session.applied snapshot.tick :=
        hcall snapshot hdelivers
      have hother' : other.lastInputSequence = session.applied other.tick := h.sent other hother
      have hmono := session.mono hlater.le
      have hbound := h.bounded other hother
      exact hclean snapshot hdelivers ⟨hnames, by omega, other, hother, hlater⟩
    · intro hhighest other hother hovertaken
      obtain rfl := Option.some.inj (hdelivers.symm.trans hother)
      obtain ⟨-, -, earlier, hearlier, hlater⟩ := hovertaken
      have hmax := (hhighest snapshot (by rw [hreconciled]; rfl)).2 earlier
        (by rw [hreconciled]; exact List.mem_cons_of_mem _ hearlier)
      omega

/-- Over any session, from any view: the authoritative state always comes from the highest tick
reconciled so far exactly when no snapshot is delivered that was overtaken. -/
theorem reconcile_never_goes_back_iff (physics : Physics S A) (session : Session)
    (view : ClientView S A) (calls : List (SessionCall A))
    (hsession : Run.Along (step physics) (InSession physics session) { view } calls) :
    Run.Along (step physics) (fun f call => (f.step physics call).FromHighest physics)
        { view } calls ↔
      Run.Along (step physics) (fun f call =>
        ∀ snapshot, f.delivers physics call = some snapshot → ¬ f.Overtaken snapshot)
        { view } calls := by
  apply Run.along_exact_given (Inv physics session) (FromHighest physics) _ _ _ _ hsession
  · exact fun f call hcall h => h.step hcall
  · exact fun f call hcall h hnow => fromHighest_step_iff h hnow hcall
  · exact
      { sent := fun _ h => by cases h
        bounded := fun _ h => by cases h
        source := fun _ h => by cases h }
  · exact fun _ h => by cases h

/-- A simulation whose states are the wire states themselves. -/
def mirrored : Physics EntityWireState Unit :=
  { stepMovement := fun s _ => s, quantizeInput := id, decode := id, initial := {}, centered := () }

/-- A full snapshot for viewer 1, whose entity stands at `px`; no command has been applied. -/
def idleSnapshot (tick px : Nat) : List UInt8 :=
  (writeRecords ((writeSnapshotHeader (BitWriter.new (fun _ => 0) 100) tick none 0 1 []).writeU16 1) 0
    [({ id := 1, px }, none)]).bytes

/-- Delivers an idle snapshot. -/
def deliver (tick px : Nat) : SessionCall Unit :=
  .applySnapshot (BitReader.view (idleSnapshot tick px)) (idleSnapshot tick px).length

/-- Nothing was ever applied. -/
def idleSession : Session := { applied := fun _ => 0, mono := fun _ _ _ => le_rfl }

/-- The snapshot an idle packet is decoded to. -/
def idleDecoded (tick px : Nat) : DecodedSnapshot :=
  { tick, baselineTick := 0, full := true, lastInputSequence := 0, viewer := 1
    states := [{ id := 1, px }], removed := [] }

def connected : Follower EntityWireState Unit := { view := ClientView.configure mirrored {} }

theorem inSession_of_delivers {f : Follower EntityWireState Unit} {call : SessionCall Unit}
    {tick px : Nat} (h : f.delivers mirrored call = some (idleDecoded tick px)) :
    f.InSession mirrored idleSession call := by
  intro snapshot hsnapshot
  obtain rfl := Option.some.inj (h.symm.trans hsnapshot)
  rfl

/-- Snapshots that arrive as they were sent. -/
theorem reconcile_never_goes_back_iff_in_order :
    Run.Along (step mirrored) (fun f call => (f.step mirrored call).FromHighest mirrored)
      connected [deliver 4 100, deliver 5 200] := by
  have hfirst : connected.delivers mirrored (deliver 4 100) = some (idleDecoded 4 100) := by
    decide +kernel
  have hsecond : (connected.step mirrored (deliver 4 100)).delivers mirrored (deliver 5 200) =
      some (idleDecoded 5 200) := by decide +kernel
  have hreconciled : (connected.step mirrored (deliver 4 100)).reconciled = [idleDecoded 4 100] := by
    decide +kernel
  apply (reconcile_never_goes_back_iff mirrored idleSession (ClientView.configure mirrored {})
    [deliver 4 100, deliver 5 200] ⟨inSession_of_delivers hfirst, inSession_of_delivers hsecond, trivial⟩).mpr
  refine ⟨?_, ?_, trivial⟩
  · rintro snapshot - ⟨-, -, other, hother, -⟩
    cases hother
  · rintro snapshot hsnapshot ⟨-, -, other, hother, hlater⟩
    obtain rfl := Option.some.inj (hsecond.symm.trans hsnapshot)
    have hother : other ∈ (connected.step mirrored (deliver 4 100)).reconciled := hother
    rw [hreconciled, List.mem_singleton] at hother
    subst hother
    exact absurd hlater (by decide)

/-- Two snapshots of an idle player swapped on the way: the view goes back to the older one. -/
theorem reordered_goes_back :
    Run.Along (step mirrored) (InSession mirrored idleSession) connected
      [deliver 5 200, deliver 4 100] ∧
    (Run.run (step mirrored) connected [deliver 5 200, deliver 4 100]).view.authoritative =
      { id := 1, px := 100 } ∧
    ¬ (Run.run (step mirrored) connected [deliver 5 200, deliver 4 100]).FromHighest mirrored := by
  have hfirst : connected.delivers mirrored (deliver 5 200) = some (idleDecoded 5 200) := by
    decide +kernel
  have hsecond : (connected.step mirrored (deliver 5 200)).delivers mirrored (deliver 4 100) =
      some (idleDecoded 4 100) := by decide +kernel
  have hreconciled : (Run.run (step mirrored) connected
      [deliver 5 200, deliver 4 100]).reconciled = [idleDecoded 4 100, idleDecoded 5 200] := by
    decide +kernel
  refine ⟨⟨inSession_of_delivers hfirst, inSession_of_delivers hsecond, trivial⟩,
    by decide +kernel, fun hhighest => ?_⟩
  have hmax := (hhighest (idleDecoded 4 100) (by rw [hreconciled]; rfl)).2 (idleDecoded 5 200)
    (by rw [hreconciled]; simp)
  exact absurd hmax (by decide)

end Follower
end Morton.Sim
