import Morton.Base.Run
import Morton.Sim.ClientView

/-! Prediction as replay. The diary beside a view records which commands were pushed,
which fell out of the history, and which acknowledgements were reconciled; while no
unacknowledged command has fallen out, the predicted state is the replay of the history. -/
namespace Morton.Sim
open Proto Net

inductive ViewAction (S A : Type)
  | pushInput (axes : A) (sprint : Bool) (clientTick : Nat)
  | applySnapshot (data : Nat → UInt8) (size : Nat)
  /-- `advance` writes the render clock, the correction offset and the render list only. -/
  | advance
  | adoptMigratedState (entity : Nat) (state : S)

inductive DiaryEntry
  | pushed (sequence : Nat)
  | evicted (sequence : Nat)
  | reconciled (lastInputSequence : Nat)

/-- A view with its diary, newest entry first. -/
structure Diary (S A : Type) where
  view : ClientView S A
  entries : List DiaryEntry := []

namespace DiaryEntry

/-- A snapshot reconciled after the command was pushed named it or a later one. -/
def acknowledged (sequence : Nat) : List DiaryEntry → Bool
  | [] => false
  | pushed other :: rest => if other = sequence then false else acknowledged sequence rest
  | evicted _ :: rest => acknowledged sequence rest
  | reconciled last :: rest => decide (sequence ≤ last) || acknowledged sequence rest

/-- An unacknowledged command was evicted since the last reconcile. -/
def overrun : List DiaryEntry → Bool
  | [] => false
  | pushed _ :: rest => overrun rest
  | evicted sequence :: rest => !acknowledged sequence rest || overrun rest
  | reconciled _ :: _ => false

end DiaryEntry

namespace ClientView
variable {S A : Type} (physics : Physics S A)

/-- The part of `apply_snapshot` between decoding and `reconcile`. -/
def record (v : ClientView S A) (snapshot : DecodedSnapshot) : ClientView S A :=
  { v with
    baselines := v.baselines.store snapshot.tick snapshot.states
    localEntity := if snapshot.viewer ≠ kInvalidEntity then snapshot.viewer else v.localEntity
    frames := keepLast v.config.snapshotHistory
      (Keyed.upsert Prod.fst v.frames (snapshot.tick, snapshot.states))
    latestTick :=
      if !v.hasSnapshot || sequenceGreater32 snapshot.tick v.latestTick then snapshot.tick
      else v.latestTick
    hasSnapshot := true }

theorem install_eq (v : ClientView S A) (snapshot : DecodedSnapshot) :
    v.install physics snapshot = (v.record snapshot).reconcile physics snapshot := rfl

/-- `reconcile` gets past its two early returns. -/
def reconciles (v : ClientView S A) (snapshot : DecodedSnapshot) : Bool :=
  (snapshot.states.any fun state => state.id == v.localEntity) &&
    decide (v.lastAcknowledgedInput ≤ snapshot.lastInputSequence)

/-- What `push_input` drops from the front of the history. -/
def evictedBy (v : ClientView S A) (input : MoveInput A) : List (MoveInput A) :=
  (v.inputHistory ++ [input]).take ((v.inputHistory ++ [input]).length - v.config.inputHistory)

/-- The commands left after an acknowledgement. -/
def remaining (v : ClientView S A) (lastInputSequence : Nat) : List (MoveInput A) :=
  v.inputHistory.dropWhile fun input => decide (input.sequence ≤ lastInputSequence)

/-- Either nothing is reconciled, or the server's state is replayed. -/
theorem reconcile_cases (v : ClientView S A) (snapshot : DecodedSnapshot) :
    (v.reconciles snapshot = false ∧ v.reconcile physics snapshot = v) ∨
    (v.reconciles snapshot = true ∧ ∃ state, v.reconcile physics snapshot =
      { v with
        lastAcknowledgedInput := snapshot.lastInputSequence
        authoritative := state
        inputHistory := v.remaining snapshot.lastInputSequence
        predicted := (v.remaining snapshot.lastInputSequence).foldl physics.stepMovement state }) := by
  unfold reconcile reconciles
  cases hmine : snapshot.states.find? fun state => state.id == v.localEntity with
  | none =>
    have hany : (snapshot.states.any fun state => state.id == v.localEntity) = false := by
      simpa using hmine
    exact Or.inl ⟨by simp [hany], rfl⟩
  | some mine =>
    have hany : (snapshot.states.any fun state => state.id == v.localEntity) = true :=
      List.any_eq_true.mpr ⟨mine, List.mem_of_find?_eq_some hmine, by
        simpa using List.find?_some hmine⟩
    by_cases hstale : snapshot.lastInputSequence < v.lastAcknowledgedInput
    · exact Or.inl ⟨by simp [hstale], if_pos hstale⟩
    · refine Or.inr ⟨by simp [hany]; omega, physics.decode mine, ?_⟩
      exact if_neg hstale

end ClientView

namespace Diary
variable {S A : Type} (physics : Physics S A)

def step (d : Diary S A) : ViewAction S A → Diary S A
  | .pushInput axes sprint clientTick =>
    let (input, view) := d.view.pushInput physics axes sprint clientTick
    { view
      entries := ((d.view.evictedBy input).map fun old => .evicted old.sequence).reverse ++
        .pushed input.sequence :: d.entries }
  | .applySnapshot data size =>
    match d.view.applySnapshot physics data size with
    | (view, none) => { d with view }
    | (view, some snapshot) =>
      { view
        entries := if (d.view.record snapshot).reconciles snapshot
          then .reconciled snapshot.lastInputSequence :: d.entries else d.entries }
  | .advance => d
  | .adoptMigratedState entity state => { d with view := d.view.adoptMigratedState entity state }

def start (config : ClientViewConfig) : Diary S A := { view := ClientView.configure physics config }

end Diary

def ViewAction.isPush {S A : Type} : ViewAction S A → Bool
  | .pushInput _ _ _ => true
  | _ => false

namespace DiaryEntry

theorem acknowledged_evicted (sequence : Nat) (gone : List Nat) (rest : List DiaryEntry) :
    acknowledged sequence (gone.map evicted ++ rest) = acknowledged sequence rest := by
  induction gone with
  | nil => rfl
  | cons _ gone ih => exact ih

/-- Nothing is overrun only if every evicted command was acknowledged. -/
theorem overrun_evicted {gone : List Nat} {rest : List DiaryEntry}
    (h : overrun (gone.map evicted ++ rest) = false) :
    (∀ sequence ∈ gone, acknowledged sequence rest = true) ∧ overrun rest = false := by
  induction gone with
  | nil => exact ⟨by simp, h⟩
  | cons first gone ih =>
    rw [List.map_cons, List.cons_append, overrun, acknowledged_evicted, Bool.or_eq_false_iff,
      Bool.not_eq_false'] at h
    obtain ⟨hrest, hover⟩ := ih h.2
    refine ⟨fun sequence hmem => ?_, hover⟩
    rcases List.mem_cons.mp hmem with rfl | hmem
    · exact h.1
    · exact hrest sequence hmem

end DiaryEntry

/-- The commands are numbered without a gap, up to the `n`th. -/
def Consecutive {A : Type} (n : Nat) (history : List (MoveInput A)) : Prop :=
  history.length ≤ n ∧
    history.map MoveInput.sequence = List.range' (n + 1 - history.length) history.length

namespace Consecutive
variable {A : Type} {n : Nat} {history : List (MoveInput A)}

theorem nil : Consecutive n ([] : List (MoveInput A)) := ⟨Nat.zero_le n, rfl⟩

theorem push (h : Consecutive n history) {input : MoveInput A} (hinput : input.sequence = n + 1) :
    Consecutive (n + 1) (history ++ [input]) := by
  obtain ⟨hle, hseq⟩ := h
  refine ⟨by simpa using hle, ?_⟩
  rw [List.map_append, hseq, List.length_append, List.length_singleton,
    show n + 1 + 1 - (history.length + 1) = n + 1 - history.length by omega,
    List.range'_1_concat]
  simp only [List.map_cons, List.map_nil, hinput]
  congr 2
  omega

theorem suffix (h : Consecutive n history) {kept : List (MoveInput A)} (hkept : kept <:+ history) :
    Consecutive n kept := by
  obtain ⟨gone, rfl⟩ := hkept
  obtain ⟨hle, hseq⟩ := h
  rw [List.length_append] at hle hseq
  refine ⟨by omega, ?_⟩
  have hdrop := congrArg (List.drop gone.length) hseq
  rw [List.map_append, List.drop_left' (by simp), List.drop_range'] at hdrop
  rw [hdrop, Nat.add_sub_cancel_left]
  congr 1
  omega

theorem le (h : Consecutive n history) {input : MoveInput A} (hmem : input ∈ history) :
    input.sequence ≤ n := by
  have hseq := List.mem_map_of_mem (f := MoveInput.sequence) hmem
  rw [h.2, List.mem_range'_1] at hseq
  have := h.1
  omega

theorem ascending (h : Consecutive n history) :
    history.Pairwise fun a b => a.sequence < b.sequence := by
  have hsorted := List.pairwise_lt_range' (s := n + 1 - history.length) (n := history.length)
  rw [← h.2] at hsorted
  exact List.pairwise_map.mp hsorted

end Consecutive

theorem lt_of_mem_dropWhile {A : Type} {history : List (MoveInput A)} {last : Nat}
    (hsorted : history.Pairwise fun a b => a.sequence < b.sequence) {input : MoveInput A}
    (hmem : input ∈ history.dropWhile fun input => decide (input.sequence ≤ last)) :
    last < input.sequence := by
  induction history with
  | nil => cases hmem
  | cons first rest ih =>
    rw [List.pairwise_cons] at hsorted
    rw [List.dropWhile_cons] at hmem
    split at hmem
    next => exact ih hsorted.2 hmem
    next hfirst =>
      have hfirst : last < first.sequence := by simpa using hfirst
      rcases List.mem_cons.mp hmem with rfl | hrest
      · exact hfirst
      · exact Nat.lt_trans hfirst (hsorted.1 input hrest)

namespace Diary
variable {S A : Type} (physics : Physics S A)

/-- After `n` pushes: the history is numbered without a gap up to the last of them, no
command in it has been acknowledged, and unless it was overrun the prediction replays it. -/
structure Inv (n : Nat) (d : Diary S A) : Prop where
  next : d.view.nextInputSequence = (n + 1) % 2 ^ 32
  consecutive : Consecutive n d.view.inputHistory
  waiting : ∀ input ∈ d.view.inputHistory,
    DiaryEntry.acknowledged input.sequence d.entries = false
  replayed : DiaryEntry.overrun d.entries = false →
    d.view.predicted = d.view.inputHistory.foldl physics.stepMovement d.view.authoritative

theorem inv_start (config : ClientViewConfig) : (start physics config).Inv physics 0 where
  next := rfl
  consecutive := .nil
  waiting := fun _ hmem => nomatch hmem
  replayed := fun _ => rfl

variable {physics}

theorem Inv.push {n : Nat} {d : Diary S A} (h : d.Inv physics n) (hn : n + 1 < 2 ^ 32) (axes : A)
    (sprint : Bool) (clientTick : Nat) :
    (d.step physics (.pushInput axes sprint clientTick)).Inv physics (n + 1) := by
  have hnumber : d.view.nextInputSequence = n + 1 := by rw [h.next, Nat.mod_eq_of_lt hn]
  let input : MoveInput A :=
    { sequence := d.view.nextInputSequence, tick := clientTick
      axes := physics.quantizeInput axes, sprint }
  have hpushed : Consecutive (n + 1) (d.view.inputHistory ++ [input]) := h.consecutive.push hnumber
  have hwaiting : ∀ old ∈ d.view.inputHistory ++ [input],
      DiaryEntry.acknowledged old.sequence (.pushed input.sequence :: d.entries) = false := by
    intro old hold
    rcases List.mem_append.mp hold with hold | hnew
    · have hle := h.consecutive.le hold
      have hne : input.sequence ≠ old.sequence := by
        show d.view.nextInputSequence ≠ old.sequence
        omega
      rw [DiaryEntry.acknowledged, if_neg hne]
      exact h.waiting old hold
    · rw [List.mem_singleton.mp hnew, DiaryEntry.acknowledged, if_pos rfl]
  have hentries : (d.step physics (.pushInput axes sprint clientTick)).entries =
      ((d.view.evictedBy input).map MoveInput.sequence).reverse.map DiaryEntry.evicted ++
        .pushed input.sequence :: d.entries := by
    simp [step, ClientView.pushInput, input, Function.comp_def]
  refine ⟨?_, ?_, ?_, ?_⟩
  · show (d.view.nextInputSequence + 1) % 2 ^ 32 = _
    rw [hnumber]
  · exact hpushed.suffix (List.drop_suffix _ _)
  · intro old hold
    rw [hentries, DiaryEntry.acknowledged_evicted]
    exact hwaiting old (List.mem_of_mem_drop hold)
  · intro hclean
    rw [hentries] at hclean
    obtain ⟨hall, hbefore⟩ := DiaryEntry.overrun_evicted hclean
    -- an evicted command would be an unacknowledged one
    have hnone : d.view.evictedBy input = [] := by
      rw [List.eq_nil_iff_forall_not_mem]
      intro old hold
      have hacked := hall old.sequence (by simpa using ⟨old, hold, rfl⟩)
      rw [hwaiting old (List.mem_of_mem_take hold)] at hacked
      cases hacked
    have hkept : ClientView.keepLast d.view.config.inputHistory (d.view.inputHistory ++ [input]) =
        d.view.inputHistory ++ [input] := by
      have hsplit := List.take_append_drop ((d.view.inputHistory ++ [input]).length -
        d.view.config.inputHistory) (d.view.inputHistory ++ [input])
      rw [ClientView.evictedBy] at hnone
      rw [hnone, List.nil_append] at hsplit
      exact hsplit
    show physics.stepMovement d.view.predicted input =
      (ClientView.keepLast d.view.config.inputHistory (d.view.inputHistory ++ [input])).foldl
        physics.stepMovement d.view.authoritative
    rw [hkept, List.foldl_append, ← h.replayed hbefore]
    rfl

theorem Inv.install {n : Nat} {d : Diary S A} (h : d.Inv physics n)
    (snapshot : DecodedSnapshot) : Diary.Inv physics n
      { view := d.view.install physics snapshot
        entries := if (d.view.record snapshot).reconciles snapshot
          then .reconciled snapshot.lastInputSequence :: d.entries else d.entries } := by
  rw [ClientView.install_eq]
  rcases ClientView.reconcile_cases physics (d.view.record snapshot) snapshot with
    ⟨hskip, hsame⟩ | ⟨htakes, state, hview⟩
  · rw [hskip, hsame]
    exact ⟨h.next, h.consecutive, h.waiting, h.replayed⟩
  · rw [htakes, hview]
    refine ⟨h.next, h.consecutive.suffix (List.dropWhile_suffix _), fun input hmem => ?_,
      fun _ => rfl⟩
    have hlater := lt_of_mem_dropWhile h.consecutive.ascending hmem
    have hin : input ∈ d.view.inputHistory := (List.dropWhile_suffix _).subset hmem
    simp only [if_true, DiaryEntry.acknowledged, h.waiting input hin, Bool.or_false]
    simpa using hlater

/-- One action, with the number of pushes it adds. -/
theorem Inv.step {n : Nat} {d : Diary S A} (h : d.Inv physics n) (action : ViewAction S A)
    (hn : n + (if action.isPush then 1 else 0) < 2 ^ 32) :
    (d.step physics action).Inv physics (n + if action.isPush then 1 else 0) := by
  cases action with
  | pushInput axes sprint clientTick => exact h.push hn axes sprint clientTick
  | applySnapshot data size =>
    rcases ClientView.applySnapshot_cases physics d.view data size with
      hrefused | ⟨_, _, _, snapshot, -, -, -, happlied⟩
    · simp only [Diary.step, hrefused]
      exact h
    · simp only [Diary.step, happlied]
      exact h.install snapshot
  | advance => exact h
  | adoptMigratedState entity state =>
    exact ⟨h.next, .nil, fun _ hmem => absurd hmem List.not_mem_nil, fun _ => rfl⟩

theorem Inv.run {n : Nat} {d : Diary S A} (h : d.Inv physics n) (actions : List (ViewAction S A))
    (hn : n + actions.countP ViewAction.isPush < 2 ^ 32) :
    (Run.run (Diary.step physics) d actions).Inv physics
      (n + actions.countP ViewAction.isPush) := by
  induction actions generalizing n d with
  | nil => exact h
  | cons action actions ih =>
    rw [List.countP_cons] at hn ⊢
    have hnext := ih (h.step action (by omega)) (by omega)
    rw [show n + (actions.countP ViewAction.isPush + if action.isPush then 1 else 0) =
      n + (if action.isPush then 1 else 0) + actions.countP ViewAction.isPush by omega]
    exact hnext

/-- Along every run the prediction is the replay of the history over the authoritative
state, until `push_input` evicts a command no reconcile has acknowledged, and the history
is numbered without a gap up to the last command pushed. -/
theorem prediction_is_replay (physics : Physics S A) (config : ClientViewConfig)
    (actions : List (ViewAction S A)) (hpushes : actions.countP ViewAction.isPush < 2 ^ 32) :
    let d := Run.run (Diary.step physics) (start physics config) actions
    (DiaryEntry.overrun d.entries = false →
      d.view.predicted = d.view.inputHistory.foldl physics.stepMovement d.view.authoritative) ∧
    (d.view.inputHistory = [] ∨ ∃ first,
      d.view.inputHistory.map MoveInput.sequence =
        List.range' first d.view.inputHistory.length ∧
      first + d.view.inputHistory.length - 1 =
        (d.view.nextInputSequence + 2 ^ 32 - 1) % 2 ^ 32) := by
  have hinv := (inv_start physics config).run actions (by omega)
  rw [Nat.zero_add] at hinv
  generalize actions.countP ViewAction.isPush = n at hpushes hinv
  refine ⟨hinv.replayed, ?_⟩
  by_cases hempty : (Run.run (Diary.step physics) (start physics config) actions).view.inputHistory = []
  · exact Or.inl hempty
  · obtain ⟨hle, hseq⟩ := hinv.consecutive
    refine Or.inr ⟨_, hseq, ?_⟩
    have hpos := List.length_pos_iff.mpr hempty
    rw [hinv.next]
    omega

/-- Movement along a line, one unit per command and two when sprinting. -/
def walking : Physics Nat Unit :=
  { stepMovement := fun s input => s + if input.sprint then 2 else 1
    quantizeInput := id, decode := fun state => state.px, initial := 0, centered := () }

/-- A full snapshot that acknowledges a command and has its viewer at `px`. -/
def acknowledging (tick lastInputSequence viewer px : Nat) : List UInt8 :=
  (writeRecords
    ((writeSnapshotHeader (BitWriter.new (fun _ => 0) 100) tick none lastInputSequence viewer
      []).writeU16 1) 0 [({ id := viewer, px }, none)]).bytes

/-- Hands a view these bytes. -/
def delivered (data : List UInt8) : ViewAction Nat Unit :=
  .applySnapshot (BitReader.view data) data.length

/-- Two commands, a truncated snapshot and a whole one; a third command, and a migration to 40;
two commands of which the new shard acknowledges the first, and one more. -/
def crossingView : List (ViewAction Nat Unit) :=
  [.pushInput () false 1, .pushInput () true 2, .applySnapshot (fun _ => 0) 3,
   delivered (acknowledging 4 1 7 20), .advance, .pushInput () true 3,
   .adoptMigratedState 9 40, .pushInput () true 4, .pushInput () false 5,
   delivered (acknowledging 6 4 9 50), .pushInput () true 6]

/-- The last acknowledged state and the two commands after it. -/
theorem crossingView_is_replay :
    let d := Run.run (Diary.step walking) (start walking { inputHistory := 2 }) crossingView
    d.view.authoritative = 50 ∧ d.view.predicted = 53 ∧
      ∃ first, d.view.inputHistory.map MoveInput.sequence = List.range' first 2 := by
  intro d
  have hlength : d.view.inputHistory.length = 2 := by decide +kernel
  have hstate : d.view.authoritative = 50 := by decide +kernel
  obtain ⟨hreplay, hrun⟩ :=
    prediction_is_replay walking { inputHistory := 2 } crossingView (by decide)
  refine ⟨hstate, (hreplay (by decide +kernel)).trans ?_, ?_⟩
  · rw [hstate]
    decide +kernel
  obtain hempty | ⟨first, hseq, -⟩ := hrun
  · exact absurd hempty (by decide +kernel)
  · exact ⟨first, hlength ▸ hseq⟩

end Diary
end Morton.Sim
