import Mathlib.Algebra.Order.Ring.Rat
import Mathlib.Tactic.NormNum.OfScientific
import Mathlib.Tactic.NormNum.Ineq
import Morton.Base.Run
import Morton.Proto.Replication

/-! Which entities a contended packet takes and what credit the others keep: the cursor,
the partial sort and the rebuilt list against their plain rule, in every reachable state. -/
namespace Morton.Proto
open Keyed Net
namespace ReplicationState
variable {R : Type}

section
variable [OfScientific R]

/-- The credit stored for an id, 0 if there is none. -/
def credit (priority : List (Nat × R)) (id : Nat) : R :=
  ((lookup Prod.fst priority id).map Prod.snd).getD 0.0

/-- The cursor stops at the credit of the id. -/
theorem advanceCarried_eq {priority : List (Nat × R)} (hpriority : Increasing Prod.fst priority)
    (id : Nat) : advanceCarried priority id = (above Prod.fst priority id, credit priority id) := by
  have hhead := head_above hpriority id
  unfold credit advanceCarried
  rw [← hhead]
  unfold above
  cases priority.dropWhile fun carried => decide (carried.1 < id) with
  | nil => rfl
  | cons carried rest =>
    by_cases h : carried.1 = id
    · simp [Option.filter, h]
    · simp [Option.filter, h]

variable [Add R] [Mul R]

/-- The priority of an entity in view, if it changed against its baseline state. -/
def plainPriority (config : InterestConfig R) (viewer : Nat) (priority : List (Nat × R))
    (row : Seen R × Option EntityWireState) : Option R :=
  if row.2.any row.1.state.sameStateAs then none
  else
    let value := credit priority row.1.state.id +
      row.1.closeness * config.distancePriorityFalloff + 0.01
    some (if row.1.state.id = viewer then value + 1e6 else value)

/-- Advancing one cursor finds every credit, since both lists are in id order. -/
theorem candidatePriorities_eq (config : InterestConfig R) (viewer : Nat)
    {rows : List (Seen R × Option EntityWireState)}
    (hrows : Increasing (fun row => row.1.state.id) rows) {priority : List (Nat × R)}
    (hpriority : Increasing Prod.fst priority) :
    candidatePriorities config viewer rows priority =
      rows.map (plainPriority config viewer priority) := by
  induction rows generalizing priority with
  | nil => rfl
  | cons row rows ih =>
    obtain ⟨current, previous⟩ := row
    have hrest := ih hrows.of_cons (hpriority.sublist (List.dropWhile_sublist fun carried =>
      decide (carried.1 < current.state.id)))
    have hcredit : ∀ row ∈ rows, credit (above Prod.fst priority current.state.id)
        row.1.state.id = credit priority row.1.state.id := by
      intro row hrow
      have hlt := List.rel_of_pairwise_cons hrows hrow
      rw [credit, lookup_above priority (Nat.le_of_lt hlt), credit]
    have htail : rows.map (plainPriority config viewer
        (above Prod.fst priority current.state.id)) =
        rows.map (plainPriority config viewer priority) := by
      refine List.map_congr_left fun row hrow => ?_
      rw [plainPriority, hcredit row hrow, plainPriority]
    simp only [candidatePriorities, advanceCarried_eq hpriority, List.map_cons, ← htail]
    refine congrArg₂ _ ?_ hrest
    cases previous with
    | none => simp [plainPriority]
    | some previous => simp [plainPriority]

/-- Whatever the credits, the candidates are the entities that changed. -/
theorem candidatePriorities_isSome (config : InterestConfig R) (viewer : Nat)
    (rows : List (Seen R × Option EntityWireState)) (priority : List (Nat × R)) :
    (candidatePriorities config viewer rows priority).map Option.isSome =
      rows.map fun row => !row.2.any row.1.state.sameStateAs := by
  induction rows generalizing priority with
  | nil => rfl
  | cons row rows ih =>
    obtain ⟨current, previous⟩ := row
    simp only [candidatePriorities, List.map_cons, ih]
    refine congrArg₂ _ ?_ rfl
    cases previous with
    | none => rfl
    | some previous =>
      rw [Option.any_some]
      dsimp only
      by_cases hsame : current.state.sameStateAs previous = true
      · rw [if_pos hsame, hsame]
        rfl
      · have hchanged : current.state.sameStateAs previous = false := by simpa using hsame
        rw [if_neg hsame, hchanged]
        rfl

end

theorem mem_candidates {priorities : List (Option R)} {c : Nat × R} :
    c ∈ candidates priorities ↔ priorities[c.1]? = some (some c.2) := by
  obtain ⟨index, value⟩ := c
  rw [candidates, List.mem_filterMap]
  constructor
  · rintro ⟨⟨priority, i⟩, hmem, hout⟩
    obtain ⟨p, rfl, heq⟩ := Option.map_eq_some_iff.mp hout
    cases heq
    exact List.mem_zipIdx_iff_getElem?.mp hmem
  · intro h
    exact ⟨(some value, index), List.mem_zipIdx_iff_getElem?.mpr h, rfl⟩

/-- Candidates that do not fit leave out none that is ahead of one they kept. -/
theorem select_contended [LT R] (nth : NthElement R) {cs : List (Nat × R)} {n : Nat}
    (hcs : Increasing Prod.fst cs) (hn : n < cs.length) :
    (select nth cs n).length = n ∧
      ∀ a ∈ cs, ∀ b ∈ cs, a.1 ∈ select nth cs n → b.1 ∉ select nth cs n → ¬ a.2 < b.2 := by
  have hperm := nth.perm cs n
  have hsort := List.mergeSort_perm (((nth.apply cs n).take n).map Prod.fst)
    fun a b => decide (a ≤ b)
  have heq : select nth cs n =
      (((nth.apply cs n).take n).map Prod.fst).mergeSort fun a b => decide (a ≤ b) :=
    if_neg (by omega)
  -- an index stands in the list once, so it tells on which side its candidate is
  have hunique : ∀ a ∈ cs, ∀ b ∈ cs, a.1 = b.1 → a = b := fun a ha b hb h =>
    Option.some.inj (((lookup_eq_some_iff hcs).mpr ⟨ha, rfl⟩).symm.trans
      (h ▸ (lookup_eq_some_iff hcs).mpr ⟨hb, rfl⟩))
  have hkept : ∀ a ∈ cs, a.1 ∈ select nth cs n ↔ a ∈ (nth.apply cs n).take n := by
    intro a ha
    rw [heq, hsort.mem_iff, List.mem_map]
    constructor
    · rintro ⟨b, hb, h⟩
      exact hunique b (hperm.mem_iff.mp (List.mem_of_mem_take hb)) a ha h ▸ hb
    · intro h
      exact ⟨a, h, rfl⟩
  refine ⟨?_, fun a ha b hb hsel hunsel => ?_⟩
  · rw [heq, hsort.length_eq, List.length_map, List.length_take, hperm.length_eq]
    omega
  · rw [hkept a ha] at hsel
    rw [hkept b hb] at hunsel
    have hmem := hperm.mem_iff.mpr hb
    rw [← List.take_append_drop n (nth.apply cs n), List.mem_append] at hmem
    exact nth.top cs n a hsel b (hmem.resolve_left hunsel)

/-- The selected indices ascend. -/
theorem select_ascending [LT R] (nth : NthElement R) {cs : List (Nat × R)} (n : Nat)
    (hcs : Increasing Prod.fst cs) : (select nth cs n).Pairwise (· < ·) := by
  have hnodup := (select_subset nth cs n
    (List.pairwise_map.mpr (hcs.imp Nat.ne_of_lt))).1
  unfold select at hnodup ⊢
  split at hnodup
  next h =>
    rw [if_pos h]
    exact List.pairwise_map.mpr hcs
  next h =>
    rw [if_neg h]
    have hsorted : ((((nth.apply cs n).take n).map Prod.fst).mergeSort
        fun a b => decide (a ≤ b)).Pairwise fun a b => decide (a ≤ b) = true :=
      List.pairwise_mergeSort
        (fun a b c hab hbc => by simp only [decide_eq_true_eq] at *; omega)
        (fun a b => by simp only [Bool.or_eq_true, decide_eq_true_eq]; omega) _
    refine (hsorted.and hnodup).imp fun {a b} hab => ?_
    simp only [decide_eq_true_eq] at hab
    omega

section
variable {base current : List EntityWireState} {selected : List Nat}

/-- Ascending indices of a list in id order give records in id order. -/
theorem increasing_sentStates (hcurrent : Increasing EntityWireState.id current)
    (hselected : selected.Pairwise (· < ·)) :
    Increasing (fun row => row.1.id) (sentStates base current selected) := by
  refine List.pairwise_filterMap.mpr (hselected.imp fun {i j} hij a ha b hb => ?_)
  obtain ⟨hi, hai⟩ := List.getElem?_eq_some_iff.mp (rowsOver_getElem?.mp ha).1
  obtain ⟨hj, hbj⟩ := List.getElem?_eq_some_iff.mp (rowsOver_getElem?.mp hb).1
  have := List.pairwise_iff_getElem.mp hcurrent i j hi hj hij
  rwa [hai, hbj] at this

variable [Neg R] [LT R] [DecidableLT R] [OfScientific R] {priorities : List (Option R)}

/-- The rebuilt list holds the candidates that were not selected, but none below zero:
that is how the loop tells the entities that are no candidates. -/
theorem mem_nextPriority (hsentinel : (-1.0 : R) < 0.0) {id : Nat} {p : R} :
    (id, p) ∈ nextPriority current priorities selected ↔
      ∃ i state, current[i]? = some state ∧ state.id = id ∧ (i, p) ∈ candidates priorities ∧
        i ∉ selected ∧ ¬ p < 0.0 := by
  rw [nextPriority, List.mem_filterMap]
  constructor
  · rintro ⟨⟨⟨state, priority⟩, i⟩, hmem, hout⟩
    obtain ⟨hstate, hpriority⟩ :=
      List.getElem?_zip_eq_some.mp (List.mem_zipIdx_iff_getElem?.mp hmem)
    dsimp only at hout hstate hpriority
    split at hout
    · cases hout
    next hkept =>
      obtain ⟨hunsel, hge⟩ := not_or.mp hkept
      cases priority with
      | none => exact absurd hsentinel hge
      | some value =>
        cases hout
        exact ⟨i, state, hstate, rfl, mem_candidates.mpr hpriority, hunsel, hge⟩
  · rintro ⟨i, state, hstate, rfl, hcandidate, hunsel, hge⟩
    refine ⟨((state, some p), i), List.mem_zipIdx_iff_getElem?.mpr
      (List.getElem?_zip_eq_some.mpr ⟨hstate, mem_candidates.mp hcandidate⟩), ?_⟩
    exact if_neg (not_or.mpr ⟨hunsel, hge⟩)

theorem increasing_nextPriority (hcurrent : Increasing EntityWireState.id current)
    (priorities : List (Option R)) (selected : List Nat)
    (hlength : priorities.length = current.length) :
    Increasing Prod.fst (nextPriority current priorities selected) := by
  have hzip : (current.zip priorities).Pairwise fun a b => a.1.id < b.1.id := by
    rw [← List.map_fst_zip (Nat.le_of_eq hlength.symm), Increasing, List.pairwise_map] at hcurrent
    exact hcurrent
  have hindexed : (current.zip priorities).zipIdx.Pairwise fun a b => a.1.1.id < b.1.1.id := by
    rw [← List.zipIdx_map_fst 0 (current.zip priorities), List.pairwise_map] at hzip
    exact hzip
  refine List.pairwise_filterMap.mpr (hindexed.imp fun {x y} hxy a ha b hb => ?_)
  dsimp only at ha hb
  split at ha
  · cases ha
  · split at hb
    · cases hb
    · cases ha
      cases hb
      exact hxy

end

/-- What callers do with a replication state. -/
inductive ReplicationAction (R : Type) [LT R]
  | configure (config : InterestConfig R)
  | reset
  | acknowledge (tick : Nat)
  | encode (nth : NthElement R) (scene : Scene R) (wf : scene.WF) (viewer lastInputSequence : Nat)
      (out : Nat → UInt8) (capacity : Nat)

/-- Frames and credits are in id order. -/
structure Ordered (s : ReplicationState R) : Prop where
  frames : ∀ t frame, s.history.get t = some frame → Increasing EntityWireState.id frame.states
  credits : Increasing Prod.fst s.priority

theorem Ordered.baseStates {s : ReplicationState R} (h : s.Ordered) (tick : Nat) :
    Increasing EntityWireState.id (s.baseStates tick) := by
  unfold ReplicationState.baseStates
  cases hbase : s.usableBaseline tick with
  | none => exact List.Pairwise.nil
  | some frame => exact h.frames _ frame (usableBaseline_get hbase)

theorem ordered_configure (config : InterestConfig R) : (configure config).Ordered where
  frames t frame hget := by
    rw [configure, SnapshotHistory.get_configure] at hget
    cases hget
  credits := List.Pairwise.nil

theorem rows_increasing (s : ReplicationState R) {scene : Scene R} (hscene : scene.WF) :
    Increasing (fun row => row.1.state.id) (s.rows scene) := by
  have hcurrent := hscene.increasing
  rw [Scene.current, Increasing, List.pairwise_map] at hcurrent
  exact List.pairwise_map.mpr hcurrent

variable [Add R] [Mul R] [Neg R] [LT R] [DecidableLT R] [OfScientific R]

def act (s : ReplicationState R) : ReplicationAction R → ReplicationState R
  | .configure config =>
    { s with config, history := SnapshotHistory.configure config.baselineHistory }
  | .reset => s.reset
  | .acknowledge tick => s.acknowledge tick
  | .encode nth scene _ viewer lastInputSequence out capacity =>
    (s.encode nth scene viewer lastInputSequence out capacity).1

theorem Ordered.encode {s : ReplicationState R} (h : s.Ordered) (nth : NthElement R)
    {scene : Scene R} (hscene : scene.WF) (viewer lastInputSequence : Nat) (out : Nat → UInt8)
    (capacity : Nat) : (s.encode nth scene viewer lastInputSequence out capacity).1.Ordered := by
  have heq := encode_eq nth s hscene (h.baseStates scene.tick) viewer lastInputSequence out capacity
  dsimp only at heq
  split at heq
  · rw [heq]
    exact h
  · rw [heq]
    refine ⟨fun t frame hget => ?_, increasing_nextPriority hscene.increasing _ _
      (s.priorities_length scene viewer)⟩
    rcases SnapshotHistory.get_store hget with ⟨-, rfl⟩ | hget
    · exact increasing_frameStates hscene.increasing _
    · exact h.frames t frame hget

theorem ordered_act (s : ReplicationState R) (action : ReplicationAction R) (h : s.Ordered) :
    (s.act action).Ordered := by
  cases action with
  | configure config =>
    refine ⟨fun t frame hget => ?_, h.credits⟩
    rw [act, SnapshotHistory.get_configure] at hget
    cases hget
  | reset =>
    refine ⟨fun t frame hget => ?_, List.Pairwise.nil⟩
    rw [act, reset, SnapshotHistory.get_reset] at hget
    cases hget
  | acknowledge tick =>
    change (s.acknowledge tick).Ordered
    unfold acknowledge
    split
    · exact h
    · exact ⟨h.frames, h.credits⟩
  | encode nth scene wf viewer lastInputSequence out capacity =>
    exact h.encode nth wf viewer lastInputSequence out capacity

theorem ordered_run (config : InterestConfig R) (actions : List (ReplicationAction R)) :
    (Run.run act (configure config) actions).Ordered :=
  Run.invariant_always Ordered ordered_act (ordered_configure config) actions

/-- The plain rule of an encode. -/
structure Plain (nth : NthElement R) (s : ReplicationState R) (scene : Scene R)
    (viewer lastInputSequence : Nat) (out : Nat → UInt8) (capacity : Nat) : Prop where
  /-- Every entity that changed has the credit stored for its id. -/
  credits : s.priorities scene viewer =
    (s.rows scene).map (plainPriority s.config viewer s.priority)
  /-- Everything is sent when it fits, otherwise `fits` candidates none of which is behind
  one that is not sent. -/
  selected : let cs := candidates (s.priorities scene viewer)
    let room := fits (s.headerWriter scene viewer lastInputSequence out capacity).bitsRemaining
    let selected := s.selection nth scene viewer lastInputSequence out capacity
    (∀ i ∈ selected, i ∈ cs.map Prod.fst) ∧ (cs.length ≤ room → selected = cs.map Prod.fst) ∧
      (room < cs.length → selected.length = room ∧
        ∀ a ∈ cs, ∀ b ∈ cs, a.1 ∈ selected → b.1 ∉ selected → ¬ a.2 < b.2)
  records : Increasing (fun row => row.1.id) (sentStates (s.baseStates scene.tick) scene.current
    (s.selection nth scene viewer lastInputSequence out capacity))
  /-- The packet carries the selected entities, and the credits that are kept afterwards are
  those of the other candidates, unless they are below zero. -/
  sent : ∀ bytes, (s.encode nth scene viewer lastInputSequence out capacity).2 = some bytes →
    let selected := s.selection nth scene viewer lastInputSequence out capacity
    let kept := (s.encode nth scene viewer lastInputSequence out capacity).1.priority
    bytes = (s.packetWriter scene viewer lastInputSequence out capacity selected).bytes ∧
      Increasing Prod.fst kept ∧
      ∀ id p, (id, p) ∈ kept ↔ ∃ i state, scene.current[i]? = some state ∧ state.id = id ∧
        (i, p) ∈ candidates (s.priorities scene viewer) ∧ i ∉ selected ∧ ¬ p < 0.0
  failed : (s.encode nth scene viewer lastInputSequence out capacity).2 = none →
    (s.encode nth scene viewer lastInputSequence out capacity).1 = s

theorem Ordered.plain {s : ReplicationState R} (h : s.Ordered) (hsentinel : (-1.0 : R) < 0.0)
    (nth : NthElement R) {scene : Scene R} (hscene : scene.WF) (viewer lastInputSequence : Nat)
    (out : Nat → UInt8) (capacity : Nat) :
    s.Plain nth scene viewer lastInputSequence out capacity := by
  have hcs := candidates_increasing (s.priorities scene viewer)
  have hordered := h.encode nth hscene viewer lastInputSequence out capacity
  have heq := encode_eq nth s hscene (h.baseStates scene.tick) viewer lastInputSequence out capacity
  dsimp only at heq
  refine ⟨candidatePriorities_eq s.config viewer (s.rows_increasing hscene) h.credits,
    ⟨(select_subset nth _ _ (candidates_index _).1).2, fun hfits => if_pos hfits,
      select_contended nth hcs⟩, increasing_sentStates hscene.increasing
      (select_ascending nth _ hcs), fun bytes hbytes => ?_, fun hnone => ?_⟩
  · split at heq
    · rw [heq] at hbytes
      cases hbytes
    · rw [heq] at hbytes hordered ⊢
      exact ⟨(Option.some.inj hbytes).symm, hordered.credits, fun id p =>
        mem_nextPriority hsentinel⟩
  · split at heq
    · rw [heq]
    · rw [heq] at hnone
      cases hnone

/-- In every state a run of callers reaches, an encode follows the plain rule. -/
theorem selection_plain (hsentinel : (-1.0 : R) < 0.0) (config : InterestConfig R)
    (actions : List (ReplicationAction R)) (nth : NthElement R) {scene : Scene R}
    (hscene : scene.WF) (viewer lastInputSequence : Nat) (out : Nat → UInt8) (capacity : Nat) :
    (Run.run act (configure config) actions).Plain nth scene viewer lastInputSequence out
      capacity :=
  (ordered_run config actions).plain hsentinel nth hscene viewer lastInputSequence out capacity

/-- The viewer and one other entity. -/
def pair : Scene ℚ :=
  { tick := 1, hasViewer := true, seen := [⟨{ id := 1 }, 1⟩, ⟨{ id := 2 }, 1⟩] }

theorem pair_wf : pair.WF := by decide

theorem selection_plain_pair :
    (-1.0 : ℚ) < 0.0 ∧ (Run.run act (configure ({ distancePriorityFalloff := 1 } : InterestConfig ℚ))
      [.encode (.sorting ℚ) pair pair_wf 1 0 (fun _ => 0) 13, .acknowledge 1]).Plain
        (.sorting ℚ) pair 1 0 (fun _ => 0) 30 :=
  ⟨by norm_num, selection_plain (by norm_num) _ _ _ pair_wf 1 0 _ 30⟩

theorem pair_sorted : (pair.seen.mergeSort fun a b => decide (a.state.id ≤ b.state.id)) =
    pair.seen :=
  List.mergeSort_of_pairwise (by simp [pair])

/-- With a falloff below zero an entity that is not sent can lose its credit: the list has
room for no record and keeps the viewer's credit only. -/
theorem credit_below_zero_dropped :
    let s : ReplicationState ℚ := configure { distancePriorityFalloff := -1 }
    let next := s.encode (.sorting ℚ) pair 1 0 (fun _ => 0) 13
    (next.2.isSome = true ∧ s.selection (.sorting ℚ) pair 1 0 (fun _ => 0) 13 = []) ∧
      candidates (s.priorities pair 1) = [(0, 999999.01), (1, -0.99)] ∧
      next.1.priority = [(1, 999999.01)] := by
  simp only [encode, selection, priorities, rows, headerWriter, removed, Scene.current, pair_sorted]
  decide +kernel

end ReplicationState
end Morton.Proto
