import Mathlib.Tactic.NormNum
import Morton.Base.Aging
import Morton.Proto.Selection
import Morton.Proto.SnapshotBudget

/-! Contended packets over a whole run for one viewer: the credits as an aging scheduler,
how long an entity can be deferred and how high its priority can grow. -/
namespace Morton.Proto
open Keyed Net

theorem EntityWireState.eq_of_sameStateAs {a b : EntityWireState} (hid : b.id = a.id)
    (h : a.sameStateAs b = true) : b = a := by
  cases a
  cases b
  simp only [sameStateAs, Bool.and_eq_true, beq_iff_eq] at h hid
  simp only [hid, h]

namespace ReplicationState
variable {K : Type}

/-- The arguments of an encode other than the viewer. -/
structure EncodeCall (K : Type) [LT K] where
  nth : NthElement K
  scene : Scene K
  wf : scene.WF
  lastInputSequence : Nat
  out : Nat → UInt8
  capacity : Nat

/-- What the server does for one viewer. -/
inductive ViewerAction (K : Type) [LT K]
  | encode (call : EncodeCall K)
  | acknowledge (tick : Nat)

variable [Aging.Exact K]

section
variable (viewer : Nat)

def EncodeCall.apply (call : EncodeCall K) (s : ReplicationState K) :
    ReplicationState K × Option (List UInt8) :=
  s.encode call.nth call.scene viewer call.lastInputSequence call.out call.capacity

/-- The successful encodes of a run, each with the state it meets. -/
def encodes (s : ReplicationState K) : List (ViewerAction K) →
    List (ReplicationState K × EncodeCall K)
  | [] => []
  | .encode call :: actions =>
    if (call.apply viewer s).2.isSome then
      (s, call) :: encodes (call.apply viewer s).1 actions
    else encodes (call.apply viewer s).1 actions
  | .acknowledge tick :: actions => encodes (s.acknowledge tick) actions

/-- How many records the packet of an encode has room for. -/
def room (x : ReplicationState K × EncodeCall K) : Nat :=
  fits (x.1.headerWriter x.2.scene viewer x.2.lastInputSequence x.2.out x.2.capacity).bitsRemaining

/-- The candidates of an encode by index, with their priorities. -/
def contenders (x : ReplicationState K × EncodeCall K) : List (Nat × K) :=
  candidates (x.1.priorities x.2.scene viewer)

/-- The selected indices of an encode. -/
def chosen (x : ReplicationState K × EncodeCall K) : List Nat :=
  x.1.selection x.2.nth x.2.scene viewer x.2.lastInputSequence x.2.out x.2.capacity

/-- The entity is in view and changed against its baseline state. -/
def IsCandidate (x : ReplicationState K × EncodeCall K) (id : Nat) : Prop :=
  ∃ row ∈ x.1.rows x.2.scene, row.1.state.id = id ∧ row.2.any row.1.state.sameStateAs = false

/-- The packet carries a record of the entity. -/
def Sends (x : ReplicationState K × EncodeCall K) (id : Nat) : Prop :=
  ∃ i ∈ chosen viewer x, ∃ c, x.2.scene.current[i]? = some c ∧ c.id = id

/-- The entity is a candidate that has to wait for another packet. -/
def Waits (x : ReplicationState K × EncodeCall K) (id : Nat) : Prop :=
  IsCandidate x id ∧ ¬ Sends viewer x id

/-- The priority of a candidate. -/
def bid (x : ReplicationState K × EncodeCall K) (id : Nat) : Option K :=
  (lookup (fun row => row.1.state.id) (x.1.rows x.2.scene) id).bind
    (plainPriority x.1.config viewer x.1.priority)

end

/-- Credits are in id order and none is below zero. -/
structure Credited (s : ReplicationState K) : Prop extends s.Ordered where
  nonneg : ∀ c ∈ s.priority, 0 ≤ c.2

section
variable {viewer : Nat} {x : ReplicationState K × EncodeCall K}

theorem bid_eq_some_iff (h : x.1.Ordered) {id : Nat} {p : K} :
    bid viewer x id = some p ↔ ∃ i c, x.2.scene.current[i]? = some c ∧ c.id = id ∧
      (i, p) ∈ contenders viewer x := by
  have hrows := x.1.rows_increasing x.2.wf
  have hplain : x.1.priorities x.2.scene viewer = (x.1.rows x.2.scene).map
      (plainPriority x.1.config viewer x.1.priority) :=
    candidatePriorities_eq x.1.config viewer hrows h.credits
  rw [bid, Option.bind_eq_some_iff]
  simp only [contenders, mem_candidates, hplain, List.getElem?_map, Option.map_eq_some_iff,
    current_eq_rows x.1 x.2.scene]
  constructor
  · rintro ⟨row, hrow, hp⟩
    obtain ⟨hmem, hid⟩ := (lookup_eq_some_iff hrows).mp hrow
    obtain ⟨i, hi⟩ := List.getElem?_of_mem hmem
    exact ⟨i, row.1.state, ⟨row, hi, rfl⟩, hid, row, hi, hp⟩
  · rintro ⟨i, c, ⟨row, hi, rfl⟩, hid, row', hi', hp⟩
    obtain rfl := Option.some.inj (hi.symm.trans hi')
    exact ⟨row, (lookup_eq_some_iff hrows).mpr ⟨List.mem_of_getElem? hi, hid⟩, hp⟩

variable (viewer) in
/-- A candidate is an entity with a priority. -/
theorem isCandidate_iff {id : Nat} : IsCandidate x id ↔ (bid viewer x id).isSome = true := by
  have hrows := x.1.rows_increasing x.2.wf
  have hplain : ∀ row : Seen K × Option EntityWireState,
      (plainPriority x.1.config viewer x.1.priority row).isSome = true ↔
        row.2.any row.1.state.sameStateAs = false := by
    intro row
    unfold plainPriority
    cases row.2.any row.1.state.sameStateAs with
    | true => simp
    | false => simp
  rw [bid, Option.isSome_bind, IsCandidate]
  constructor
  · rintro ⟨row, hrow, hid, hchanged⟩
    rw [(lookup_eq_some_iff hrows).mpr ⟨hrow, hid⟩]
    exact (hplain row).mpr hchanged
  · intro h
    cases hrow : lookup (fun row => row.1.state.id) (x.1.rows x.2.scene) id with
    | none =>
      rw [hrow] at h
      cases h
    | some row =>
      rw [hrow] at h
      obtain ⟨hmem, hid⟩ := (lookup_eq_some_iff hrows).mp hrow
      exact ⟨row, hmem, hid, (hplain row).mp h⟩

theorem IsCandidate.exists_bid {id : Nat} (h : IsCandidate x id) (viewer : Nat) :
    ∃ p, bid viewer x id = some p :=
  Option.isSome_iff_exists.mp ((isCandidate_iff viewer).mp h)

theorem sends_iff {i : Nat} {c : EntityWireState} (hi : x.2.scene.current[i]? = some c) :
    Sends viewer x c.id ↔ i ∈ chosen viewer x := by
  constructor
  · rintro ⟨j, hj, d, hd, hid⟩
    exact index_unique x.2.wf.increasing hi hd hid.symm ▸ hj
  · intro h
    exact ⟨i, h, c, hi, rfl⟩

variable (viewer) in
/-- The entities that wait are among the candidates. -/
theorem waits_crowd (h : x.1.Ordered) {N : Nat}
    (hcount : (contenders viewer x).length ≤ N) :
    ∃ crowd : Finset Nat, crowd.card ≤ N ∧ ∀ id, Waits viewer x id → id ∈ crowd := by
  let ids := (contenders viewer x).map fun c => (x.2.scene.current[c.1]?.map EntityWireState.id).getD 0
  refine ⟨ids.toFinset, ?_, fun id hwaits => ?_⟩
  · have hcard := List.toFinset_card_le ids
    rw [List.length_map] at hcard
    omega
  · obtain ⟨p, hp⟩ := hwaits.1.exists_bid viewer
    obtain ⟨i, c, hc, rfl, hmem⟩ := (bid_eq_some_iff h).mp hp
    rw [List.mem_toFinset, List.mem_map]
    refine ⟨(i, p), hmem, ?_⟩
    rw [hc]
    rfl

/-- Without a baseline everything in view is a candidate. -/
theorem contenders_length (hnone : ∀ row ∈ x.1.rows x.2.scene, row.2 = none) :
    (contenders viewer x).length = x.2.scene.seen.length := by
  have hsome := candidatePriorities_isSome x.1.config viewer (x.1.rows x.2.scene) x.1.priority
  have hcount : (contenders viewer x).length = (x.1.priorities x.2.scene viewer).zipIdx.length := by
    refine List.filterMap_length_eq_length.mpr fun entry hentry => ?_
    obtain ⟨priority, index⟩ := entry
    have hmem : priority.isSome ∈ (x.1.priorities x.2.scene viewer).map Option.isSome :=
      List.mem_map_of_mem (List.fst_mem_of_mem_zipIdx hentry)
    rw [priorities, hsome] at hmem
    obtain ⟨row, hrow, heq⟩ := List.mem_map.mp hmem
    rw [hnone row hrow] at heq
    rw [Option.isSome_map, ← heq]
    rfl
  rw [hcount, List.length_zipIdx, priorities_length, Scene.current, List.length_map,
    List.length_mergeSort]

/-- A full packet for two or more carries somebody other than the viewer. -/
theorem sends_other (hroom : 2 ≤ (chosen viewer x).length) :
    ∃ id, Sends viewer x id ∧ id ≠ viewer := by
  obtain ⟨hnodup, hindex⟩ := x.1.selection_index x.2.nth x.2.scene viewer x.2.lastInputSequence
    x.2.out x.2.capacity
  have hat : ∀ i ∈ chosen viewer x, ∃ c, x.2.scene.current[i]? = some c := fun i hi =>
    ⟨_, List.getElem?_eq_getElem (hindex i hi)⟩
  obtain ⟨i, j, rest, heq⟩ : ∃ i j rest, chosen viewer x = i :: j :: rest := by
    match hchosen : chosen viewer x with
    | [] => simp [hchosen] at hroom
    | [i] => simp [hchosen] at hroom
    | i :: j :: rest => exact ⟨i, j, rest, rfl⟩
  have hi : i ∈ chosen viewer x := heq ▸ List.mem_cons_self
  have hj : j ∈ chosen viewer x := heq ▸ List.mem_cons_of_mem i List.mem_cons_self
  obtain ⟨c, hc⟩ := hat i hi
  obtain ⟨d, hd⟩ := hat j hj
  have hne : i ≠ j := by
    have hnodup' : (i :: j :: rest).Nodup := heq ▸ hnodup
    intro h
    subst h
    simp at hnodup'
  by_cases hviewer : c.id = viewer
  · refine ⟨d.id, ⟨j, hj, d, hd, rfl⟩, fun h => ?_⟩
    exact hne (index_unique x.2.wf.increasing hc hd (hviewer.trans h.symm))
  · exact ⟨c.id, ⟨i, hi, c, hc, rfl⟩, hviewer⟩

theorem sentinel : (-1.0 : K) < 0.0 := by
  norm_num

theorem sends_isCandidate (h : x.1.Ordered) {id : Nat} (hsends : Sends viewer x id) :
    IsCandidate x id := by
  obtain ⟨i, hi, c, hc, rfl⟩ := hsends
  have hplain := h.plain sentinel x.2.nth x.2.wf viewer x.2.lastInputSequence x.2.out x.2.capacity
  obtain ⟨⟨j, p⟩, hmem, rfl⟩ := List.mem_map.mp (hplain.selected.1 i hi)
  rw [isCandidate_iff viewer, (bid_eq_some_iff h).mpr ⟨j, c, hc, rfl, hmem⟩]
  rfl

/-- When a candidate is deferred the packet is full, and nobody in it has a lower
priority. -/
theorem deferred_contended (h : x.1.Ordered) {id : Nat} {p : K} (hp : bid viewer x id = some p)
    (hdeferred : ¬ Sends viewer x id) :
    (chosen viewer x).length = room viewer x ∧
      ∀ id' p', Sends viewer x id' → bid viewer x id' = some p' → p ≤ p' := by
  obtain ⟨i, c, hc, rfl, hmem⟩ := (bid_eq_some_iff h).mp hp
  rw [sends_iff hc] at hdeferred
  have hselected := (h.plain sentinel x.2.nth x.2.wf viewer x.2.lastInputSequence x.2.out
    x.2.capacity).selected
  dsimp only at hselected
  obtain ⟨-, hall, hcontended⟩ := hselected
  have hfull : room viewer x < (contenders viewer x).length := by
    by_contra hroom
    have hchosen : chosen viewer x = (contenders viewer x).map Prod.fst := hall (not_lt.mp hroom)
    exact hdeferred (hchosen ▸ List.mem_map.mpr ⟨(i, p), hmem, rfl⟩)
  obtain ⟨hlength, hbest⟩ := hcontended hfull
  refine ⟨hlength, fun id' p' hsends hp' => ?_⟩
  obtain ⟨j, d, hd, rfl, hmem'⟩ := (bid_eq_some_iff h).mp hp'
  exact not_lt.mp (hbest (j, p') hmem' (i, p) hmem ((sends_iff hd).mp hsends) hdeferred)

/-- With a falloff of 1 an encode adds at least 0.01 to the credit, and at most 1.01
except for the viewer, who gets a million more. -/
theorem bid_gain (hfalloff : x.1.config.distancePriorityFalloff = 1)
    (hnear : ∀ y ∈ x.2.scene.seen, 0 ≤ y.closeness ∧ y.closeness ≤ 1) {id : Nat} {p : K}
    (hp : bid viewer x id = some p) :
    credit x.1.priority id + 0.01 ≤ p ∧ (id ≠ viewer → p ≤ credit x.1.priority id + 1.01) ∧
      (id = viewer → credit x.1.priority id + 1e6 ≤ p) := by
  obtain ⟨row, hrow, hplain⟩ := Option.bind_eq_some_iff.mp hp
  obtain ⟨hmem, rfl⟩ := (lookup_eq_some_iff (x.1.rows_increasing x.2.wf)).mp hrow
  have hseen : row.1 ∈ x.2.scene.seen := by
    obtain ⟨y, hy, rfl⟩ := List.mem_map.mp hmem
    exact List.mem_mergeSort.mp hy
  obtain ⟨hlow, hhigh⟩ := hnear row.1 hseen
  unfold plainPriority at hplain
  split at hplain
  · cases hplain
  · rw [hfalloff, mul_one] at hplain
    have hcent : (0 : K) < 0.01 := by norm_num
    have hbonus : (0 : K) < 1e6 := by norm_num
    split at hplain
    next hviewer =>
      obtain rfl := Option.some.inj hplain
      exact ⟨by linarith, fun hne => absurd hviewer hne, fun _ => by linarith⟩
    next hviewer =>
      obtain rfl := Option.some.inj hplain
      refine ⟨by linarith, fun _ => ?_, fun heq => absurd heq hviewer⟩
      have hsum : (1.01 : K) = 1 + 0.01 := by norm_num
      linarith

theorem credit_nonneg {s : ReplicationState K} (h : s.Credited) (id : Nat) :
    0 ≤ credit s.priority id := by
  unfold credit
  cases hlookup : lookup Prod.fst s.priority id with
  | none => norm_num
  | some c => exact h.nonneg c ((lookup_eq_some_iff h.credits).mp hlookup).1

/-- After a packet the deferred candidates have their priorities as credit, and nobody else
has any. -/
theorem credit_after (h : x.1.Credited) (hfalloff : x.1.config.distancePriorityFalloff = 1)
    (hnear : ∀ y ∈ x.2.scene.seen, 0 ≤ y.closeness ∧ y.closeness ≤ 1)
    (hsent : (x.2.apply viewer x.1).2.isSome = true) (id : Nat) :
    (Waits viewer x id → credit (x.2.apply viewer x.1).1.priority id = (bid viewer x id).getD 0) ∧
      (¬ Waits viewer x id → credit (x.2.apply viewer x.1).1.priority id = 0) := by
  obtain ⟨bytes, hbytes⟩ := Option.isSome_iff_exists.mp hsent
  obtain ⟨-, hinc, hkept⟩ := (h.toOrdered.plain sentinel x.2.nth x.2.wf viewer
    x.2.lastInputSequence x.2.out x.2.capacity).sent bytes hbytes
  have hzero : (0.0 : K) = 0 := by norm_num
  -- a pair that is kept is a deferred candidate with its priority
  have hlookup : ∀ p, lookup Prod.fst (x.2.apply viewer x.1).1.priority id = some (id, p) ↔
      bid viewer x id = some p ∧ ¬ Sends viewer x id := by
    intro p
    refine (lookup_eq_some_iff hinc).trans ?_
    rw [hkept id p, bid_eq_some_iff h.toOrdered]
    constructor
    · rintro ⟨⟨i, c, hc, rfl, hmem, hunsel, -⟩, -⟩
      exact ⟨⟨i, c, hc, rfl, hmem⟩, fun hsends => hunsel ((sends_iff hc).mp hsends)⟩
    · rintro ⟨⟨i, c, hc, rfl, hmem⟩, hdeferred⟩
      refine ⟨⟨i, c, hc, rfl, hmem, fun hsel => hdeferred ((sends_iff hc).mpr hsel), ?_⟩, rfl⟩
      have hgain := (bid_gain hfalloff hnear
        ((bid_eq_some_iff h.toOrdered).mpr ⟨i, c, hc, rfl, hmem⟩)).1
      have hcredit := credit_nonneg h c.id
      have hcent : (0 : K) < 0.01 := by norm_num
      rw [hzero, not_lt]
      linarith
  unfold credit
  constructor
  · rintro ⟨hcandidate, hdeferred⟩
    obtain ⟨p, hp⟩ := hcandidate.exists_bid viewer
    rw [(hlookup p).mpr ⟨hp, hdeferred⟩, hp]
    rfl
  · intro hno
    cases hfound : lookup Prod.fst (x.2.apply viewer x.1).1.priority id with
    | none => exact hzero
    | some c =>
      obtain ⟨key, p⟩ := c
      obtain rfl : key = id := lookup_key hfound
      obtain ⟨hp, hdeferred⟩ := (hlookup p).mp hfound
      have hsome : (bid viewer x key).isSome = true := by
        rw [hp]
        rfl
      exact absurd ⟨(isCandidate_iff viewer).mpr hsome, hdeferred⟩ hno

end

/-- An encode changes the frames and the credits only. -/
theorem encode_keeps (s : ReplicationState K) (nth : NthElement K) (scene : Scene K)
    (viewer lastInputSequence : Nat) (out : Nat → UInt8) (capacity : Nat) :
    (s.encode nth scene viewer lastInputSequence out capacity).1.config = s.config ∧
      (s.encode nth scene viewer lastInputSequence out capacity).1.hasAcked = s.hasAcked := by
  unfold encode
  split
  · exact ⟨rfl, rfl⟩
  · dsimp only
    split
    · exact ⟨rfl, rfl⟩
    · split
      · exact ⟨rfl, rfl⟩
      · exact ⟨rfl, rfl⟩

theorem Credited.acknowledge {s : ReplicationState K} (h : s.Credited) (tick : Nat) :
    (s.acknowledge tick).Credited := by
  unfold ReplicationState.acknowledge
  split
  · exact h
  · exact ⟨⟨h.frames, h.credits⟩, h.nonneg⟩

theorem credited_configure (config : InterestConfig K) : (configure config).Credited where
  toOrdered := ordered_configure config
  nonneg c hc := by cases hc

theorem mem_encodes {viewer : Nat} {s : ReplicationState K} {actions : List (ViewerAction K)}
    {x : ReplicationState K × EncodeCall K} (hx : x ∈ encodes viewer s actions) :
    .encode x.2 ∈ actions := by
  induction actions generalizing s with
  | nil => cases hx
  | cons action actions ih =>
    cases action with
    | acknowledge tick => exact List.mem_cons_of_mem _ (ih hx)
    | encode call =>
      rw [encodes] at hx
      split at hx
      · cases List.mem_cons.mp hx with
        | inl heq => exact heq ▸ List.mem_cons_self
        | inr hlater => exact List.mem_cons_of_mem _ (ih hlater)
      · exact List.mem_cons_of_mem _ (ih hx)

/-- The states of the frame a successful encode stores. -/
def stored (viewer : Nat) (x : ReplicationState K × EncodeCall K) : List EntityWireState :=
  frameStates (rowsOver (x.1.baseStates x.2.scene.tick) x.2.scene.current) (chosen viewer x)

theorem encode_stored {viewer : Nat} {x : ReplicationState K × EncodeCall K} (h : x.1.Ordered)
    (hsent : (x.2.apply viewer x.1).2.isSome = true) :
    x.2.scene.hasViewer = true ∧
      (x.2.apply viewer x.1).1.history = x.1.history.store x.2.scene.tick (stored viewer x) := by
  have heq := encode_eq x.2.nth x.1 x.2.wf (h.baseStates x.2.scene.tick) viewer
    x.2.lastInputSequence x.2.out x.2.capacity
  dsimp only at heq
  rw [EncodeCall.apply] at hsent ⊢
  split at heq
  · rw [heq] at hsent
    cases hsent
  next hdone =>
    rw [heq]
    simp only [not_or, Bool.not_eq_false] at hdone
    exact ⟨hdone.1, rfl⟩

section
theorem Credited.encode {s : ReplicationState K} (h : s.Credited) (nth : NthElement K)
    {scene : Scene K} (hscene : scene.WF) (viewer lastInputSequence : Nat) (out : Nat → UInt8)
    (capacity : Nat) : (s.encode nth scene viewer lastInputSequence out capacity).1.Credited := by
  refine ⟨h.toOrdered.encode nth hscene viewer lastInputSequence out capacity, fun c hc => ?_⟩
  have hplain := h.toOrdered.plain sentinel nth hscene viewer lastInputSequence out capacity
  cases hout : (s.encode nth scene viewer lastInputSequence out capacity).2 with
  | none =>
    rw [hplain.failed hout] at hc
    exact h.nonneg c hc
  | some bytes =>
    obtain ⟨i, state, -, -, -, -, hge⟩ := ((hplain.sent bytes hout).2.2 c.1 c.2).mp hc
    have hzero : (0.0 : K) = 0 := by norm_num
    rw [hzero, not_lt] at hge
    exact hge

theorem credited_act (s : ReplicationState K) (action : ReplicationAction K) (h : s.Credited) :
    (s.act action).Credited := by
  cases action with
  | configure config => exact ⟨ordered_act s (.configure config) h.toOrdered, h.nonneg⟩
  | reset => exact ⟨ordered_act s .reset h.toOrdered, fun c hc => by cases hc⟩
  | acknowledge tick => exact h.acknowledge tick
  | encode nth scene wf viewer lastInputSequence out capacity =>
    exact h.encode nth wf viewer lastInputSequence out capacity

theorem credited_run (config : InterestConfig K) (actions : List (ReplicationAction K)) :
    (Run.run act (configure config) actions).Credited :=
  Run.invariant_always Credited credited_act (credited_configure config) actions

variable {viewer : Nat}

/-- The credits before the encode with this number. -/
def creditsBefore (viewer : Nat) (s : ReplicationState K)
    (xs : List (ReplicationState K × EncodeCall K)) : Nat → List (Nat × K)
  | 0 => s.priority
  | t+1 => ((xs[t]?).map fun x => (x.2.apply viewer x.1).1.priority).getD []

/-- The encodes of a run follow one another: each meets the credits the last one left. -/
theorem encodes_at {s : ReplicationState K} (h : s.Credited) (actions : List (ViewerAction K))
    {t : Nat} {x : ReplicationState K × EncodeCall K}
    (hx : (encodes viewer s actions)[t]? = some x) :
    x.1.Credited ∧ x.1.config = s.config ∧ (x.2.apply viewer x.1).2.isSome = true ∧
      x.1.priority = creditsBefore viewer s (encodes viewer s actions) t := by
  induction actions generalizing s t with
  | nil => cases hx
  | cons action actions ih =>
    cases action with
    | acknowledge tick =>
      have hconfig : (s.acknowledge tick).config = s.config ∧
          (s.acknowledge tick).priority = s.priority := by
        unfold ReplicationState.acknowledge
        split
        · exact ⟨rfl, rfl⟩
        · exact ⟨rfl, rfl⟩
      obtain ⟨hcredited, hsame, hsent, hcredits⟩ := ih (h.acknowledge tick) hx
      refine ⟨hcredited, hsame.trans hconfig.1, hsent, hcredits.trans ?_⟩
      cases t with
      | zero => exact hconfig.2
      | succ t => rfl
    | encode call =>
      have hcredited : (call.apply viewer s).1.Credited :=
        h.encode call.nth call.wf viewer call.lastInputSequence call.out call.capacity
      have hplain := h.toOrdered.plain sentinel call.nth call.wf viewer call.lastInputSequence
        call.out call.capacity
      cases hout : (call.apply viewer s).2 with
      | none =>
        have hstate : (call.apply viewer s).1 = s := hplain.failed hout
        simp only [encodes, hout, hstate, Option.isSome_none, Bool.false_eq_true, if_false] at hx ⊢
        exact ih h hx
      | some bytes =>
        have hconfig : (call.apply viewer s).1.config = s.config :=
          (s.encode_keeps call.nth call.scene viewer call.lastInputSequence call.out
            call.capacity).1
        simp only [encodes, hout, Option.isSome_some, if_true] at hx ⊢
        cases t with
        | zero =>
          obtain rfl := Option.some.inj hx
          refine ⟨h, rfl, ?_, rfl⟩
          rw [hout]
          rfl
        | succ t =>
          obtain ⟨hlater, hsame, hsent, hcredits⟩ := ih hcredited hx
          refine ⟨hlater, hsame.trans hconfig, hsent, hcredits.trans ?_⟩
          cases t with
          | zero => rfl
          | succ t => rfl

/-- A run of encodes as rounds in which the entities bid for a place in the packet. -/
def rounds (viewer : Nat) (s : ReplicationState K)
    (xs : List (ReplicationState K × EncodeCall K)) : Aging.Rounds Nat K where
  taken t id := ∃ x, xs[t]? = some x ∧ Sends viewer x id
  passed t id := ∃ x, xs[t]? = some x ∧ Waits viewer x id
  credit t id := credit (creditsBefore viewer s xs t) id
  bid t id := ((xs[t]?).bind fun x => bid viewer x id).getD 0

section
variable {s : ReplicationState K} {xs : List (ReplicationState K × EncodeCall K)} {t : Nat}
  {x : ReplicationState K × EncodeCall K}

theorem rounds_taken (hx : xs[t]? = some x) (id : Nat) :
    (rounds viewer s xs).taken t id ↔ Sends viewer x id := by
  constructor
  · intro h
    obtain ⟨y, hy, hsends⟩ := h
    exact Option.some.inj (hy.symm.trans hx) ▸ hsends
  · exact fun hsends => ⟨x, hx, hsends⟩

theorem rounds_passed (hx : xs[t]? = some x) (id : Nat) :
    (rounds viewer s xs).passed t id ↔ Waits viewer x id := by
  constructor
  · intro h
    obtain ⟨y, hy, hwaits⟩ := h
    exact Option.some.inj (hy.symm.trans hx) ▸ hwaits
  · exact fun hwaits => ⟨x, hx, hwaits⟩

theorem rounds_bid (hx : xs[t]? = some x) {id : Nat} {p : K} (hp : bid viewer x id = some p) :
    (rounds viewer s xs).bid t id = p := by
  simp [rounds, hx, hp]

theorem rounds_credit (hcredits : x.1.priority = creditsBefore viewer s xs t) (id : Nat) :
    (rounds viewer s xs).credit t id = credit x.1.priority id := by
  simp [rounds, hcredits]

theorem rounds_credit_succ (hx : xs[t]? = some x) (id : Nat) :
    (rounds viewer s xs).credit (t+1) id = credit (x.2.apply viewer x.1).1.priority id := by
  simp [rounds, creditsBefore, hx]

end

/-- Exact priorities are an aging scheduler. -/
theorem rounds_fair {s : ReplicationState K} (h : s.Credited) (actions : List (ViewerAction K))
    (hfalloff : s.config.distancePriorityFalloff = 1)
    (hnear : ∀ x ∈ encodes viewer s actions, ∀ y ∈ x.2.scene.seen,
      0 ≤ y.closeness ∧ y.closeness ≤ 1) :
    (rounds viewer s (encodes viewer s actions)).Fair 0.01 1.01 viewer
      (encodes viewer s actions).length := by
  have hat : ∀ t < (encodes viewer s actions).length, ∃ x,
      (encodes viewer s actions)[t]? = some x ∧ x.1.Credited ∧
      x.1.config.distancePriorityFalloff = 1 ∧
      (∀ y ∈ x.2.scene.seen, 0 ≤ y.closeness ∧ y.closeness ≤ 1) ∧
      (x.2.apply viewer x.1).2.isSome = true ∧
      x.1.priority = creditsBefore viewer s (encodes viewer s actions) t := by
    intro t ht
    have hx := List.getElem?_eq_getElem ht
    obtain ⟨hcredited, hconfig, hsent, hcredits⟩ := encodes_at h actions hx
    exact ⟨_, hx, hcredited, hconfig ▸ hfalloff, hnear _ (List.getElem_mem ht), hsent, hcredits⟩
  generalize encodes viewer s actions = xs at hat
  constructor
  case start => exact credit_nonneg h
  case kept =>
    intro t ht id hw
    obtain ⟨x, hx, hcredited, hone, hclose, hsent, -⟩ := hat t ht
    rw [rounds_passed hx] at hw
    obtain ⟨p, hp⟩ := hw.1.exists_bid viewer
    rw [rounds_bid hx hp, rounds_credit_succ hx, (credit_after hcredited hone hclose hsent id).1 hw,
      hp, Option.getD_some]
  case lost =>
    intro t ht id hw
    obtain ⟨x, hx, hcredited, hone, hclose, hsent, -⟩ := hat t ht
    rw [rounds_passed hx] at hw
    rw [rounds_credit_succ hx, (credit_after hcredited hone hclose hsent id).2 hw]
  case least =>
    intro t ht id hw
    obtain ⟨x, hx, hcredited, hone, hclose, -, hcredits⟩ := hat t ht
    rw [rounds_passed hx] at hw
    obtain ⟨p, hp⟩ := hw.1.exists_bid viewer
    rw [rounds_bid hx hp, rounds_credit hcredits]
    exact (bid_gain hone hclose hp).1
  case most =>
    intro t ht id hne hany
    obtain ⟨x, hx, hcredited, hone, hclose, -, hcredits⟩ := hat t ht
    rw [rounds_passed hx, rounds_taken hx] at hany
    have hcand : IsCandidate x id := hany.elim And.left (sends_isCandidate hcredited.toOrdered)
    obtain ⟨p, hp⟩ := hcand.exists_bid viewer
    rw [rounds_bid hx hp, rounds_credit hcredits]
    exact (bid_gain hone hclose hp).2.1 hne
  case best =>
    intro t ht i j hi hj
    obtain ⟨x, hx, hcredited, -⟩ := hat t ht
    rw [rounds_taken hx] at hi
    rw [rounds_passed hx] at hj
    obtain ⟨p, hp⟩ := (sends_isCandidate hcredited.toOrdered hi).exists_bid viewer
    obtain ⟨q, hq⟩ := hj.1.exists_bid viewer
    rw [rounds_bid hx hp, rounds_bid hx hq]
    exact (deferred_contended hcredited.toOrdered hq hj.2).2 i p hi hp
  case apart =>
    intro t ht id hi hw
    obtain ⟨x, hx, -⟩ := hat t ht
    rw [rounds_taken hx] at hi
    rw [rounds_passed hx] at hw
    exact hw.2 hi

/-- Somebody other than the viewer is sent whenever somebody waits. -/
theorem waits_rival {x : ReplicationState K × EncodeCall K} (h : x.1.Ordered)
    (hroom : 2 ≤ room viewer x) {id : Nat} (hwaits : Waits viewer x id) :
    ∃ f, Sends viewer x f ∧ f ≠ viewer := by
  obtain ⟨p, hp⟩ := hwaits.1.exists_bid viewer
  exact sends_other (by
    rw [(deferred_contended h hp hwaits.2).1]
    exact hroom)

section
variable {s : ReplicationState K} (h : s.Credited) {actions : List (ViewerAction K)}
  (hfalloff : s.config.distancePriorityFalloff = 1)
  (hnear : ∀ x ∈ encodes viewer s actions, ∀ y ∈ x.2.scene.seen,
    0 ≤ y.closeness ∧ y.closeness ≤ 1)
  (hroom : ∀ x ∈ encodes viewer s actions, 2 ≤ room viewer x) {N : Nat}
  (hcount : ∀ x ∈ encodes viewer s actions, (contenders viewer x).length ≤ N)
include h hfalloff hnear hroom hcount

/-- Nobody waits in 102 × (N + 2) encodes in a row. -/
theorem not_waits {start : Nat}
    (hstart : start + 102 * (N + 2) ≤ (encodes viewer s actions).length) (id : Nat) :
    ¬ ∀ t, start ≤ t → t < start + 102 * (N + 2) →
      (rounds viewer s (encodes viewer s actions)).passed t id := by
  have hfair := rounds_fair h actions hfalloff hnear
  have hordered : ∀ {t : Nat} {x : ReplicationState K × EncodeCall K},
      (encodes viewer s actions)[t]? = some x → x.1.Ordered := fun hx =>
    (encodes_at h actions hx).1.toOrdered
  have hlt : start + (101 * N + 203) < (encodes viewer s actions).length := by omega
  have hx := List.getElem?_eq_getElem hlt
  obtain ⟨crowd, hcard, hmembers⟩ := waits_crowd viewer (hordered hx)
    (hcount _ (List.getElem_mem hlt))
  have hlength : 101 * N + 203 + N + 1 = 102 * (N + 2) := by ring
  rw [← hlength]
  refine hfair.not_passed (by norm_num) (by norm_num) (by omega) ?_ hcard (fun i hi => ?_)
    fun t ht hw => ?_
  · push_cast
    have : (0 : K) ≤ N := Nat.cast_nonneg N
    linarith
  · obtain ⟨y, hy, hwaits⟩ := hi
    obtain rfl := Option.some.inj (hy.symm.trans hx)
    exact hmembers i hwaits
  · obtain ⟨y, hy, hwaits⟩ := hw
    obtain ⟨f, hsends, hne⟩ := waits_rival (hordered hy) (hroom y (List.mem_of_getElem? hy)) hwaits
    exact ⟨f, ⟨y, hy, hsends⟩, hne⟩

end

section
variable {config : InterestConfig K} {actions : List (ViewerAction K)}
  (hfalloff : config.distancePriorityFalloff = 1)
  (hnear : ∀ x ∈ encodes viewer (configure config) actions, ∀ y ∈ x.2.scene.seen,
    0 ≤ y.closeness ∧ y.closeness ≤ 1)
  (hroom : ∀ x ∈ encodes viewer (configure config) actions, 2 ≤ room viewer x)
  (hcount : ∀ x ∈ encodes viewer (configure config) actions, (contenders viewer x).length ≤ 5000)
  {x : ReplicationState K × EncodeCall K} (hx : x ∈ encodes viewer (configure config) actions)
include hfalloff hnear hroom hcount hx

/-- From a new state nobody but the viewer gets a priority of a million, with up to 5000
candidates. -/
theorem viewer_sent (hcandidate : IsCandidate x viewer) : Sends viewer x viewer := by
  have h := credited_configure config
  have hfair := rounds_fair h actions hfalloff hnear
  obtain ⟨t, ht⟩ := List.getElem?_of_mem hx
  obtain ⟨hcredited, hconfig, -⟩ := encodes_at h actions ht
  have hlt := (List.getElem?_eq_some_iff.mp ht).1
  by_contra hdeferred
  obtain ⟨p, hp⟩ := hcandidate.exists_bid viewer
  have hmillion := (bid_gain (hconfig ▸ hfalloff) (hnear x hx) hp).2.2 rfl
  have hcredit := credit_nonneg hcredited viewer
  obtain ⟨f, hsends, hne⟩ := waits_rival hcredited.toOrdered (hroom x hx) ⟨hcandidate, hdeferred⟩
  obtain ⟨q, hq⟩ := (sends_isCandidate hcredited.toOrdered hsends).exists_bid viewer
  have hahead := (deferred_contended hcredited.toOrdered hp hdeferred).2 f q hsends hq
  have hbound := hfair.bid_le (by norm_num) (fun i => by
    have hzero : (0.0 : K) = 0 := by norm_num
    exact hzero) hne (fun start hstart => not_waits h hfalloff hnear hroom hcount hstart f) hlt
    (Or.inr ⟨x, ht, hsends⟩)
  rw [rounds_bid ht hq] at hbound
  norm_num at hbound hmillion
  linarith

/-- So its current state stands in the frame: it is sent, or the client has it already. -/
theorem viewer_in_frame {c : EntityWireState} (hc : c ∈ x.2.scene.current) (hid : c.id = viewer) :
    c ∈ stored viewer x := by
  subst hid
  obtain ⟨i, hi⟩ := List.getElem?_of_mem hc
  refine mem_frameStates.mpr ⟨i,
    (c, lookup EntityWireState.id (x.1.baseStates x.2.scene.tick) c.id),
    rowsOver_getElem?.mpr ⟨hi, rfl⟩, ?_⟩
  by_cases hsel : i ∈ chosen c.id x
  · rw [if_pos hsel]
  · rw [if_neg hsel]
    have hno : ¬ IsCandidate x c.id := fun hcandidate =>
      hsel ((sends_iff hi).mp (viewer_sent hfalloff hnear hroom hcount hx hcandidate))
    obtain ⟨y, hy, rfl⟩ : ∃ y ∈ x.2.scene.seen, y.state = c := Scene.mem_current.mp hc
    have hrow : (y, lookup EntityWireState.id (x.1.baseStates x.2.scene.tick) y.state.id) ∈
        x.1.rows x.2.scene :=
      List.mem_map.mpr ⟨y, List.mem_mergeSort.mpr hy, rfl⟩
    have hsame : (lookup EntityWireState.id (x.1.baseStates x.2.scene.tick) y.state.id).any
        y.state.sameStateAs = true := by
      by_contra hchanged
      exact hno ⟨_, hrow, rfl, by simpa using hchanged⟩
    cases hb : lookup EntityWireState.id (x.1.baseStates x.2.scene.tick) y.state.id with
    | none =>
      rw [hb] at hsame
      cases hsame
    | some b =>
      rw [hb] at hsame
      exact congrArg some (EntityWireState.eq_of_sameStateAs (lookup_key hb) hsame)

end

/-- An entity that is a candidate in 102 × (N + 2) successful encodes of a run is sent in one
of them. -/
theorem no_starvation (config : InterestConfig K) (before : List (ReplicationAction K))
    (actions : List (ViewerAction K)) {N : Nat} {entity : Nat}
    (hfalloff : (Run.run act (configure config) before).config.distancePriorityFalloff = 1)
    (hlength : (encodes viewer (Run.run act (configure config) before) actions).length =
      102 * (N + 2))
    (hnear : ∀ x ∈ encodes viewer (Run.run act (configure config) before) actions,
      ∀ y ∈ x.2.scene.seen, 0 ≤ y.closeness ∧ y.closeness ≤ 1)
    (hroom : ∀ x ∈ encodes viewer (Run.run act (configure config) before) actions,
      2 ≤ room viewer x)
    (hcount : ∀ x ∈ encodes viewer (Run.run act (configure config) before) actions,
      (contenders viewer x).length ≤ N)
    (hentity : ∀ x ∈ encodes viewer (Run.run act (configure config) before) actions,
      IsCandidate x entity) :
    ∃ x ∈ encodes viewer (Run.run act (configure config) before) actions,
      Sends viewer x entity := by
  by_contra hnever
  have hstart : 0 + 102 * (N + 2) ≤
      (encodes viewer (Run.run act (configure config) before) actions).length := by
    omega
  refine not_waits (credited_run config before) hfalloff hnear hroom hcount hstart entity
    fun t _ ht => ?_
  have hx := List.getElem?_eq_getElem (show t <
    (encodes viewer (Run.run act (configure config) before) actions).length by omega)
  have hmem := List.mem_of_getElem? hx
  exact ⟨_, hx, hentity _ hmem, fun hsends => hnever ⟨_, hmem, hsends⟩⟩

end

def interest : InterestConfig ℚ := { distancePriorityFalloff := 1 }

/-- A packet with room for two entities, and not for all that are in view. -/
structure EncodeCall.Cramped (call : EncodeCall ℚ) : Prop where
  viewer : call.scene.hasViewer = true
  size : call.capacity ≤ 65535
  two : 2 ≤ steadyRoom interest call.capacity
  contended : fits (8 * call.capacity) < call.scene.seen.length

/-- A state whose packets were never acknowledged, with any credits. -/
structure Unacked (s : ReplicationState ℚ) : Prop where
  config : s.config = interest
  unacked : s.hasAcked = false

namespace Unacked
variable {s : ReplicationState ℚ}

theorem baseStates (h : s.Unacked) (tick : Nat) : s.baseStates tick = [] := by
  simp [ReplicationState.baseStates, usableBaseline, baseline, h.unacked]

theorem previous (h : s.Unacked) {scene : Scene ℚ} {row : Seen ℚ × Option EntityWireState}
    (hrow : row ∈ s.rows scene) : row.2 = none := by
  obtain ⟨y, -, rfl⟩ := List.mem_map.mp hrow
  rw [h.baseStates]
  rfl

section
variable (h : s.Unacked) {call : EncodeCall ℚ} (hcall : call.Cramped) (viewer : Nat)
include h hcall

theorem encode :
    (call.apply viewer s).2.isSome = true ∧ (call.apply viewer s).1.Unacked ∧
      2 ≤ room viewer (s, call) := by
  have hbase := h.baseStates call.scene.tick
  have htwo := hcall.two
  rw [← h.config] at htwo
  obtain ⟨hsent, hroom⟩ := encode_steady call.nth call.wf hcall.viewer
    (by rw [hbase]; exact List.Pairwise.nil) (by rw [hbase]; simp) viewer
    call.lastInputSequence call.out hcall.size (by omega)
  obtain ⟨hconfig, hacked⟩ := s.encode_keeps call.nth call.scene viewer call.lastInputSequence
    call.out call.capacity
  exact ⟨hsent, ⟨hconfig.trans h.config, hacked.trans h.unacked⟩, htwo.trans hroom⟩

/-- Everything in view is a candidate, and somebody is left out. -/
theorem contended : (contenders viewer (s, call)).length = call.scene.seen.length ∧
    (chosen viewer (s, call)).length < call.scene.seen.length := by
  have hcount : (contenders viewer (s, call)).length = call.scene.seen.length :=
    contenders_length fun row hrow => h.previous hrow
  have hbudget : s.budget call.capacity < 2 ^ 29 - 4 := by
    have hmin := Nat.min_le_left call.capacity s.config.maxSnapshotBytes
    have hsize := hcall.size
    unfold budget
    omega
  have hfit := (s.encode_budgeted call.nth call.scene viewer call.lastInputSequence call.out
    hbudget).empty_iff.not.mp (Option.ne_none_iff_isSome.mpr (h.encode hcall viewer).1)
  obtain ⟨hclean, hplace⟩ := s.headerWriter_spec call.scene viewer call.lastInputSequence call.out
    hbudget
  obtain ⟨-, -, -, hremaining⟩ := hplace (hclean.mpr (by omega))
  have hroom : room viewer (s, call) ≤ fits (8 * call.capacity) := by
    refine fits_mono ?_
    have hmin : s.budget call.capacity ≤ call.capacity := Nat.min_le_left _ _
    rw [hremaining]
    omega
  have hless : room viewer (s, call) < (contenders viewer (s, call)).length :=
    hcount ▸ hroom.trans_lt hcall.contended
  refine ⟨hcount, ?_⟩
  rw [← hcount]
  exact (select_contended call.nth (candidates_increasing _) hless).1.trans_lt hless

end

/-- A run of such packets, whatever the credits. -/
theorem encodes (h : s.Unacked) (viewer : Nat) {calls : List (EncodeCall ℚ)}
    (hcalls : ∀ call ∈ calls, call.Cramped) :
    let xs := ReplicationState.encodes viewer s (calls.map .encode)
    xs.map Prod.snd = calls ∧ ∀ x ∈ xs, x.1.Unacked ∧ x.2.Cramped := by
  induction calls generalizing s with
  | nil => exact ⟨rfl, fun x hx => by cases hx⟩
  | cons call calls ih =>
    have hcall := hcalls call List.mem_cons_self
    obtain ⟨hsent, hnext, -⟩ := h.encode hcall viewer
    obtain ⟨hsame, hall⟩ := ih hnext fun c hc => hcalls c (List.mem_cons_of_mem _ hc)
    simp only [List.map_cons, ReplicationState.encodes, if_pos hsent]
    refine ⟨by rw [hsame], fun x hx => ?_⟩
    cases List.mem_cons.mp hx with
    | inl heq => exact heq ▸ ⟨h, hcall⟩
    | inr hmem => exact hall x hmem

end Unacked

/-- Players 1 and 2, a third one next to them, and an entity at the edge of the view. -/
def crowd (third : Nat) : Scene ℚ where
  tick := 1
  hasViewer := true
  seen := [⟨{ id := 9, px := 260 }, 0⟩, ⟨{ id := 1 }, 1⟩, ⟨{ id := third, px := 8 }, 1⟩,
    ⟨{ id := 2, py := 8 }, 1⟩]

theorem crowd_wf {third : Nat} (hnew : [9, 1, third, 2].Nodup) (hid : third < 2 ^ 32) :
    (crowd third).WF := by
  have htick : 1 < 2 ^ 32 := by decide
  refine ⟨htick, hnew, fun a ha => ?_⟩
  simp only [crowd, List.mem_cons, List.not_mem_nil, or_false] at ha
  obtain rfl | rfl | rfl | rfl := ha
  · decide
  · decide
  · have hplace : ({ id := 0, px := 8 } : EntityWireState).Fits := by decide
    exact { hplace with id := hid }
  · decide

/-- A packet of 46 bytes for the crowd. -/
def crammed (third : Nat) (h : (crowd third).WF) : EncodeCall ℚ where
  nth := .sorting ℚ
  scene := crowd third
  wf := h
  lastInputSequence := 0
  out := fun _ => 0
  capacity := 46

theorem cramped_crammed (third : Nat) (h : (crowd third).WF) : (crammed third h).Cramped where
  viewer := rfl
  size := show 46 ≤ 65535 by decide
  two := show 2 ≤ steadyRoom interest 46 by decide
  contended := show fits (8 * 46) < 4 by decide

/-- The third player goes and another one comes, over and over. -/
def comings : List (EncodeCall ℚ) :=
  (List.replicate 306 [crammed 3 (crowd_wf (by decide) (by decide)),
    crammed 5 (crowd_wf (by decide) (by decide))]).flatten

theorem comings_crammed {call : EncodeCall ℚ} (h : call ∈ comings) :
    ∃ third hwf, call = crammed third hwf := by
  obtain ⟨calls, hcalls, hmem⟩ := List.mem_flatten.mp h
  rw [(List.mem_replicate.mp hcalls).2] at hmem
  simp only [List.mem_cons, List.not_mem_nil, or_false] at hmem
  obtain rfl | rfl := hmem
  · exact ⟨3, _, rfl⟩
  · exact ⟨5, _, rfl⟩

/-- Every packet leaves somebody out of four, and the entity at the edge gains least: it is
sent all the same. -/
theorem no_starvation_edge :
    let s := Run.run act (configure interest) []
    let xs := encodes 1 s (comings.map .encode)
    xs.length = 102 * (4 + 2) ∧
      (∀ x ∈ xs, (contenders 1 x).length = 4 ∧ (chosen 1 x).length < 4) ∧
      ∃ x ∈ xs, Sends 1 x 9 := by
  intro s xs
  have hcrammed : ∀ x ∈ xs, ∃ third hwf, x.2 = crammed third hwf := fun x hx => by
    obtain ⟨call, hcall, heq⟩ := List.mem_map.mp (mem_encodes hx)
    exact ViewerAction.encode.inj heq ▸ comings_crammed hcall
  obtain ⟨hcalls, hall⟩ := Unacked.encodes (s := s) ⟨rfl, rfl⟩ 1 fun call hcall => by
    obtain ⟨third, hwf, rfl⟩ := comings_crammed hcall
    exact cramped_crammed third hwf
  have hseen : ∀ x ∈ xs, ∃ third, x.2.scene.seen = (crowd third).seen := fun x hx => by
    obtain ⟨third, hwf, heq⟩ := hcrammed x hx
    exact ⟨third, by rw [heq]; rfl⟩
  have hcontended : ∀ x ∈ xs, (contenders 1 x).length = 4 ∧ (chosen 1 x).length < 4 := by
    intro x hx
    obtain ⟨third, heq⟩ := hseen x hx
    have h := (hall x hx).1.contended (hall x hx).2 1
    rwa [heq] at h
  have hlength : xs.length = 102 * (4 + 2) := by
    rw [← List.length_map Prod.snd, hcalls]
    decide +kernel
  refine ⟨hlength, hcontended, no_starvation interest [] _ rfl hlength (fun x hx y hy => ?_)
    (fun x hx => ((hall x hx).1.encode (hall x hx).2 1).2.2) (fun x hx => (hcontended x hx).1.le)
    fun x hx => ?_⟩
  · obtain ⟨third, heq⟩ := hseen x hx
    rw [heq] at hy
    simp only [crowd, List.mem_cons, List.not_mem_nil, or_false] at hy
    obtain rfl | rfl | rfl | rfl := hy <;> norm_num
  · obtain ⟨third, heq⟩ := hseen x hx
    have hedge : (⟨{ id := 9, px := 260 }, 0⟩ : Seen ℚ) ∈ x.2.scene.seen :=
      heq ▸ List.mem_cons_self
    obtain ⟨row, hrow, hstate⟩ : ∃ row ∈ x.1.rows x.2.scene, row.1 = ⟨{ id := 9, px := 260 }, 0⟩ :=
      ⟨_, List.mem_map.mpr ⟨_, List.mem_mergeSort.mpr hedge, rfl⟩, rfl⟩
    refine ⟨row, hrow, by rw [hstate], ?_⟩
    rw [(hall x hx).1.previous hrow]
    rfl

end ReplicationState
end Morton.Proto
