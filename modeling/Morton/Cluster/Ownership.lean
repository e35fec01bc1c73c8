import Morton.Cluster.Matchmaker

/-! Who owns a region. Every process sorts the ids it keeps of one registry snapshot and
deals the regions out in turn; a draining shard keeps its own id, which nobody else does. -/
namespace Morton.Cluster
open Proto

section Dealing
variable {α : Type*} (r : α → α → Prop) [DecidableRel r]

/-- In a sorted list the elements that do not follow `a` come first. -/
theorem takeWhile_eq_filter_of_sorted [IsTrans α r] {l : List α} (hsorted : l.Pairwise r) (a : α) :
    l.takeWhile (fun b => ¬ r a b) = l.filter (fun b => ¬ r a b) := by
  induction l with
  | nil => rfl
  | cons b l ih =>
    rw [List.pairwise_cons] at hsorted
    by_cases hab : r a b
    · have hall : ∀ c ∈ l, r a c := fun c hc => IsTrans.trans _ _ _ hab (hsorted.1 c hc)
      simpa [hab] using hall
    · have htail := ih hsorted.2
      simpa [hab] using htail

/-- Sorting one more element is inserting it into the sorted rest. -/
theorem insertionSort_of_perm_cons [IsTrans α r] [Std.Total r] [Std.Antisymm r] {xs ys : List α}
    {a : α} (h : xs.Perm (a :: ys)) :
    xs.insertionSort r = (ys.insertionSort r).orderedInsert r a := by
  have hperm : (xs.insertionSort r).Perm ((ys.insertionSort r).orderedInsert r a) := by
    apply (List.perm_insertionSort r xs).trans
    apply h.trans
    apply List.Perm.symm
    exact (List.perm_orderedInsert r a _).trans ((List.perm_insertionSort r ys).cons a)
  exact hperm.eq_of_pairwise' (List.pairwise_insertionSort r xs)
    ((List.pairwise_insertionSort r ys).orderedInsert a _)

end Dealing

@[simp] theorem assignRegions_length (ids : List Bytes) (n : Nat) :
    (assignRegions ids n).length = n := by
  simp [assignRegions]

theorem assignRegions_getD {ids : List Bytes} {n region : Nat} (hregion : region < n)
    (hids : ids ≠ []) : (assignRegions ids n).getD region [] = ids.getD (region % ids.length) [] := by
  simp [assignRegions, hregion, hids]

/-- One more id in the deal shows as soon as a region reaches it. -/
theorem assignRegions_insert (below above : List Bytes) {id : Bytes}
    (hid : id ∉ below ++ above) (n : Nat) :
    assignRegions (below ++ id :: above) n = assignRegions (below ++ above) n ↔
      n ≤ below.length ∨ (below ++ above = [] ∧ id = []) := by
  constructor
  · intro h
    by_contra hneg
    rw [not_or, Nat.not_le] at hneg
    obtain ⟨hn, hempty⟩ := hneg
    have hat : id = (assignRegions (below ++ above) n).getD below.length [] := by
      rw [← h, assignRegions_getD hn (by simp), Nat.mod_eq_of_lt (by simp)]
      simp
    by_cases hnil : below ++ above = []
    · rw [hnil] at hat
      exact hempty ⟨hnil, by simpa [assignRegions, hn] using hat⟩
    · rw [assignRegions_getD hn hnil] at hat
      have hlt := Nat.mod_lt below.length (List.length_pos_iff.mpr hnil)
      rw [List.getD_eq_getElem _ _ hlt] at hat
      exact hid (hat ▸ List.getElem_mem hlt)
  · rintro (hn | ⟨hnil, rfl⟩)
    · refine List.map_congr_left fun region hregion => ?_
      have hregion : region < below.length := by
        have := List.mem_range.mp hregion
        omega
      have hbelow : below ≠ [] := by
        rintro rfl
        exact absurd hregion (by simp)
      have hlong : region < (below ++ id :: above).length := by simp; omega
      have hshort : region < (below ++ above).length := by simp; omega
      rw [Nat.mod_eq_of_lt hlong, Nat.mod_eq_of_lt hshort]
      simp [hbelow, List.getElem?_append_left hregion]
    · rw [List.append_eq_nil_iff] at hnil
      rw [hnil.1, hnil.2]
      refine List.map_congr_left fun region _ => ?_
      simp

/-- The ids of the shards that are not draining, in the order of the deal. -/
def keptIds (members : List ShardInfo) : List Bytes :=
  ((members.filter fun shard => !shard.draining).map ShardInfo.id).insertionSort (· ≤ ·)

namespace Matchmaker

/-- The map `assign` derives from the shards that are not draining. -/
def regionOwners (m : Matchmaker) (live : List ShardInfo) : List Bytes :=
  assignRegions (keptIds live) m.regionCount

theorem claimRegion_eq (m : Matchmaker) (live : List ShardInfo) (chosen : ShardInfo) :
    m.claimRegion live chosen =
      ((List.range (m.regionOwners live).length).find? fun region =>
        (m.regionOwners live).getD region [] == chosen.id).getD 0 := rfl

end Matchmaker

/-- Every listed shard derives the matchmaker's map, and unless all are draining exactly
one of them takes a region for its own. -/
def OwnershipAgreed (m : Matchmaker) (members : List ShardInfo) : Prop :=
  (∀ c : ShardCoordinator, c.config.id ∈ members.map ShardInfo.id →
    c.config.regionCount = m.regionCount →
      (c.recomputeOwnership members).regionOwner = m.regionOwners members) ∧
  ((∃ shard ∈ members, shard.draining = false) → ∀ region < m.regionCount,
    ∃! shard, shard ∈ members ∧ ∀ c : ShardCoordinator, c.config.id = shard.id →
      c.config.regionCount = m.regionCount →
        (c.recomputeOwnership members).ownsRegion region = true)

/-- The shards that keep their regions and come before `id` in the deal. -/
def rankAmongKept (members : List ShardInfo) (id : Bytes) : Nat :=
  (members.filter fun shard => !shard.draining && decide (shard.id < id)).length

section Snapshot
variable {members : List ShardInfo}

/-- An observer that is not draining keeps what the matchmaker keeps. -/
theorem keptBy_accepting (hdistinct : (members.map ShardInfo.id).Nodup) {shard : ShardInfo}
    (hmem : shard ∈ members) (hdraining : shard.draining = false) :
    (members.filter fun other => !(other.draining && other.id != shard.id)) =
      members.filter fun other => !other.draining := by
  refine List.filter_congr fun other hother => ?_
  by_cases hid : other.id = shard.id
  · have hsame : other = shard := List.inj_on_of_nodup_map hdistinct hother hmem hid
    simp [hsame, hdraining]
  · simp [hid]

/-- A draining observer keeps one id more than the matchmaker, its own. -/
theorem keptBy_draining (hdistinct : (members.map ShardInfo.id).Nodup) {shard : ShardInfo}
    (hmem : shard ∈ members) (hdraining : shard.draining = true) :
    ((members.filter fun other => !(other.draining && other.id != shard.id)).map
      ShardInfo.id).Perm
        (shard.id :: (members.filter fun other => !other.draining).map ShardInfo.id) := by
  obtain ⟨before, after, rfl⟩ := List.append_of_mem hmem
  rw [List.map_append, List.map_cons] at hdistinct
  have hothers : ∀ other ∈ before ++ after, other.id ≠ shard.id := by
    intro other hother hid
    have hfresh : shard.id ∉ (before ++ after).map ShardInfo.id := by
      rw [List.map_append]
      exact (List.nodup_cons.mp (List.nodup_middle.mp hdistinct)).1
    exact hfresh (hid ▸ List.mem_map_of_mem hother)
  have hcongr : ∀ part : List ShardInfo, (∀ other ∈ part, other ∈ before ++ after) →
      (part.filter fun other => !(other.draining && other.id != shard.id)) =
        part.filter fun other => !other.draining := by
    intro part hpart
    refine List.filter_congr fun other hother => ?_
    simp [hothers other (hpart other hother)]
  rw [List.filter_append, List.filter_append, List.filter_cons, List.filter_cons,
    hcongr before (fun other h => List.mem_append_left _ h),
    hcongr after (fun other h => List.mem_append_right _ h)]
  simp [hdraining, List.perm_middle]

theorem mem_keptIds {id : Bytes} :
    id ∈ keptIds members ↔ ∃ shard ∈ members, shard.draining = false ∧ shard.id = id := by
  simp [keptIds, and_assoc]

theorem keptIds_eq_nil : keptIds members = [] ↔ ∀ shard ∈ members, shard.draining = true := by
  rw [keptIds, ← List.length_eq_zero_iff, List.length_insertionSort]
  simp

/-- The place of an id in the deal is the number of kept ids below it. -/
theorem takeWhile_keptIds_length (id : Bytes) :
    ((keptIds members).takeWhile fun other => ¬ id ≤ other).length = rankAmongKept members id := by
  rw [keptIds, takeWhile_eq_filter_of_sorted _ (List.pairwise_insertionSort _ _),
    ((List.perm_insertionSort _ _).filter _).length_eq, List.filter_map, List.length_map,
    List.filter_filter]
  unfold rankAmongKept
  congr 1
  refine List.filter_congr fun other _ => ?_
  simp [Bool.and_comm]

/-- The draining shard's map is the matchmaker's only while no region reaches its id. -/
theorem regionOwner_of_draining {m : Matchmaker} {c : ShardCoordinator} {shard : ShardInfo}
    (hdistinct : (members.map ShardInfo.id).Nodup) (hmem : shard ∈ members)
    (hdraining : shard.draining = true) (hid : c.config.id = shard.id)
    (hcount : c.config.regionCount = m.regionCount) :
    (c.recomputeOwnership members).regionOwner = m.regionOwners members ↔
      m.regionCount ≤ rankAmongKept members shard.id ∨
        ((∀ other ∈ members, other.draining = true) ∧ shard.id = []) := by
  have hfresh : shard.id ∉ keptIds members := by
    intro hin
    obtain ⟨other, hother, hkeeps, hsame⟩ := mem_keptIds.mp hin
    rw [List.inj_on_of_nodup_map hdistinct hother hmem hsame, hdraining] at hkeeps
    cases hkeeps
  have hsplit := List.takeWhile_append_dropWhile (p := fun id => ¬ shard.id ≤ id)
    (l := keptIds members)
  have howner : (c.recomputeOwnership members).regionOwner =
      assignRegions (((keptIds members).takeWhile fun id => ¬ shard.id ≤ id) ++
        shard.id :: ((keptIds members).dropWhile fun id => ¬ shard.id ≤ id)) m.regionCount := by
    simp only [ShardCoordinator.recomputeOwnership, hid, hcount]
    rw [insertionSort_of_perm_cons (· ≤ ·) (keptBy_draining hdistinct hmem hdraining),
      List.orderedInsert_eq_take_drop, keptIds]
  have hdeal := assignRegions_insert ((keptIds members).takeWhile fun id => ¬ shard.id ≤ id)
    ((keptIds members).dropWhile fun id => ¬ shard.id ≤ id) (hsplit ▸ hfresh) m.regionCount
  rw [hsplit, takeWhile_keptIds_length, keptIds_eq_nil] at hdeal
  rw [howner]
  exact hdeal

theorem regionOwner_of_accepting {m : Matchmaker} {c : ShardCoordinator} {shard : ShardInfo}
    (hdistinct : (members.map ShardInfo.id).Nodup) (hmem : shard ∈ members)
    (hdraining : shard.draining = false) (hid : c.config.id = shard.id)
    (hcount : c.config.regionCount = m.regionCount) :
    (c.recomputeOwnership members).regionOwner = m.regionOwners members := by
  simp only [ShardCoordinator.recomputeOwnership, Matchmaker.regionOwners, keptIds, hid, hcount,
    keptBy_accepting hdistinct hmem hdraining]

/-- Every region of the matchmaker's map has a listed owner unless all are draining. -/
theorem regionOwners_listed {m : Matchmaker} {shard : ShardInfo} (hmem : shard ∈ members)
    (hdraining : shard.draining = false) {region : Nat} (hregion : region < m.regionCount) :
    ∃ owner ∈ members, (m.regionOwners members).getD region [] = owner.id := by
  have hkept : keptIds members ≠ [] := by
    intro hnil
    have := keptIds_eq_nil.mp hnil shard hmem
    rw [hdraining] at this
    cases this
  have hlt := Nat.mod_lt region (List.length_pos_iff.mpr hkept)
  have howner : (keptIds members).getD (region % (keptIds members).length) [] ∈
      keptIds members := by
    rw [List.getD_eq_getElem _ _ hlt]
    exact List.getElem_mem hlt
  obtain ⟨owner, hlisted, -, hid⟩ := mem_keptIds.mp howner
  exact ⟨owner, hlisted, by rw [Matchmaker.regionOwners, assignRegions_getD hregion hkept, hid]⟩

theorem ownsRegion_iff {m : Matchmaker} {c : ShardCoordinator}
    (hagrees : (c.recomputeOwnership members).regionOwner = m.regionOwners members)
    {region : Nat} (hregion : region < m.regionCount) :
    (c.recomputeOwnership members).ownsRegion region = true ↔
      (m.regionOwners members).getD region [] = c.config.id := by
  have hlength : (m.regionOwners members).length = m.regionCount := assignRegions_length _ _
  simp only [ShardCoordinator.ownsRegion, ShardCoordinator.ownerOfRegion, hagrees, hlength,
    hregion, decide_true, Bool.true_and, beq_iff_eq]
  rfl

/-- The processes agree exactly when no draining shard's own id is reached by the deal. -/
theorem ownership_agreed_iff (m : Matchmaker) (members : List ShardInfo)
    (hdistinct : (members.map ShardInfo.id).Nodup) :
    OwnershipAgreed m members ↔
      ∀ shard ∈ members, shard.draining = true →
        m.regionCount ≤ rankAmongKept members shard.id ∨
          ((∀ other ∈ members, other.draining = true) ∧ shard.id = []) := by
  constructor
  · rintro ⟨hmap, -⟩ shard hmem hdraining
    have hsame := hmap { config := { id := shard.id, regionCount := m.regionCount } }
      (List.mem_map_of_mem hmem) rfl
    exact (regionOwner_of_draining hdistinct hmem hdraining rfl rfl).mp hsame
  · intro hreach
    have hmap : ∀ c : ShardCoordinator, c.config.id ∈ members.map ShardInfo.id →
        c.config.regionCount = m.regionCount →
          (c.recomputeOwnership members).regionOwner = m.regionOwners members := by
      intro c hlisted hcount
      obtain ⟨shard, hmem, hid⟩ := List.mem_map.mp hlisted
      cases hdraining : shard.draining with
      | false => exact regionOwner_of_accepting hdistinct hmem hdraining hid.symm hcount
      | true =>
        exact (regionOwner_of_draining hdistinct hmem hdraining hid.symm hcount).mpr
          (hreach shard hmem hdraining)
    refine ⟨hmap, ?_⟩
    rintro ⟨shard, hmem, hdraining⟩ region hregion
    obtain ⟨owner, howner, hid⟩ := regionOwners_listed (m := m) hmem hdraining hregion
    refine ⟨owner, ⟨howner, fun c hc hcount => ?_⟩, ?_⟩
    · have hagrees := hmap c (hc ▸ List.mem_map_of_mem howner) hcount
      rw [ownsRegion_iff hagrees hregion, hid, hc]
    · rintro other ⟨hother, howns⟩
      have hagrees := hmap { config := { id := other.id, regionCount := m.regionCount } }
        (List.mem_map_of_mem hother) rfl
      have hnamed := (ownsRegion_iff hagrees hregion).mp (howns _ rfl rfl)
      exact List.inj_on_of_nodup_map hdistinct hother howner (hnamed.symm.trans hid)

end Snapshot

/-- A draining shard first in the order, beside one that accepts. -/
def drainingFirst : List ShardInfo :=
  [{ id := [97], capacity := 10, draining := true }, { id := [98], capacity := 10 }]

theorem ownership_split :
    (drainingFirst.map ShardInfo.id).Nodup ∧ ¬ OwnershipAgreed {} drainingFirst := by
  refine ⟨by decide, fun h => ?_⟩
  have hmap := h.1 { config := { id := [97] } } (by decide) rfl
  exact absurd hmap (by decide +kernel)

/-- A draining shard behind as many accepting ones as there are regions does no harm. -/
theorem ownership_agreed_behind :
    OwnershipAgreed { regionCount := 1 }
      [{ id := [98], capacity := 10, draining := true }, { id := [97], capacity := 10 }] := by
  refine (ownership_agreed_iff _ _ (by decide)).mpr ?_
  decide +kernel

end Morton.Cluster
