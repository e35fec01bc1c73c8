import Mathlib.Tactic.Linarith
import Mathlib.Tactic.NormNum
import Morton.Base.Contest
import Morton.Cluster.Matchmaker

/-! Which shard `pick_shard` takes. Loads that differ by at most the tolerance are told apart
by the id, so the comparison is not transitive. -/
namespace Morton.Cluster
open Proto
namespace ShardInfo

/-- `shard` takes the place of `best` in the loop of `pick_shard`. -/
def Beats (shard best : ShardInfo) : Prop :=
  shard.loadFactor - best.loadFactor < -(1 / 10000) ∨
    (shard.loadFactor - best.loadFactor ≤ 1 / 10000 ∧ shard.id < best.id)

instance : DecidableRel Beats := fun shard best =>
  inferInstanceAs (Decidable (shard.loadFactor - best.loadFactor < -(1 / 10000) ∨
    (shard.loadFactor - best.loadFactor ≤ 1 / 10000 ∧ shard.id < best.id)))

/-- Of two shards exactly one beats the other. -/
theorem beats_iff_not {a b : ShardInfo} (h : a.id ≠ b.id) : a.Beats b ↔ ¬ b.Beats a := by
  unfold Beats
  constructor
  · intro hab hba
    cases hab with
    | inl hab =>
      cases hba with
      | inl hba => linarith
      | inr hba => linarith [hba.1]
    | inr hab =>
      cases hba with
      | inl hba => linarith [hab.1]
      | inr hba => exact List.lt_asymm hab.2 hba.2
  · intro hba
    rw [not_or, not_and] at hba
    obtain ⟨hlow, hids⟩ := hba
    have hlow := not_lt.mp hlow
    by_cases hnear : b.loadFactor - a.loadFactor ≤ 1 / 10000
    · have hid := List.le_iff_lt_or_eq.mp (List.not_lt.mp (hids hnear))
      exact Or.inr ⟨by linarith, hid.resolve_right h⟩
    · exact Or.inl (by linarith [not_le.mp hnear])

end ShardInfo

namespace Matchmaker

theorem pickBetter_some {shard current : ShardInfo} (h : shard.accepting = true) :
    pickBetter (some current) shard = if shard.Beats current then some shard else some current := by
  unfold pickBetter
  rw [h, Bool.not_true, if_neg Bool.false_ne_true]
  dsimp only
  by_cases hlow : shard.loadFactor - current.loadFactor < -(1 / 10000)
  · rw [if_pos hlow, if_pos (show shard.Beats current from Or.inl hlow)]
  · rw [if_neg hlow]
    by_cases hnear : shard.loadFactor - current.loadFactor ≤ 1 / 10000 ∧ shard.id < current.id
    · rw [if_pos hnear, if_pos (show shard.Beats current from Or.inr hnear)]
    · rw [if_neg hnear, if_neg (show ¬ shard.Beats current from not_or.mpr ⟨hlow, hnear⟩)]

/-- The loop is a contest among the accepting shards. -/
theorem pickShard_eq (live : List ShardInfo) :
    pickShard live = Contest.winner ShardInfo.Beats (live.filter ShardInfo.accepting) := by
  unfold pickShard Contest.winner
  rw [List.foldl_filter]
  congr 1
  funext best shard
  cases haccepting : shard.accepting with
  | false => simp [pickBetter, haccepting]
  | true =>
    rw [if_pos rfl]
    cases best with
    | none => simp [pickBetter, Contest.defend, haccepting]
    | some current => exact pickBetter_some haccepting

/-- The same choice in every order: an accepting shard whose load is within the tolerance of
the lowest, or none when none accepts. -/
structure Deterministic (live : List ShardInfo) : Prop where
  stable : ∀ order : List ShardInfo, order.Perm live → pickShard order = pickShard live
  least : ∀ chosen, pickShard live = some chosen → chosen ∈ live ∧ chosen.accepting ∧
    ∀ shard ∈ live, shard.accepting → chosen.loadFactor ≤ shard.loadFactor + 1 / 10000
  none : pickShard live = none → ∀ shard ∈ live, shard.accepting = false

/-- One accepting shard stands out: every other one has a load higher by more than the
tolerance, or one within the tolerance and a larger id. -/
def StandsOut (live : List ShardInfo) (chosen : ShardInfo) : Prop :=
  chosen ∈ live ∧ chosen.accepting ∧ ∀ shard ∈ live, shard.accepting → shard ≠ chosen →
    chosen.loadFactor + 1 / 10000 < shard.loadFactor ∨
      (|chosen.loadFactor - shard.loadFactor| ≤ 1 / 10000 ∧ chosen.id < shard.id)

/-- Standing out is beating all others. -/
theorem standsOut_iff_champion {live : List ShardInfo}
    (hids : (live.map ShardInfo.id).Nodup) {chosen : ShardInfo} :
    StandsOut live chosen ↔
      Contest.Champion ShardInfo.Beats (live.filter ShardInfo.accepting) chosen := by
  have hdistinct : ∀ shard ∈ live, chosen ∈ live → shard ≠ chosen → chosen.id ≠ shard.id :=
    fun shard hshard hchosen hne heq =>
      hne (List.inj_on_of_nodup_map hids hshard hchosen heq.symm)
  constructor
  · intro h
    obtain ⟨hmem, haccepting, hothers⟩ := h
    have hbeats : ∀ shard ∈ live.filter ShardInfo.accepting, shard ≠ chosen →
        chosen.Beats shard := by
      intro shard hshard hne
      rw [List.mem_filter] at hshard
      cases hothers shard hshard.1 hshard.2 hne with
      | inl hfar => exact Or.inl (by linarith)
      | inr hnear => exact Or.inr ⟨(abs_le.mp hnear.1).2, hnear.2⟩
    constructor
    case mem => exact List.mem_filter.mpr ⟨hmem, haccepting⟩
    case unbeaten =>
      intro shard hshard hne
      have hid := hdistinct shard (List.mem_filter.mp hshard).1 hmem hne
      exact (ShardInfo.beats_iff_not hid).mp (hbeats shard hshard hne)
    case beats_all => exact hbeats
  · intro h
    obtain ⟨hmem, haccepting⟩ := List.mem_filter.mp h.mem
    refine ⟨hmem, haccepting, ?_⟩
    intro shard hshard hopen hne
    have hfiltered := List.mem_filter.mpr ⟨hshard, hopen⟩
    by_cases hfar : chosen.loadFactor + 1 / 10000 < shard.loadFactor
    · exact Or.inl hfar
    · right
      cases h.beats_all shard hfiltered hne with
      | inl hlower => linarith
      | inr hnear => exact ⟨abs_le.mpr ⟨by linarith, hnear.1⟩, hnear.2⟩

/-- Where one shard stands out, it is taken. -/
theorem pickShard_of_standsOut {live : List ShardInfo} (hids : (live.map ShardInfo.id).Nodup)
    {chosen : ShardInfo} (h : StandsOut live chosen) : pickShard live = some chosen := by
  rw [pickShard_eq]
  exact Contest.winner_of_champion ((standsOut_iff_champion hids).mp h)

/-- A choice that does not depend on the order wins in every order of the accepting shards: each
is an order of the whole list, with the others after them. -/
theorem Deterministic.wins {live : List ShardInfo} (h : Deterministic live)
    {order : List ShardInfo} (horder : order.Perm (live.filter ShardInfo.accepting)) :
    Contest.winner ShardInfo.Beats order = pickShard live := by
  have hwhole : (order ++ live.filter fun shard => !shard.accepting).Perm live :=
    (horder.append_right _).trans (List.filter_append_perm ShardInfo.accepting live)
  have hstable := h.stable _ hwhole
  have hsame : order.filter ShardInfo.accepting = order :=
    List.filter_eq_self.mpr fun shard hshard =>
      (List.mem_filter.mp (horder.mem_iff.mp hshard)).2
  have hrest : (live.filter fun shard => !shard.accepting).filter ShardInfo.accepting = [] := by
    rw [List.filter_filter]
    simp
  rw [pickShard_eq, List.filter_append, hsame, hrest, List.append_nil] at hstable
  exact hstable

theorem Deterministic.standsOut {live : List ShardInfo} (h : Deterministic live)
    (hids : (live.map ShardInfo.id).Nodup) {chosen : ShardInfo}
    (hpick : pickShard live = some chosen) : StandsOut live chosen := by
  obtain ⟨hmem, haccepting, -⟩ := h.least chosen hpick
  have hunbeaten : ∀ shard ∈ live.filter ShardInfo.accepting, shard ≠ chosen →
      ¬ shard.Beats chosen := fun shard hshard =>
    Contest.unbeaten_of_stable (fun order horder => (h.wins horder).trans hpick) hshard
  apply (standsOut_iff_champion hids).mpr
  refine ⟨List.mem_filter.mpr ⟨hmem, haccepting⟩, hunbeaten, ?_⟩
  intro shard hshard hne
  have hid : chosen.id ≠ shard.id := fun heq =>
    hne (List.inj_on_of_nodup_map hids (List.mem_filter.mp hshard).1 hmem heq.symm)
  exact (ShardInfo.beats_iff_not hid).mpr (hunbeaten shard hshard hne)

theorem deterministic_of_closed {live : List ShardInfo}
    (hclosed : ∀ shard ∈ live, shard.accepting = false) : Deterministic live := by
  have hnone : ∀ order : List ShardInfo, order.Perm live → pickShard order = none := by
    intro order horder
    rw [pickShard_eq, Contest.winner_eq_none_iff, List.filter_eq_nil_iff]
    intro shard hshard
    simp [hclosed shard (horder.mem_iff.mp hshard)]
  have hlive := hnone live (List.Perm.refl live)
  constructor
  case stable =>
    intro order horder
    rw [hnone order horder, hlive]
  case least =>
    intro chosen hpick
    rw [hlive] at hpick
    cases hpick
  case none => exact fun _ => hclosed

theorem StandsOut.least {live : List ShardInfo} {chosen : ShardInfo} (h : StandsOut live chosen)
    {shard : ShardInfo} (hshard : shard ∈ live) (haccepting : shard.accepting) :
    chosen.loadFactor ≤ shard.loadFactor + 1 / 10000 := by
  by_cases heq : shard = chosen
  · rw [heq]
    linarith
  · cases h.2.2 shard hshard haccepting heq with
    | inl hfar => linarith
    | inr hnear => linarith [(abs_le.mp hnear.1).2]

theorem StandsOut.deterministic {live : List ShardInfo} {chosen : ShardInfo}
    (h : StandsOut live chosen) (hids : (live.map ShardInfo.id).Nodup) : Deterministic live := by
  have hlive := pickShard_of_standsOut hids h
  constructor
  case stable =>
    intro order horder
    have hout : StandsOut order chosen :=
      ⟨horder.mem_iff.mpr h.1, h.2.1, fun shard hshard => h.2.2 shard (horder.mem_iff.mp hshard)⟩
    rw [hlive, pickShard_of_standsOut ((horder.map ShardInfo.id).nodup_iff.mpr hids) hout]
  case least =>
    intro other hpick
    rw [hlive] at hpick
    obtain rfl := Option.some.inj hpick
    exact ⟨h.1, h.2.1, fun shard hshard => h.least hshard⟩
  case none =>
    intro hpick
    rw [hlive] at hpick
    cases hpick

/-- The order does not matter, and the load is the least up to the tolerance, exactly when no
shard accepts or one of them stands out. -/
theorem pickShard_deterministic_iff {live : List ShardInfo}
    (hids : (live.map ShardInfo.id).Nodup) :
    Deterministic live ↔
      (∀ shard ∈ live, shard.accepting = false) ∨ ∃ chosen, StandsOut live chosen := by
  constructor
  · intro h
    cases hpick : pickShard live with
    | none => exact Or.inl (h.none hpick)
    | some chosen => exact Or.inr ⟨chosen, h.standsOut hids hpick⟩
  · intro h
    cases h with
    | inl hclosed => exact deterministic_of_closed hclosed
    | inr hout =>
      obtain ⟨chosen, hout⟩ := hout
      exact hout.deterministic hids

/-- Loads 0, 0.00008 and 0.00016, and the ids the other way round. -/
def creeping : List ShardInfo :=
  [{ id := [99], playerCount := 0, capacity := 12500 },
    { id := [98], playerCount := 1, capacity := 12500 },
    { id := [97], playerCount := 2, capacity := 12500 }]

/-- In this order the highest load is taken, in the other one the lowest. -/
theorem creeping_depends_on_order :
    (pickShard creeping).map ShardInfo.playerCount = some 2 ∧
      (pickShard creeping.reverse).map ShardInfo.playerCount = some 0 ∧
      ¬ Deterministic creeping := by
  have hhigh : (pickShard creeping).map ShardInfo.playerCount = some 2 := by decide +kernel
  have hlow : (pickShard creeping.reverse).map ShardInfo.playerCount = some 0 := by decide +kernel
  refine ⟨hhigh, hlow, ?_⟩
  intro h
  rw [h.stable creeping.reverse (List.reverse_perm creeping), hhigh] at hlow
  cases hlow

/-- A tie between two, and a full shard. -/
def tied : List ShardInfo :=
  [{ id := [98], playerCount := 1, capacity := 4 }, { id := [97], playerCount := 1, capacity := 4 },
    { id := [99], playerCount := 4, capacity := 4 }]

theorem pickShard_deterministic_iff_tied : Deterministic tied := by
  have hids : (tied.map ShardInfo.id).Nodup := by decide
  apply (pickShard_deterministic_iff hids).mpr
  right
  refine ⟨{ id := [97], playerCount := 1, capacity := 4 }, ?_⟩
  unfold StandsOut
  decide +kernel

end Matchmaker
end Morton.Cluster
