import Mathlib.Algebra.Order.Field.Basic
import Mathlib.Data.Finset.Card
import Mathlib.Tactic.Linarith
import Mathlib.Tactic.Ring

/-! Aging: in every round the highest bidders are taken, and whoever is passed over keeps
its bid as credit for the next round. How long a competitor waits and how high it can bid. -/
namespace Morton.Aging
variable {ι K : Type*}

/-- What happens in each round: who is taken, who is passed over, the credit each
competitor brings and what it bids. -/
structure Rounds (ι K : Type*) where
  taken : Nat → ι → Prop
  passed : Nat → ι → Prop
  credit : Nat → ι → K
  bid : Nat → ι → K

/-- Exact arithmetic: an ordered field. -/
class Exact (K : Type*) extends Field K, LinearOrder K, IsStrictOrderedRing K

instance : Exact ℚ where

variable [Exact K]

/-- A bid is the credit and a gain of at least `low`, and of at most `high` except for one
favoured competitor; credit is kept by those passed over, whose bids are not above those
taken. -/
structure Rounds.Fair (r : Rounds ι K) (low high : K) (favoured : ι) (horizon : Nat) : Prop where
  start : ∀ i, 0 ≤ r.credit 0 i
  kept : ∀ t < horizon, ∀ i, r.passed t i → r.credit (t+1) i = r.bid t i
  lost : ∀ t < horizon, ∀ i, ¬ r.passed t i → r.credit (t+1) i = 0
  least : ∀ t < horizon, ∀ i, r.passed t i → r.credit t i + low ≤ r.bid t i
  most : ∀ t < horizon, ∀ i, i ≠ favoured → r.passed t i ∨ r.taken t i →
    r.bid t i ≤ r.credit t i + high
  best : ∀ t < horizon, ∀ i j, r.taken t i → r.passed t j → r.bid t j ≤ r.bid t i
  apart : ∀ t < horizon, ∀ i, r.taken t i → ¬ r.passed t i

namespace Rounds.Fair
variable {r : Rounds ι K} {low high : K} {favoured : ι} {horizon : Nat}

theorem credit_nonneg (h : r.Fair low high favoured horizon) (hlow : 0 ≤ low) {t : Nat}
    (ht : t ≤ horizon) (i : ι) : 0 ≤ r.credit t i := by
  induction t with
  | zero => exact h.start i
  | succ t ih =>
    by_cases hpassed : r.passed t i
    · rw [h.kept t ht i hpassed]
      have := ih (Nat.le_of_lt ht)
      linarith [h.least t ht i hpassed]
    · rw [h.lost t ht i hpassed]

/-- Every round that passes a competitor over adds at least `low` to its bid. -/
theorem bid_ge (h : r.Fair low high favoured horizon) (hlow : 0 ≤ low) {start k : Nat} {e : ι}
    (hwaits : ∀ u, start ≤ u → u ≤ start + k → r.passed u e) (hk : start + k < horizon) :
    low * (k + 1) ≤ r.bid (start + k) e := by
  induction k with
  | zero =>
    rw [Nat.add_zero] at hk hwaits ⊢
    have hcredit := h.credit_nonneg hlow (Nat.le_of_lt hk) e
    have hgain := h.least start hk e (hwaits start le_rfl le_rfl)
    rw [Nat.cast_zero, zero_add, mul_one]
    linarith
  | succ k ih =>
    have hbefore := ih (fun u hu hu' => hwaits u hu (by omega)) (by omega)
    have hkept := h.kept (start + k) (by omega) e (hwaits _ (by omega) (by omega))
    have hgain := h.least (start + (k + 1)) hk e (hwaits _ (by omega) le_rfl)
    rw [← Nat.add_assoc, hkept] at hgain
    push_cast
    rw [← Nat.add_assoc]
    linarith

/-- Credit is what the last rounds without a break brought: at most `high` a round, and
what there was at the start if there was no break at all. -/
theorem credit_le (h : r.Fair low high favoured horizon) {i : ι} (hi : i ≠ favoured) {t : Nat}
    (ht : t ≤ horizon) :
    ∃ k ≤ t, (∀ u, t ≤ u + k → u < t → r.passed u i) ∧
      (r.credit t i ≤ high * k ∨ k = t ∧ r.credit t i ≤ r.credit 0 i + high * k) := by
  induction t with
  | zero => exact ⟨0, le_rfl, fun u _ hu => absurd hu (Nat.not_lt_zero u), Or.inr ⟨rfl, by simp⟩⟩
  | succ t ih =>
    obtain ⟨k, hk, hwaits, hcredit⟩ := ih (Nat.le_of_lt ht)
    by_cases hpassed : r.passed t i
    · have hgain := h.most t ht i hi (Or.inl hpassed)
      refine ⟨k + 1, by omega, fun u hu hu' => ?_, ?_⟩
      · by_cases hlast : u = t
        · exact hlast ▸ hpassed
        · exact hwaits u (by omega) (by omega)
      · rw [h.kept t ht i hpassed]
        push_cast
        cases hcredit with
        | inl hcredit => exact Or.inl (by linarith)
        | inr hcredit => exact Or.inr ⟨by omega, by linarith [hcredit.2]⟩
    · refine ⟨0, Nat.zero_le _, fun u hu hu' => by omega, Or.inl ?_⟩
      rw [h.lost t ht i hpassed]
      simp

/-- Whoever outbids the gains since a round has waited since then. -/
theorem passed_since (h : r.Fair low high favoured horizon) (hhigh : 0 ≤ high) {i : ι}
    (hi : i ≠ favoured) {start t : Nat} (ht : t < horizon) (htaken : r.taken t i)
    (hbid : high * (t - start : Nat) < r.bid t i) {u : Nat} (hu : start ≤ u) (hut : u < t) :
    r.passed u i := by
  obtain ⟨k, hk, hwaits, hcredit⟩ := h.credit_le hi (Nat.le_of_lt ht)
  by_cases hlong : t ≤ u + k
  · exact hwaits u hlong hut
  · exfalso
    have hgain := h.most t ht i hi (Or.inr htaken)
    have hle : r.credit t i ≤ high * k := hcredit.resolve_right fun hc => by omega
    have hcount : ((k : K) + 1) ≤ ((t - start : Nat) : K) := by
      have : k + 1 ≤ t - start := by omega
      exact_mod_cast this
    have := mul_le_mul_of_nonneg_left hcount hhigh
    linarith

/-- Whoever is taken in place of a competitor that has waited for so long that its bid is
above what some rounds can bring has waited in those rounds too. -/
theorem rival_waited (h : r.Fair low high favoured horizon) (hlow : 0 ≤ low) (hhigh : 0 ≤ high)
    {e f : ι} {start length count k : Nat} (hk : k < count)
    (hlt : start + (length + 1 + k) < horizon) (hgap : high * count < low * (length + 2))
    (hwaits : ∀ t, start ≤ t → t ≤ start + (length + 1 + k) → r.passed t e)
    (htaken : r.taken (start + (length + 1 + k)) f) (hne : f ≠ favoured) {u : Nat}
    (hu : start + length ≤ u) (hut : u < start + (length + 1 + k)) : r.passed u f := by
  apply h.passed_since hhigh hne hlt htaken ?_ hu hut
  have hbest := h.best _ hlt _ e htaken (hwaits _ (by omega) le_rfl)
  have hbid := h.bid_ge hlow hwaits hlt
  rw [show start + (length + 1 + k) - (start + length) = k + 1 by omega]
  have hround : high * (k + 1 : Nat) ≤ high * count :=
    mul_le_mul_of_nonneg_left (by exact_mod_cast hk) hhigh
  have hlonger : low * (length + 2) ≤ low * ((length + 1 + k : Nat) + 1) := by
    refine mul_le_mul_of_nonneg_left ?_ hlow
    push_cast
    have : (0 : K) ≤ k := Nat.cast_nonneg k
    linarith
  linarith

variable [DecidableEq ι]

/-- Nobody is passed over in so many rounds that its bid exceeds what the others can gain
in one round each: those who beat it in the last rounds would all be waiting already. -/
theorem not_passed (h : r.Fair low high favoured horizon) (hlow : 0 ≤ low) (hhigh : 0 ≤ high)
    {e : ι} {start length count : Nat} (hhorizon : start + (length + count + 1) ≤ horizon)
    (hgap : high * count < low * (length + 2)) {crowd : Finset ι} (hcrowd : crowd.card ≤ count)
    (hmembers : ∀ i, r.passed (start + length) i → i ∈ crowd)
    (hrival : ∀ t < horizon, r.passed t e → ∃ f, r.taken t f ∧ f ≠ favoured) :
    ¬ ∀ t, start ≤ t → t < start + (length + count + 1) → r.passed t e := by
  intro hwaits
  have hrivals : ∀ k : Nat, ∃ f, k < count →
      r.taken (start + (length + 1 + k)) f ∧ f ≠ favoured := by
    intro k
    by_cases hk : k < count
    · obtain ⟨f, hf⟩ := hrival (start + (length + 1 + k)) (by omega)
        (hwaits _ (by omega) (by omega))
      exact ⟨f, fun _ => hf⟩
    · exact ⟨e, fun hk' => absurd hk' hk⟩
  choose f hf using hrivals
  -- a rival of the last rounds has been waiting since before them
  have hsince : ∀ k < count, ∀ u, start + length ≤ u → u < start + (length + 1 + k) →
      r.passed u (f k) := fun k hk u hu hut =>
    h.rival_waited hlow hhigh hk (by omega) hgap (fun t ht ht' => hwaits t ht (by omega))
      (hf k hk).1 (hf k hk).2 hu hut
  have he : e ∈ crowd := hmembers e (hwaits _ (by omega) (by omega))
  have hmaps : ∀ k ∈ Finset.range count, f k ∈ crowd.erase e := by
    intro k hk
    rw [Finset.mem_range] at hk
    refine Finset.mem_erase.mpr ⟨fun heq => ?_, hmembers _ (hsince k hk _ le_rfl (by omega))⟩
    have hlt : start + (length + 1 + k) < horizon := by omega
    exact h.apart _ hlt _ (hf k hk).1 (heq ▸ hwaits _ (by omega) (by omega))
  have hcard : (crowd.erase e).card < (Finset.range count).card := by
    rw [Finset.card_erase_of_mem he, Finset.card_range]
    have := Finset.card_pos.mpr ⟨e, he⟩
    omega
  obtain ⟨k, hk, k', hk', hne, heq⟩ :=
    Finset.exists_ne_map_eq_of_card_lt_of_maps_to hcard hmaps
  rw [Finset.mem_range] at hk hk'
  -- the one taken first could not be waiting for the later round
  have hclash : ∀ a b, a < b → b < count → f a ≠ f b := by
    intro a b hab hb heq
    have hlt : start + (length + 1 + a) < horizon := by omega
    exact h.apart _ hlt _ (hf a (by omega)).1
      (heq ▸ hsince b hb (start + (length + 1 + a)) (by omega) (by omega))
  rcases Nat.lt_or_gt_of_ne hne with hlt | hgt
  · exact hclash k k' hlt hk' heq
  · exact hclash k' k hgt hk heq.symm

omit [DecidableEq ι] in
/-- With no credit at the start, a bid is at most the gains of the rounds somebody can
wait. -/
theorem bid_le (h : r.Fair low high favoured horizon) (hhigh : 0 ≤ high)
    (hstart : ∀ i, r.credit 0 i = 0) {limit : Nat} {i : ι} (hi : i ≠ favoured)
    (hlimit : ∀ start, start + limit ≤ horizon →
      ¬ ∀ t, start ≤ t → t < start + limit → r.passed t i)
    {t : Nat} (ht : t < horizon) (hbids : r.passed t i ∨ r.taken t i) :
    r.bid t i ≤ high * limit := by
  obtain ⟨k, hk, hwaits, hcredit⟩ := h.credit_le hi (Nat.le_of_lt ht)
  have hshort : k < limit := by
    by_contra hlong
    exact hlimit (t - k) (by omega) fun u hu hu' => hwaits u (by omega) (by omega)
  have hle : r.credit t i ≤ high * k := by
    cases hcredit with
    | inl hcredit => exact hcredit
    | inr hcredit => simpa [hstart i] using hcredit.2
  have hgain := h.most t ht i hi hbids
  have hcount : ((k : K) + 1) ≤ (limit : K) := by exact_mod_cast hshort
  have := mul_le_mul_of_nonneg_left hcount hhigh
  linarith

end Rounds.Fair
end Morton.Aging
