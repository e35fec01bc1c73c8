import Mathlib.Order.Lattice
import Mathlib.Data.List.Basic

/-! Samples in key order around a point: the last one at or before it and the first one after
it. Beyond either end of the samples the nearest one stands for both. -/
namespace Morton.Samples
variable {α K : Type*} [LinearOrder K] (key : α → K) (t : K)

def lastUpTo (xs : List α) : Option α := (xs.takeWhile fun a => decide (key a ≤ t)).getLast?

def firstAfter (xs : List α) : Option α := xs.find? fun a => decide (t < key a)

/-- The two samples around a point. -/
def around (xs : List α) : Option (α × α) :=
  match lastUpTo key t xs, firstAfter key t xs with
  | none, none => none
  | none, some newer => some (newer, newer)
  | some older, none => some (older, older)
  | some older, some newer => some (older, newer)

/-- No sample lies between the two, and the point does, unless it lies beyond an end. -/
structure Brackets (xs : List α) (older newer : α) : Prop where
  older_mem : older ∈ xs
  newer_mem : newer ∈ xs
  adjacent : ∀ a ∈ xs, key a ≤ key older ∨ key newer ≤ key a
  between : key older ≤ t ∧ t < key newer ∨
    older = newer ∧ ((∀ a ∈ xs, t < key a) ∨ ∀ a ∈ xs, key a ≤ t)

variable {key t} {xs : List α}

theorem lastUpTo_cons (a : α) (xs : List α) :
    lastUpTo key t (a :: xs) =
      if key a ≤ t then some ((lastUpTo key t xs).getD a) else none := by
  unfold lastUpTo
  by_cases ha : key a ≤ t
  · rw [List.takeWhile_cons_of_pos (by simpa using ha), List.getLast?_cons, if_pos ha]
  · rw [List.takeWhile_cons_of_neg (by simpa using ha), if_neg ha]
    rfl

theorem lastUpTo_none (h : xs.Pairwise fun a b => key a < key b)
    (hnone : lastUpTo key t xs = none) : ∀ a ∈ xs, t < key a := by
  cases xs with
  | nil => simp
  | cons a xs =>
    rw [lastUpTo_cons] at hnone
    have hfirst : t < key a := by
      by_contra hle
      rw [if_pos (not_lt.mp hle)] at hnone
      cases hnone
    intro b hb
    cases List.mem_cons.mp hb with
    | inl heq => rwa [heq]
    | inr hmem => exact hfirst.trans (List.rel_of_pairwise_cons h hmem)

/-- The last sample up to a point is the greatest of those up to it. -/
theorem lastUpTo_some (h : xs.Pairwise fun a b => key a < key b) {a : α}
    (hsome : lastUpTo key t xs = some a) :
    a ∈ xs ∧ key a ≤ t ∧ ∀ b ∈ xs, key b ≤ t → key b ≤ key a := by
  induction xs generalizing a with
  | nil => cases hsome
  | cons b xs ih =>
    rw [lastUpTo_cons] at hsome
    have hb : key b ≤ t := by
      by_contra hgt
      rw [if_neg hgt] at hsome
      cases hsome
    rw [if_pos hb] at hsome
    cases hrest : lastUpTo key t xs with
    | none =>
      rw [hrest] at hsome
      obtain rfl : b = a := Option.some.inj hsome
      have hlater := lastUpTo_none h.of_cons hrest
      refine ⟨List.mem_cons_self, hb, fun c hc hle => ?_⟩
      cases List.mem_cons.mp hc with
      | inl heq => rw [heq]
      | inr hmem => exact absurd hle (not_le.mpr (hlater c hmem))
    | some last =>
      rw [hrest] at hsome
      obtain rfl : last = a := Option.some.inj hsome
      obtain ⟨hmem, hlast, hgreatest⟩ := ih h.of_cons hrest
      refine ⟨List.mem_cons_of_mem b hmem, hlast, fun c hc hle => ?_⟩
      cases List.mem_cons.mp hc with
      | inl heq =>
        rw [heq]
        exact (List.rel_of_pairwise_cons h hmem).le
      | inr hc => exact hgreatest c hc hle

theorem firstAfter_none (hnone : firstAfter key t xs = none) : ∀ a ∈ xs, key a ≤ t := by
  simpa [firstAfter] using hnone

/-- The first sample after a point is the least of those after it. -/
theorem firstAfter_some (h : xs.Pairwise fun a b => key a < key b) {a : α}
    (hsome : firstAfter key t xs = some a) :
    a ∈ xs ∧ t < key a ∧ ∀ b ∈ xs, t < key b → key a ≤ key b := by
  refine ⟨List.mem_of_find?_eq_some hsome, by simpa using List.find?_some hsome, ?_⟩
  induction xs with
  | nil => simp
  | cons b xs ih =>
    rw [firstAfter, List.find?_cons] at hsome
    by_cases hb : t < key b
    · rw [decide_eq_true hb] at hsome
      obtain rfl : b = a := Option.some.inj hsome
      intro c hc _
      cases List.mem_cons.mp hc with
      | inl heq => rw [heq]
      | inr hmem => exact (List.rel_of_pairwise_cons h hmem).le
    · rw [decide_eq_false hb] at hsome
      intro c hc hlt
      cases List.mem_cons.mp hc with
      | inl heq => exact absurd (heq ▸ hlt) hb
      | inr hmem => exact ih h.of_cons hsome c hmem hlt

theorem around_brackets (h : xs.Pairwise fun a b => key a < key b) {older newer : α}
    (haround : around key t xs = some (older, newer)) : Brackets key t xs older newer := by
  unfold around at haround
  cases hlast : lastUpTo key t xs with
  | none =>
    cases hfirst : firstAfter key t xs with
    | none => simp [hlast, hfirst] at haround
    | some first =>
      simp only [hlast, hfirst, Option.some.injEq, Prod.mk.injEq] at haround
      obtain ⟨rfl, rfl⟩ := haround
      obtain ⟨hmem, -, hleast⟩ := firstAfter_some h hfirst
      have hafter := lastUpTo_none h hlast
      exact ⟨hmem, hmem, fun a ha => Or.inr (hleast a ha (hafter a ha)), Or.inr ⟨rfl, Or.inl hafter⟩⟩
  | some last =>
    obtain ⟨hmem, hle, hgreatest⟩ := lastUpTo_some h hlast
    cases hfirst : firstAfter key t xs with
    | none =>
      simp only [hlast, hfirst, Option.some.injEq, Prod.mk.injEq] at haround
      obtain ⟨rfl, rfl⟩ := haround
      have hbefore := firstAfter_none hfirst
      exact ⟨hmem, hmem, fun a ha => Or.inl (hgreatest a ha (hbefore a ha)),
        Or.inr ⟨rfl, Or.inr hbefore⟩⟩
    | some first =>
      simp only [hlast, hfirst, Option.some.injEq, Prod.mk.injEq] at haround
      obtain ⟨rfl, rfl⟩ := haround
      obtain ⟨hmem', hlt, hleast⟩ := firstAfter_some h hfirst
      refine ⟨hmem, hmem', fun a ha => ?_, Or.inl ⟨hle, hlt⟩⟩
      cases le_or_gt (key a) t with
      | inl hup => exact Or.inl (hgreatest a ha hup)
      | inr hover => exact Or.inr (hleast a ha hover)

/-- There are samples around a point as soon as there are any. -/
theorem around_none (h : xs.Pairwise fun a b => key a < key b) :
    around key t xs = none ↔ xs = [] := by
  constructor
  · intro hnone
    unfold around at hnone
    cases hlast : lastUpTo key t xs with
    | some last => cases hfirst : firstAfter key t xs <;> simp [hlast, hfirst] at hnone
    | none =>
      cases hfirst : firstAfter key t xs with
      | some first => simp [hlast, hfirst] at hnone
      | none =>
        rw [List.eq_nil_iff_forall_not_mem]
        intro a ha
        exact absurd (lastUpTo_none h hlast a ha) (not_lt.mpr (firstAfter_none hfirst a ha))
  · rintro rfl
    rfl

end Morton.Samples
