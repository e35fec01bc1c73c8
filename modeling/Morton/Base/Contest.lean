import Mathlib.Data.List.Basic
import Mathlib.Data.List.Induction

/-! A scan that keeps the best so far. Where the comparison is not transitive, the last one
standing can depend on the order; it does not exactly when one of them loses to nobody. -/
namespace Morton.Contest
variable {α : Type*} (beats : α → α → Prop) [DecidableRel beats]

/-- A challenger takes the place of whom it beats. -/
def defend (best : Option α) (a : α) : Option α :=
  match best with
  | none => some a
  | some b => if beats a b then some a else some b

def winner (l : List α) : Option α := l.foldl (defend beats) none

/-- Of the list, and beaten by nobody else in it; and beats all of them. -/
structure Champion (l : List α) (w : α) : Prop where
  mem : w ∈ l
  unbeaten : ∀ a ∈ l, a ≠ w → ¬ beats a w
  beats_all : ∀ a ∈ l, a ≠ w → beats w a

variable {beats}

theorem winner_concat (l : List α) (a : α) :
    winner beats (l ++ [a]) = defend beats (winner beats l) a := by
  unfold winner
  rw [List.foldl_append]
  rfl

theorem winner_mem {l : List α} {w : α} (h : winner beats l = some w) : w ∈ l := by
  induction l using List.reverseRecOn generalizing w with
  | nil => cases h
  | append_singleton l a ih =>
    rw [winner_concat] at h
    cases hbest : winner beats l with
    | none =>
      rw [hbest] at h
      cases h
      simp
    | some b =>
      rw [hbest] at h
      have hb := ih hbest
      unfold defend at h
      dsimp only at h
      split at h
      · cases h
        simp
      · cases h
        exact List.mem_append_left _ hb

theorem winner_eq_none_iff {l : List α} : winner beats l = none ↔ l = [] := by
  induction l using List.reverseRecOn with
  | nil => exact ⟨fun _ => rfl, fun _ => rfl⟩
  | append_singleton l a ih =>
    rw [winner_concat]
    unfold defend
    constructor
    · intro h
      split at h
      · cases h
      · split at h <;> cases h
    · intro h
      simp at h

/-- Once the champion has come it stays, and it replaces whoever was there. -/
theorem winner_of_champion {l : List α} {w : α} (h : Champion beats l w) :
    winner beats l = some w := by
  induction l using List.reverseRecOn with
  | nil => cases h.mem
  | append_singleton l a ih =>
    rw [winner_concat]
    by_cases hw : w ∈ l
    · have hl : Champion beats l w :=
        ⟨hw, fun b hb => h.unbeaten b (List.mem_append_left _ hb),
          fun b hb => h.beats_all b (List.mem_append_left _ hb)⟩
      rw [ih hl]
      unfold defend
      dsimp only
      by_cases ha : a = w
      · rw [ha]
        split <;> rfl
      · rw [if_neg (h.unbeaten a (by simp) ha)]
    · have ha : w = a := by
        have hmem := h.mem
        rw [List.mem_append, List.mem_singleton] at hmem
        exact hmem.resolve_left hw
      subst ha
      cases hbest : winner beats l with
      | none => rfl
      | some b =>
        have hb := winner_mem hbest
        have hne : b ≠ w := fun heq => hw (heq ▸ hb)
        exact if_pos (h.beats_all b (List.mem_append_left _ hb) hne)

/-- Who wins in every order is beaten by nobody: each of the others can come last. -/
theorem unbeaten_of_stable {l : List α} {w : α}
    (h : ∀ l' : List α, l'.Perm l → winner beats l' = some w) {a : α} (ha : a ∈ l) (hne : a ≠ w) :
    ¬ beats a w := by
  obtain ⟨before, after, rfl⟩ := List.append_of_mem ha
  have hlast : (before ++ after ++ [a]).Perm (before ++ a :: after) := by
    rw [List.append_assoc]
    exact (List.perm_append_singleton a after).append_left before
  have hwins := h _ hlast
  rw [winner_concat] at hwins
  intro hbeats
  cases hbest : winner beats (before ++ after) with
  | none =>
    rw [hbest] at hwins
    exact hne (Option.some.inj hwins)
  | some b =>
    rw [hbest] at hwins
    unfold defend at hwins
    dsimp only at hwins
    split at hwins
    · exact hne (Option.some.inj hwins)
    next hloses =>
      rw [Option.some.inj hwins] at hloses
      exact hloses hbeats

end Morton.Contest
