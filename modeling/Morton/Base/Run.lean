import Mathlib.Data.List.Basic

/-! Runs of a deterministic step function over a list of actions, and the rule
that carries an invariant along a run whose steps all meet a condition. -/
namespace Morton.Run
variable {σ α : Type*}

/-- The state after the actions, in order. -/
def run (step : σ → α → σ) (s : σ) (actions : List α) : σ := actions.foldl step s

/-- Every step of the run meets `ok` in the state in which it is taken. -/
def Along (step : σ → α → σ) (ok : σ → α → Prop) : σ → List α → Prop
  | _, [] => True
  | s, a :: actions => ok s a ∧ Along step ok (step s a) actions

instance decidableAlong (step : σ → α → σ) (ok : σ → α → Prop) [∀ s a, Decidable (ok s a)] :
    ∀ (s : σ) (actions : List α), Decidable (Along step ok s actions)
  | _, [] => isTrue trivial
  | s, a :: actions =>
    haveI := decidableAlong step ok (step s a) actions
    inferInstanceAs (Decidable (ok s a ∧ Along step ok (step s a) actions))

variable {step : σ → α → σ} {ok : σ → α → Prop}

@[simp] theorem run_nil (s : σ) : run step s [] = s := rfl

@[simp] theorem run_cons (s : σ) (a : α) (actions : List α) :
    run step s (a :: actions) = run step (step s a) actions := rfl

theorem run_append (s : σ) (xs ys : List α) :
    run step s (xs ++ ys) = run step (run step s xs) ys :=
  List.foldl_append

/-- What one step preserves under the condition, a whole run preserves. -/
theorem invariant (Inv : σ → Prop) (hstep : ∀ s a, ok s a → Inv s → Inv (step s a))
    {s : σ} (h : Inv s) {actions : List α} (hok : Along step ok s actions) :
    Inv (run step s actions) := by
  induction actions generalizing s with
  | nil => exact h
  | cons a actions ih => exact ih (hstep s a hok.1 h) hok.2

/-- What every step preserves, every run preserves. -/
theorem invariant_always (Inv : σ → Prop) (hstep : ∀ s a, Inv s → Inv (step s a)) {s : σ}
    (h : Inv s) (actions : List α) : Inv (run step s actions) := by
  induction actions generalizing s with
  | nil => exact h
  | cons a actions ih => exact ih (hstep s a h)

/-- Two conditions that agree wherever the invariant holds agree along a run. -/
theorem along_congr {ok' : σ → α → Prop} (Inv : σ → Prop) (hstep : ∀ s a, Inv s → Inv (step s a))
    (hiff : ∀ s a, Inv s → (ok s a ↔ ok' s a)) {s : σ} (h : Inv s) (actions : List α) :
    Along step ok s actions ↔ Along step ok' s actions := by
  induction actions generalizing s with
  | nil => exact Iff.rfl
  | cons a actions ih => exact and_congr (hiff s a h) (ih (hstep s a h))

/-- A condition on the actions alone. -/
theorem along_of_forall {ok : α → Prop} (s : σ) {actions : List α} (h : ∀ a ∈ actions, ok a) :
    Along step (fun _ => ok) s actions := by
  induction actions generalizing s with
  | nil => trivial
  | cons a actions ih =>
    exact ⟨h a List.mem_cons_self, ih _ fun b hb => h b (List.mem_cons_of_mem _ hb)⟩

/-- A condition on what a map shows of the states, when the map takes steps to steps. -/
theorem along_map {τ : Type*} {step' : τ → α → τ} (f : τ → σ)
    (hf : ∀ t a, f (step' t a) = step (f t) a) (ok : σ → α → Prop) (t : τ) (actions : List α) :
    Along step' (fun t a => ok (f t) a) t actions ↔ Along step ok (f t) actions := by
  induction actions generalizing t with
  | nil => exact Iff.rfl
  | cons a actions ih => exact and_congr Iff.rfl (hf t a ▸ ih (step' t a))

theorem along_mono {ok' : σ → α → Prop} (h : ∀ s a, ok s a → ok' s a) {s : σ} {actions : List α}
    (hok : Along step ok s actions) : Along step ok' s actions := by
  induction actions generalizing s with
  | nil => trivial
  | cons a actions ih => exact ⟨h s a hok.1, ih hok.2⟩

theorem along_and {ok' : σ → α → Prop} {s : σ} {actions : List α} (h : Along step ok s actions)
    (h' : Along step ok' s actions) : Along step (fun s a => ok s a ∧ ok' s a) s actions := by
  induction actions generalizing s with
  | nil => trivial
  | cons a actions ih => exact ⟨⟨h.1, h'.1⟩, ih h.2 h'.2⟩

/-- A condition that is what each step needs to keep the invariant, no more and no less, holds
along a run exactly when the invariant holds after every step of it. Every step meets a side
condition that keeps a base invariant. -/
theorem along_exact_given {side : σ → α → Prop} (Base Inv : σ → Prop)
    (hbase : ∀ s a, side s a → Base s → Base (step s a))
    (hexact : ∀ s a, side s a → Base s → Inv s → (ok s a ↔ Inv (step s a))) {s : σ}
    (hs : Base s) (h : Inv s) {actions : List α} (hside : Along step side s actions) :
    Along step (fun s a => Inv (step s a)) s actions ↔ Along step ok s actions := by
  induction actions generalizing s with
  | nil => exact Iff.rfl
  | cons a actions ih =>
    obtain ⟨ha, hrest⟩ := hside
    constructor
    · rintro ⟨hnext, hlater⟩
      exact ⟨(hexact s a ha hs h).mpr hnext, (ih (hbase s a ha hs) hnext hrest).mp hlater⟩
    · rintro ⟨hok, hlater⟩
      have hnext := (hexact s a ha hs h).mp hok
      exact ⟨hnext, (ih (hbase s a ha hs) hnext hrest).mpr hlater⟩

/-- What each step of a run shows, in order. -/
def log {β : Type*} (step : σ → α → σ) (shows : σ → α → Option β) : σ → List α → List β
  | _, [] => []
  | s, a :: actions => (shows s a).toList ++ log step shows (step s a) actions

/-- What is in the log was shown by some step in some state. -/
theorem exists_of_mem_log {β : Type*} {shows : σ → α → Option β} {s : σ} {actions : List α}
    {entry : β} (h : entry ∈ log step shows s actions) : ∃ s a, shows s a = some entry := by
  induction actions generalizing s with
  | nil => cases h
  | cons a actions ih =>
    rw [log, List.mem_append] at h
    cases h with
    | inl hhere => exact ⟨s, a, Option.mem_toList.mp hhere⟩
    | inr hlater => exact ih hlater

/-- A condition that, with an invariant it preserves, gives another. -/
theorem along_of_invariant {ok' : σ → α → Prop} (Inv : σ → Prop)
    (hstep : ∀ s a, ok s a → Inv s → Inv (step s a) ∧ ok' s a) {s : σ} (h : Inv s)
    {actions : List α} (hok : Along step ok s actions) : Along step ok' s actions := by
  induction actions generalizing s with
  | nil => trivial
  | cons a actions ih =>
    obtain ⟨hinv, ha⟩ := hstep s a hok.1 h
    exact ⟨ha, ih hinv hok.2⟩

theorem along_append (s : σ) (xs ys : List α) :
    Along step ok s (xs ++ ys) ↔ Along step ok s xs ∧ Along step ok (run step s xs) ys := by
  induction xs generalizing s with
  | nil => simp [Along]
  | cons x xs ih => simp [Along, ih, and_assoc]

/-- A measure that no step lowers is highest at the end of the run. -/
theorem measure_mono (f : σ → Nat) (hstep : ∀ s a, f s ≤ f (step s a)) (s : σ)
    (actions : List α) : f s ≤ f (run step s actions) := by
  induction actions generalizing s with
  | nil => exact Nat.le_refl _
  | cons a actions ih => exact Nat.le_trans (hstep s a) (ih (step s a))

/-- A bound on a growing measure that holds at the end holds at every step. -/
theorem along_of_measure (f : σ → Nat) (hstep : ∀ s a, f s ≤ f (step s a)) {s : σ}
    {actions : List α} {n : Nat} (h : f (run step s actions) < n) :
    Along step (fun s a => f (step s a) < n) s actions := by
  induction actions generalizing s with
  | nil => trivial
  | cons a actions ih =>
    exact ⟨Nat.lt_of_le_of_lt (measure_mono f hstep (step s a) actions) h, ih h⟩

end Morton.Run
