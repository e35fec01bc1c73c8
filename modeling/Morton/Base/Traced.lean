import Mathlib.Data.List.Basic

/-! State-passing programs that also list what they touch, and rules for the claim that
everything they touch, in whatever order they go on, lies inside some set. -/
namespace Morton

structure Traced (σ ι α : Type) where
  run : σ → (α × σ) × List ι

namespace Traced
variable {σ ι α β : Type}

instance : Monad (Traced σ ι) where
  pure a := ⟨fun s => ((a, s), [])⟩
  bind m f := ⟨fun s =>
    (((f (m.run s).1.1).run (m.run s).1.2).1,
      (m.run s).2 ++ ((f (m.run s).1.1).run (m.run s).1.2).2)⟩

/-- The program without its list. -/
def eval (m : Traced σ ι α) (s : σ) : α × σ := (m.run s).1

def touched (m : Traced σ ι α) (s : σ) : List ι := (m.run s).2

/-- A look at the state. -/
def look (f : σ → α) : Traced σ ι α := ⟨fun s => ((f s, s), [])⟩

/-- A loop of at most `n` rounds; a round that fails ends it and leaves its state. -/
def rounds (round : α → Traced σ ι (Option α)) : Nat → α → Traced σ ι (Bool × α)
  | 0, a => pure (true, a)
  | n+1, a => do
    let next ← round a
    next.elim (pure (false, a)) (rounds round n)

@[simp] theorem eval_pure (a : α) (s : σ) : eval (pure a : Traced σ ι α) s = (a, s) := (rfl)

@[simp] theorem eval_bind (m : Traced σ ι α) (f : α → Traced σ ι β) (s : σ) :
    eval (m >>= f) s = eval (f (eval m s).1) (eval m s).2 := (rfl)

@[simp] theorem eval_look (f : σ → α) (s : σ) : eval (look f : Traced σ ι α) s = (f s, s) := (rfl)

@[simp] theorem eval_ite (c : Prop) [Decidable c] (m n : Traced σ ι α) (s : σ) :
    eval (if c then m else n) s = if c then eval m s else eval n s := by
  split <;> rfl

@[simp] theorem eval_cond (b : Bool) (m n : Traced σ ι α) (s : σ) :
    eval (bif b then m else n) s = bif b then eval m s else eval n s := by
  cases b <;> rfl

@[simp] theorem eval_rounds_zero (round : α → Traced σ ι (Option α)) (a : α) (s : σ) :
    eval (rounds round 0 a) s = ((true, a), s) := (rfl)

theorem eval_rounds_none {round : α → Traced σ ι (Option α)} {a : α} {s s' : σ}
    (h : eval (round a) s = (none, s')) (n : Nat) :
    eval (rounds round (n+1) a) s = ((false, a), s') := by
  simp [rounds, h]

theorem eval_rounds_some {round : α → Traced σ ι (Option α)} {a b : α} {s s' : σ}
    (h : eval (round a) s = (some b, s')) (n : Nat) :
    eval (rounds round (n+1) a) s = eval (rounds round n b) s' := by
  simp [rounds, h]

/-- From a state that is `ok` the program ends in one, touches only what is `inside`, and
its result satisfies `post`. -/
def Within (ok : σ → Prop) (inside : ι → Prop) (m : Traced σ ι α) (post : α → Prop) : Prop :=
  ∀ s, ok s → ok (m.eval s).2 ∧ (∀ i ∈ m.touched s, inside i) ∧ post (m.eval s).1

variable {ok : σ → Prop} {inside : ι → Prop} {post : α → Prop} {last : β → Prop}

theorem within_pure {a : α} (h : post a) : Within ok inside (pure a) post :=
  fun _ hs => ⟨hs, fun _ hi => (nomatch hi), h⟩

theorem within_look (f : σ → α) : Within ok inside (look f) fun _ => True :=
  fun _ hs => ⟨hs, fun _ hi => (nomatch hi), trivial⟩

theorem Within.bind {m : Traced σ ι α} {f : α → Traced σ ι β} (hm : Within ok inside m post)
    (hf : ∀ a, post a → Within ok inside (f a) last) : Within ok inside (m >>= f) last := by
  intro s hs
  obtain ⟨hs₁, htouched₁, ha⟩ := hm s hs
  obtain ⟨hs₂, htouched₂, hb⟩ := hf _ ha _ hs₁
  refine ⟨hs₂, fun i hi => ?_, hb⟩
  rcases List.mem_append.mp hi with hi | hi
  · exact htouched₁ i hi
  · exact htouched₂ i hi

/-- What follows holds whatever the first part returned. -/
theorem Within.andThen {m : Traced σ ι α} {f : α → Traced σ ι β} (hm : Within ok inside m post)
    (hf : ∀ a, Within ok inside (f a) last) : Within ok inside (m >>= f) last :=
  hm.bind fun a _ => hf a

theorem Within.weaken {m : Traced σ ι α} {post' : α → Prop} (hm : Within ok inside m post)
    (h : ∀ a, post a → post' a) : Within ok inside m post' := fun s hs =>
  ⟨(hm s hs).1, (hm s hs).2.1, h _ (hm s hs).2.2⟩

theorem Within.widen {m : Traced σ ι α} {inside' : ι → Prop} (hm : Within ok inside m post)
    (h : ∀ i, inside i → inside' i) : Within ok inside' m post := fun s hs =>
  ⟨(hm s hs).1, fun i hi => h i ((hm s hs).2.1 i hi), (hm s hs).2.2⟩

theorem within_ite {c : Prop} [Decidable c] {m n : Traced σ ι α}
    (hm : c → Within ok inside m post) (hn : ¬ c → Within ok inside n post) :
    Within ok inside (if c then m else n) post := by
  split
  next h => exact hm h
  next h => exact hn h

theorem within_cond {b : Bool} {m n : Traced σ ι α} (hm : b = true → Within ok inside m post)
    (hn : b = false → Within ok inside n post) : Within ok inside (bif b then m else n) post := by
  cases b with
  | true => exact hm rfl
  | false => exact hn rfl

/-- What every round keeps, the loop keeps. -/
theorem within_rounds (keep : α → Prop) {round : α → Traced σ ι (Option α)}
    (hround : ∀ a, keep a → Within ok inside (round a) fun next => ∀ b ∈ next, keep b) (n : Nat)
    {a : α} (ha : keep a) : Within ok inside (rounds round n a) fun out => keep out.2 := by
  induction n generalizing a with
  | zero => exact within_pure ha
  | succ n ih =>
    refine (hround a ha).bind fun next hnext => ?_
    cases next with
    | none => exact within_pure ha
    | some b => exact ih (hnext b rfl)

end Traced
end Morton
