import Mathlib.Data.List.Perm.Basic

/-! Retry loops of compare-and-exchange on one atomic cell. Loads are relaxed, so a load gives
any value the cell ever had; a compare-and-exchange that succeeds has seen the newest one. The
cell then holds what the operands give one after another. -/
namespace Morton.CasLoop
variable {α β : Type*}

/-- One kind of loop: whether an operand has to be stored over a value, and what is stored.
What needs no store stays so when other operands are stored. -/
structure Update (α β : Type*) where
  wants : β → α → Bool
  next : β → α → α
  settled : ∀ b c a, wants b a = false → wants c a = true → wants b (next c a) = false

/-- The loop in one piece. -/
def Update.apply (u : Update α β) (a : α) (b : β) : α := if u.wants b a then u.next b a else a

/-- The value of an atomic, the ones before it, and the operands whose loops have ended. -/
structure Cell (α β : Type*) where
  now : α
  past : List α := []
  applied : List β := []

/-- Where a loop stands: before the first load, about to exchange, or ended. -/
inductive Loop (α : Type*)
  | load
  | spin (expected : α)
  | done
  deriving DecidableEq

def Loop.isDone : Loop α → Bool
  | .done => true
  | _ => false

/-- How a step turns out: which value a load sees, and whether an exchange that may succeed
does. -/
structure Outcome where
  sees : Nat := 0
  succeeds : Bool := true

namespace Cell

/-- The cell has or had the value. -/
def Seen (c : Cell α β) (a : α) : Prop := a = c.now ∨ a ∈ c.past

def load (c : Cell α β) (o : Outcome) : α := (c.now :: c.past).getD o.sees c.now

/-- One access to the cell. -/
def advance [DecidableEq α] (u : Update α β) (c : Cell α β) (b : β) :
    Loop α → Outcome → Cell α β × Loop α
  | .load, o => (c, .spin (c.load o))
  | .spin expected, o =>
    if u.wants b expected then
      if o.succeeds = true ∧ c.now = expected then
        ({ now := u.next b expected, past := c.now :: c.past, applied := c.applied ++ [b] }, .done)
      else (c, .spin (c.load o))
    else ({ c with applied := c.applied ++ [b] }, .done)
  | .done, _ => (c, .done)

/-- The cell holds what its operands give, and no value it had needs a store that it does not. -/
structure Kept (u : Update α β) (init : α) (c : Cell α β) : Prop where
  now : c.now = c.applied.foldl u.apply init
  past : ∀ a ∈ c.past, ∀ b, u.wants b a = false → u.wants b c.now = false

theorem kept_new (u : Update α β) (init : α) : Kept u init { now := init } :=
  ⟨rfl, fun _ ha => by cases ha⟩

theorem seen_load (c : Cell α β) (o : Outcome) : c.Seen (c.load o) := by
  unfold load
  rw [List.getD_eq_getElem?_getD]
  cases h : (c.now :: c.past)[o.sees]? with
  | none => exact Or.inl rfl
  | some a => exact List.mem_cons.mp (List.mem_of_getElem? h)

section
variable {u : Update α β} {init : α} {c : Cell α β}

/-- A value that needs no store needs none now. -/
theorem Kept.settled (h : c.Kept u init) {a : α} (ha : c.Seen a) {b : β}
    (hb : u.wants b a = false) : u.wants b c.now = false := by
  cases ha with
  | inl hnow => exact hnow ▸ hb
  | inr hpast => exact h.past a hpast b hb

theorem Kept.exchange (h : c.Kept u init) {b : β} (hb : u.wants b c.now = true) :
    Kept u init { now := u.next b c.now, past := c.now :: c.past, applied := c.applied ++ [b] } where
  now := by
    rw [List.foldl_append, ← h.now, List.foldl_cons, List.foldl_nil, Update.apply, if_pos hb]
  past a ha d hd := by
    have hseen : c.Seen a := List.mem_cons.mp ha
    exact u.settled d b c.now (h.settled hseen hd) hb

theorem Kept.skip (h : c.Kept u init) {b : β} (hb : u.wants b c.now = false) :
    Kept u init { c with applied := c.applied ++ [b] } where
  now := by
    rw [List.foldl_append, ← h.now, List.foldl_cons, List.foldl_nil, Update.apply,
      if_neg (by simp [hb])]
  past := h.past

/-- What an access leaves behind; a loop ends when its operand has taken effect. -/
structure Advanced (u : Update α β) (init : α) (c : Cell α β) (b : β) (loop : Loop α)
    (c' : Cell α β) (loop' : Loop α) : Prop where
  kept : c'.Kept u init
  seen : ∀ a, c.Seen a → c'.Seen a
  expected : ∀ a, loop' = .spin a → c'.Seen a
  applied : loop'.isDone = loop.isDone ∧ c'.applied = c.applied ∨
    loop.isDone = false ∧ loop'.isDone = true ∧ c'.applied = c.applied ++ [b]

theorem Kept.advance [DecidableEq α] (h : c.Kept u init) (b : β) {loop : Loop α}
    (hloop : ∀ a, loop = .spin a → c.Seen a) (o : Outcome) :
    Advanced u init c b loop (c.advance u b loop o).1 (c.advance u b loop o).2 := by
  have hload : Advanced u init c b .load c (.spin (c.load o)) := by
    refine ⟨h, fun a ha => ha, fun a ha => ?_, Or.inl ⟨rfl, rfl⟩⟩
    cases ha
    exact c.seen_load o
  cases loop with
  | load => exact hload
  | done => exact ⟨h, fun a ha => ha, fun a ha => (by cases ha), Or.inl ⟨rfl, rfl⟩⟩
  | spin expected =>
    have hseen := hloop expected rfl
    by_cases hwants : u.wants b expected = true
    · by_cases hok : o.succeeds = true ∧ c.now = expected
      · obtain ⟨-, hnow⟩ := id hok
        have hstore : Cell.advance u c b (.spin expected) o =
            ({ now := u.next b expected, past := c.now :: c.past, applied := c.applied ++ [b] },
              .done) := by
          rw [Cell.advance, if_pos hwants, if_pos hok]
        rw [hstore, ← hnow]
        refine ⟨h.exchange (hnow ▸ hwants), fun a ha => ?_, fun a ha => (by cases ha),
          Or.inr ⟨rfl, rfl, rfl⟩⟩
        exact Or.inr (List.mem_cons.mpr ha)
      · have hretry : Cell.advance u c b (.spin expected) o = (c, .spin (c.load o)) := by
          rw [Cell.advance, if_pos hwants, if_neg hok]
        rw [hretry]
        exact ⟨h, hload.seen, hload.expected, Or.inl ⟨rfl, rfl⟩⟩
    · have hfalse : u.wants b expected = false := by simpa using hwants
      have hskip : Cell.advance u c b (.spin expected) o =
          ({ c with applied := c.applied ++ [b] }, .done) := by
        rw [Cell.advance, if_neg hwants]
      rw [hskip]
      exact ⟨h.skip (h.settled hseen hfalse), fun a ha => ha, fun a ha => (by cases ha),
        Or.inr ⟨rfl, rfl, rfl⟩⟩

end
end Cell

/-- Operands that may be taken in any order. -/
def Update.Commutes (u : Update α β) : Prop :=
  ∀ a b c, u.apply (u.apply a b) c = u.apply (u.apply a c) b

theorem Update.Commutes.foldl_perm {u : Update α β} (h : u.Commutes) {bs cs : List β}
    (hperm : bs.Perm cs) (a : α) : bs.foldl u.apply a = cs.foldl u.apply a := by
  have : RightCommutative u.apply := ⟨fun a b c => h a b c⟩
  exact hperm.foldl_eq a

/-- One entry of a list that starts to count. -/
theorem filter_set_perm {γ : Type*} {p : γ → Bool} {xs : List γ} {i : Nat} {x y : γ}
    (hx : xs[i]? = some x) (hpx : p x = false) (hpy : p y = true) :
    ((xs.set i y).filter p).Perm (y :: xs.filter p) := by
  obtain ⟨hi, rfl⟩ := List.getElem?_eq_some_iff.mp hx
  have hsplit : xs = xs.take i ++ xs[i] :: xs.drop (i + 1) := by simp
  have hset : xs.set i y = xs.take i ++ y :: xs.drop (i + 1) := by
    rw [List.set_eq_take_append_cons_drop, if_pos hi]
  rw [hset, List.filter_append, List.filter_cons_of_pos hpy]
  have hold : xs.filter p = (xs.take i).filter p ++ (xs.drop (i + 1)).filter p := by
    conv_lhs => rw [hsplit]
    rw [List.filter_append, List.filter_cons_of_neg (by simp [hpx])]
  rw [hold]
  exact List.perm_middle

/-- An entry that counts as before. -/
theorem filter_set_map {γ δ : Type*} {p : γ → Bool} {f : γ → δ} {xs : List γ} {i : Nat} {x y : γ}
    (hx : xs[i]? = some x) (hp : p y = p x) (hf : f y = f x) :
    ((xs.set i y).filter p).map f = (xs.filter p).map f := by
  obtain ⟨hi, rfl⟩ := List.getElem?_eq_some_iff.mp hx
  have hsplit : xs = xs.take i ++ xs[i] :: xs.drop (i + 1) := by simp
  have hset : xs.set i y = xs.take i ++ y :: xs.drop (i + 1) := by
    rw [List.set_eq_take_append_cons_drop, if_pos hi]
  rw [hset]
  conv_rhs => rw [hsplit]
  simp only [List.filter_append, List.filter_cons, hp]
  split
  · simp only [List.map_append, List.map_cons, hf]
  · rfl

end Morton.CasLoop
