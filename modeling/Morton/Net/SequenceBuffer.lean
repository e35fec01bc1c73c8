import Morton.Base.Serial
import Mathlib.Logic.Function.Basic

/-! The ring keyed by wrapping 16-bit sequences. `Tracks` says what the ring holds
in terms of unwrapped positions; each operation has one lemma over it. -/
namespace Morton.Net
open Serial

/-- `sequence_greater(u16, u16)`. -/
def sequenceGreater16 (a b : Nat) : Bool := after 32768 a b

/-- `sequence_greater(u32, u32)`. -/
def sequenceGreater32 (a b : Nat) : Bool := after 2147483648 a b

def sub16 (a b : Nat) : Nat := (a + 65536 - b) % 65536

def kEmpty : Nat := 0xffffffff

structure SequenceBuffer (α : Type) (capacity : Nat) where
  keys : Nat → Nat := fun _ => kEmpty
  values : Nat → α
  latest : Nat := 0
  hasLatest : Bool := false

def setSlot {β : Type} (slots : Nat → β) (index : Nat) (value : β) : Nat → β :=
  fun i => if i = index then value else slots i

variable {α : Type} {capacity : Nat}

/-- The loop of `remove_range` over `count` sequences from `start` on. -/
def clearFrom (capacity : Nat) : Nat → Nat → (Nat → Nat) → Nat → Nat
  | 0, _, keys => keys
  | count+1, start, keys =>
    clearFrom capacity count ((start + 1) % 65536) (setSlot keys (start % capacity) kEmpty)

def removeRange (capacity : Nat) (keys : Nat → Nat) (start stop : Nat) : Nat → Nat :=
  let span := sub16 stop start
  if capacity ≤ span then fun _ => kEmpty else clearFrom capacity (span + 1) start keys

namespace SequenceBuffer

def reset (b : SequenceBuffer α capacity) : SequenceBuffer α capacity :=
  { b with keys := fun _ => kEmpty, latest := 0, hasLatest := false }

/-- `none` is the null pointer; otherwise the slot holds a default value that the
caller fills in through `write`. -/
def insert [Inhabited α] (b : SequenceBuffer α capacity) (sequence : Nat) :
    Option (SequenceBuffer α capacity) :=
  if b.hasLatest && sequenceGreater16 b.latest sequence &&
      decide (capacity ≤ sub16 b.latest sequence) then none
  else
    let b := if !b.hasLatest || sequenceGreater16 sequence b.latest then
        { b with
          keys := removeRange capacity b.keys
            (if b.hasLatest then (b.latest + 1) % 65536 else sequence) sequence
          latest := sequence
          hasLatest := true }
      else b
    some { b with
      keys := setSlot b.keys (sequence % capacity) sequence
      values := setSlot b.values (sequence % capacity) default }

def find (b : SequenceBuffer α capacity) (sequence : Nat) : Option α :=
  if b.keys (sequence % capacity) = sequence then some (b.values (sequence % capacity)) else none

def contains (b : SequenceBuffer α capacity) (sequence : Nat) : Bool :=
  b.keys (sequence % capacity) == sequence

/-- A store through the pointer `insert` or `find` returned. -/
def write (b : SequenceBuffer α capacity) (sequence : Nat) (value : α) :
    SequenceBuffer α capacity :=
  { b with values := setSlot b.values (sequence % capacity) value }

theorem contains_eq_isSome (b : SequenceBuffer α capacity) (s : Nat) :
    b.contains s = (b.find s).isSome := by
  unfold contains find
  split <;> simp_all

/-- `p` is one of the last `capacity` positions up to `top`. -/
def InWindow (capacity top p : Nat) : Prop := p ≤ top ∧ top < p + capacity

/-- The ring after a run of inserts whose newest position is `top`, where `m`
gives the value last stored at each position inserted so far. -/
structure Tracks (b : SequenceBuffer α capacity) (top : Nat) (m : Nat → Option α) : Prop where
  started : b.hasLatest = true
  latest : b.latest = top % 65536
  absent : ∀ p, InWindow capacity top p → m p = none → b.keys (p % capacity) = kEmpty
  present : ∀ p v, InWindow capacity top p → m p = some v →
    b.keys (p % capacity) = p % 65536 ∧ b.values (p % capacity) = v
  low : ∀ i, i < capacity → top < i → b.keys i = kEmpty
  bound : ∀ p, top < p → m p = none

section
variable (hcap : capacity ∣ 65536)
include hcap

theorem pos_of_dvd : 0 < capacity := Nat.pos_of_dvd_of_pos hcap (by decide)

theorem slot_mod (p : Nat) : p % 65536 % capacity = p % capacity :=
  Nat.mod_mod_of_dvd p hcap

omit hcap in
theorem slot_inj {top p q : Nat} (hp : InWindow capacity top p) (hq : InWindow capacity top q)
    (h : p % capacity = q % capacity) : p = q := by
  obtain ⟨hp₁, hp₂⟩ := hp
  obtain ⟨hq₁, hq₂⟩ := hq
  exact eq_of_mod_eq h (by omega) (by omega)

/-- Every slot below `capacity` belongs to one position of the window, or to none
because the run is still shorter than the ring. -/
theorem slot_cases (top : Nat) {i : Nat} (hi : i < capacity) :
    top < i ∨ ∃ p, InWindow capacity top p ∧ p % capacity = i := by
  by_cases h : top < i
  · exact Or.inl h
  · refine Or.inr ⟨top - (top - i) % capacity, ?_, ?_⟩
    · have := Nat.mod_le (top - i) capacity
      have := Nat.mod_lt (top - i) (pos_of_dvd hcap)
      constructor <;> omega
    · have hdiv := Nat.mod_add_div (top - i) capacity
      have hsplit : top - (top - i) % capacity = i + capacity * ((top - i) / capacity) := by omega
      rw [hsplit, Nat.add_mul_mod_self_left, Nat.mod_eq_of_lt hi]

theorem Tracks.find_iff {b : SequenceBuffer α capacity} {top : Nat} {m : Nat → Option α}
    (h : b.Tracks top m) {s : Nat} (hs : s < 65536) {v : α} :
    b.find s = some v ↔ ∃ p, InWindow capacity top p ∧ p % 65536 = s ∧ m p = some v := by
  have hslot : s % capacity < capacity := Nat.mod_lt _ (pos_of_dvd hcap)
  have hempty : s ≠ kEmpty := by unfold kEmpty; omega
  constructor
  · intro hfind
    unfold find at hfind
    split at hfind
    next hkey =>
      rcases slot_cases hcap top hslot with hlow | ⟨p, hp, hpi⟩
      · exact absurd (hkey.symm.trans (h.low _ hslot hlow)) hempty
      · cases hm : m p with
        | none =>
          have := h.absent p hp hm
          rw [hpi, hkey] at this
          exact absurd this hempty
        | some w =>
          obtain ⟨hk, hv⟩ := h.present p w hp hm
          rw [hpi] at hk hv
          refine ⟨p, hp, hk.symm.trans hkey, ?_⟩
          rw [hm, ← hfind, hv]
    next => cases hfind
  · rintro ⟨p, hp, rfl, hm⟩
    obtain ⟨hk, hv⟩ := h.present p v hp hm
    rw [find, slot_mod hcap, if_pos hk, hv]

omit hcap in
theorem setSlot_self {β : Type} (slots : Nat → β) (i : Nat) (v : β) : setSlot slots i v i = v := by
  simp [setSlot]

omit hcap in
theorem setSlot_ne {β : Type} (slots : Nat → β) {i j : Nat} (v : β) (h : j ≠ i) :
    setSlot slots i v j = slots j := by
  simp [setSlot, h]

open Classical in
/-- Clearing `n` sequences from position `p` on empties exactly their slots. -/
theorem clearFrom_eq (n p : Nat) (keys : Nat → Nat) (i : Nat) :
    clearFrom capacity n (p % 65536) keys i =
      if ∃ q, p ≤ q ∧ q < p + n ∧ q % capacity = i then kEmpty else keys i := by
  induction n generalizing p keys with
  | zero =>
    rw [clearFrom, if_neg]
    rintro ⟨q, h₁, h₂, _⟩
    omega
  | succ n ih =>
    have hnext : (p % 65536 + 1) % 65536 = (p+1) % 65536 := by simp
    rw [clearFrom, hnext, ih, slot_mod hcap]
    by_cases hrest : ∃ q, p+1 ≤ q ∧ q < p+1+n ∧ q % capacity = i
    · obtain ⟨q, h₁, h₂, h₃⟩ := hrest
      rw [if_pos ⟨q, h₁, h₂, h₃⟩, if_pos ⟨q, by omega, by omega, h₃⟩]
    · rw [if_neg hrest]
      by_cases hi : p % capacity = i
      · rw [if_pos ⟨p, le_rfl, by omega, hi⟩, ← hi, setSlot_self]
      · rw [setSlot_ne _ _ (Ne.symm hi), if_neg]
        rintro ⟨q, h₁, h₂, h₃⟩
        have hne : q ≠ p := by rintro rfl; exact hi h₃
        exact hrest ⟨q, by omega, by omega, h₃⟩

open Classical in
/-- `remove_range` from `p` to `q` empties the slots of every position between. -/
theorem removeRange_eq {p q : Nat} (hle : p ≤ q) (hlt : q < p + 65536) (keys : Nat → Nat)
    {i : Nat} (hi : i < capacity) :
    removeRange capacity keys (p % 65536) (q % 65536) i =
      if ∃ r, p ≤ r ∧ r ≤ q ∧ r % capacity = i then kEmpty else keys i := by
  have hspan : sub16 (q % 65536) (p % 65536) = q - p := sub_mod hle hlt
  rw [removeRange, hspan]
  split
  next hall =>
    rcases slot_cases hcap q hi with hlow | ⟨r, hr, hri⟩
    · have := pos_of_dvd hcap
      omega
    · obtain ⟨h₁, h₂⟩ := hr
      rw [if_pos ⟨r, by omega, h₁, hri⟩]
  next hspan =>
    rw [clearFrom_eq hcap]
    refine if_congr ?_ rfl rfl
    constructor
    · rintro ⟨r, h₁, h₂, h₃⟩
      exact ⟨r, h₁, by omega, h₃⟩
    · rintro ⟨r, h₁, h₂, h₃⟩
      exact ⟨r, h₁, by omega, h₃⟩

section
variable {b : SequenceBuffer α capacity} {top p : Nat} {m : Nat → Option α}

omit hcap in
/-- A position of the window takes its slot, whatever was there. -/
theorem Tracks.put (h : b.Tracks top m) (hp : InWindow capacity top p) (v : α) :
    Tracks ({ b with
      keys := setSlot b.keys (p % capacity) (p % 65536)
      values := setSlot b.values (p % capacity) v } : SequenceBuffer α capacity)
      top (Function.update m p (some v)) where
  started := h.started
  latest := h.latest
  absent := by
    intro q hq hm
    have hne : q ≠ p := by
      rintro rfl
      simp at hm
    have hslot : q % capacity ≠ p % capacity := fun heq => hne (slot_inj hq hp heq)
    rw [Function.update_of_ne hne] at hm
    dsimp only
    rw [setSlot_ne _ _ hslot]
    exact h.absent q hq hm
  present := by
    intro q w hq hm
    dsimp only
    by_cases hne : q = p
    · subst hne
      rw [Function.update_self, Option.some.injEq] at hm
      exact ⟨setSlot_self _ _ _, hm ▸ setSlot_self _ _ _⟩
    · have hslot : q % capacity ≠ p % capacity := fun heq => hne (slot_inj hq hp heq)
      rw [Function.update_of_ne hne] at hm
      rw [setSlot_ne _ _ hslot, setSlot_ne _ _ hslot]
      exact h.present q w hq hm
  low := by
    intro i hi hlow
    have hne : i ≠ p % capacity := by
      have := Nat.mod_le p capacity
      have := hp.1
      omega
    dsimp only
    rw [setSlot_ne _ _ hne]
    exact h.low i hi hlow
  bound := by
    intro q hq
    have hne : q ≠ p := by
      have := hp.1
      omega
    rw [Function.update_of_ne hne]
    exact h.bound q hq

/-- A jump ahead: what stays in the window keeps its slot, the slots of the skipped are emptied. -/
theorem Tracks.advance (h : b.Tracks top m) (hlt : top < p) (hnear : p < top + 65536) :
    Tracks ({ b with
      keys := removeRange capacity b.keys ((top + 1) % 65536) (p % 65536)
      latest := p % 65536
      hasLatest := true } : SequenceBuffer α capacity) p m where
  started := rfl
  latest := rfl
  absent := by
    intro q hq hm
    dsimp only
    rw [removeRange_eq hcap hlt (by omega) _ (Nat.mod_lt _ (pos_of_dvd hcap))]
    split
    · rfl
    next hkept =>
      have hold : q ≤ top := by
        by_contra hskipped
        exact hkept ⟨q, by omega, hq.1, rfl⟩
      exact h.absent q ⟨hold, by have := hq.2; omega⟩ hm
  present := by
    intro q v hq hm
    have hold : q ≤ top := by
      by_contra hskipped
      rw [h.bound q (by omega)] at hm
      cases hm
    have hkept : ¬ ∃ r, top + 1 ≤ r ∧ r ≤ p ∧ r % capacity = q % capacity := by
      intro hskipped
      obtain ⟨r, hr, hrp, hslot⟩ := hskipped
      have hrin : InWindow capacity p r := ⟨hrp, by have := hq.2; omega⟩
      have := slot_inj hrin hq hslot
      omega
    dsimp only
    rw [removeRange_eq hcap hlt (by omega) _ (Nat.mod_lt _ (pos_of_dvd hcap)), if_neg hkept]
    exact h.present q v ⟨hold, by have := hq.2; omega⟩ hm
  low := by
    intro i hi hlow
    dsimp only
    rw [removeRange_eq hcap hlt (by omega) _ hi]
    split
    · rfl
    · exact h.low i hi (by omega)
  bound := fun q hq => h.bound q (by omega)

/-- An empty ring, at any position. -/
theorem tracks_empty (hkeys : ∀ i, b.keys i = kEmpty) :
    Tracks ({ b with
      keys := removeRange capacity b.keys (p % 65536) (p % 65536)
      latest := p % 65536
      hasLatest := true } : SequenceBuffer α capacity) p (fun _ => none) := by
  have hcleared : ∀ i < capacity,
      removeRange capacity b.keys (p % 65536) (p % 65536) i = kEmpty := by
    intro i hi
    rw [removeRange_eq hcap le_rfl (by omega) _ hi, hkeys]
    split <;> rfl
  constructor
  case started => rfl
  case latest => rfl
  case absent => exact fun q _ _ => hcleared _ (Nat.mod_lt _ (pos_of_dvd hcap))
  case present => exact fun q v _ hm => absurd hm (Option.some_ne_none v).symm
  case low => exact fun i hi _ => hcleared i hi
  case bound => exact fun _ _ => rfl

theorem inWindow_top : InWindow capacity p p := ⟨le_rfl, by have := pos_of_dvd hcap; omega⟩

section
variable [Inhabited α]

/-- The first insert starts the window. -/
theorem insert_first (hfresh : b.hasLatest = false) (hkeys : ∀ i, b.keys i = kEmpty) :
    ∃ b', b.insert (p % 65536) = some b' ∧
      b'.Tracks p (Function.update (fun _ => none) p (some default)) := by
  have hput := (tracks_empty hcap hkeys).put (inWindow_top hcap (p := p)) default
  simp only [insert, hfresh, Bool.false_and, Bool.false_eq_true, if_false, Bool.not_false,
    Bool.true_or, if_true, Option.some.injEq, exists_eq_left', slot_mod hcap]
  exact hput

/-- A sequence ahead of the newest one moves the window. -/
theorem Tracks.insert_new (h : b.Tracks top m) (hlt : top < p) (hnear : p < top + 32768) :
    ∃ b', b.insert (p % 65536) = some b' ∧
      b'.Tracks p (Function.update m p (some default)) := by
  have hput := (h.advance hcap hlt (by omega)).put (inWindow_top hcap) default
  have hold : sequenceGreater16 b.latest (p % 65536) = false := by
    rw [h.latest, sequenceGreater16, after_mod 32768 (by omega) (by omega)]
    exact decide_eq_false (by omega)
  have hnew : sequenceGreater16 (p % 65536) b.latest = true := by
    rw [h.latest, sequenceGreater16, after_mod 32768 (by omega) (by omega)]
    exact decide_eq_true hlt
  have hstart : (b.latest + 1) % 65536 = (top + 1) % 65536 := by
    rw [h.latest]
    simp
  simp only [insert, h.started, hold, hnew, Bool.and_false, Bool.false_and, Bool.false_eq_true,
    if_false, Bool.or_true, if_true, hstart, Option.some.injEq, exists_eq_left', slot_mod hcap]
  exact hput

/-- A late sequence inside the window takes its own slot. -/
theorem Tracks.insert_late (h : b.Tracks top m) (hp : InWindow capacity top p)
    (hsmall : capacity ≤ 32768) :
    ∃ b', b.insert (p % 65536) = some b' ∧
      b'.Tracks top (Function.update m p (some default)) := by
  have hput := h.put hp default
  rw [h.started] at hput
  obtain ⟨hp₁, hp₂⟩ := hp
  have hdist : sub16 b.latest (p % 65536) = top - p := by
    rw [h.latest]
    exact sub_mod hp₁ (by omega)
  have hnew : sequenceGreater16 (p % 65536) b.latest = false := by
    rw [h.latest, sequenceGreater16, after_mod 32768 (by omega) (by omega)]
    exact decide_eq_false (by omega)
  have hnot : ¬ capacity ≤ top - p := by omega
  simp only [insert, h.started, hnew, hdist, hnot, decide_false, Bool.and_false,
    Bool.false_eq_true, if_false, Bool.not_true, Bool.or_false, Option.some.injEq,
    exists_eq_left', slot_mod hcap]
  exact hput

omit hcap in
/-- A sequence that has left the window is refused. -/
theorem Tracks.insert_stale (h : b.Tracks top m) (hp : p + capacity ≤ top)
    (hnear : top < p + 32768) (hpos : 0 < capacity) : b.insert (p % 65536) = none := by
  have hdist : sub16 b.latest (p % 65536) = top - p := by
    rw [h.latest]
    exact sub_mod (by omega) (by omega)
  have hold : sequenceGreater16 b.latest (p % 65536) = true := by
    rw [h.latest, sequenceGreater16, after_mod 32768 (by omega) (by omega)]
    exact decide_eq_true (by omega)
  have hfar : capacity ≤ top - p := by omega
  simp [insert, h.started, hold, hdist, hfar]

end

/-- A store through the pointer changes the value of that position only. -/
theorem Tracks.write (h : b.Tracks top m) (hp : InWindow capacity top p) {u v : α}
    (hm : m p = some u) : (b.write (p % 65536) v).Tracks top (Function.update m p (some v)) := by
  have hkeys : setSlot b.keys (p % capacity) (p % 65536) = b.keys := by
    funext i
    by_cases hi : i = p % capacity
    · rw [hi, setSlot_self, (h.present p u hp hm).1]
    · rw [setSlot_ne _ _ hi]
  have hput := h.put hp v
  rw [hkeys] at hput
  rwa [SequenceBuffer.write, slot_mod hcap]

end
end
end SequenceBuffer
end Morton.Net
