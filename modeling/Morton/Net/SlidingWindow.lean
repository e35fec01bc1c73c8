import Morton.Base.Run
import Morton.Net.SequenceBuffer

/-! The ring against the window it stands for: the inserts of a run on a line of positions, which
do not wrap. The ring finds what was inserted at the last `capacity` positions. -/
namespace Morton.Net
open Serial

/-- The inserts since a reset by their positions, the last one first. -/
structure Timeline (α : Type) where
  newest : Nat
  entries : List (Nat × α)

namespace Timeline
variable {α : Type}

/-- The position with this sequence that is nearest to the newest one. -/
def positionOf (t : Timeline α) (sequence : Nat) : Nat :=
  let ahead := sub16 sequence (t.newest % 65536)
  if ahead < 32768 then t.newest + ahead else t.newest + ahead - 65536

/-- The first sequence is taken one lap up, so that there are positions behind it. -/
def add : Option (Timeline α) → Nat × α → Option (Timeline α)
  | none, (sequence, value) => some ⟨65536 + sequence, [(65536 + sequence, value)]⟩
  | some t, (sequence, value) =>
    some ⟨max t.newest (t.positionOf sequence), (t.positionOf sequence, value) :: t.entries⟩

/-- A 16-bit sequence, and fewer than `2 ^ 15` ahead of or behind the latest one. -/
def Near : Option (Timeline α) → Nat × α → Prop
  | none, (sequence, _) => sequence < 65536
  | some t, (sequence, _) => sequence < 65536 ∧
    (sub16 sequence (t.newest % 65536) < 32768 ∨ sub16 (t.newest % 65536) sequence < 32768)

instance decidableNear : ∀ (t : Option (Timeline α)) (x : Nat × α), Decidable (Near t x)
  | none, (sequence, _) => inferInstanceAs (Decidable (sequence < 65536))
  | some _, _ => inferInstanceAs (Decidable (_ ∧ _))

/-- The value last inserted at a position. -/
def lastAt (t : Timeline α) (p : Nat) : Option α := t.entries.lookup p

theorem lastAt_isSome_iff {t : Timeline α} {p : Nat} :
    (t.lastAt p).isSome ↔ ∃ v, (p, v) ∈ t.entries := by
  rw [lastAt, List.lookup_isSome_iff]
  constructor
  · intro h
    obtain ⟨⟨q, v⟩, hmem, hq⟩ := h
    exact ⟨v, by rwa [eq_of_beq hq]⟩
  · intro h
    obtain ⟨v, hmem⟩ := h
    exact ⟨(p, v), hmem, beq_self_eq_true p⟩

theorem lastAt_cons (newest : Nat) (entries : List (Nat × α)) (p : Nat) (v : α) :
    (⟨newest, (p, v) :: entries⟩ : Timeline α).lastAt =
      Function.update (fun q => entries.lookup q) p (some v) := by
  funext q
  rw [lastAt, List.lookup_cons]
  by_cases h : q = p
  · simp [h]
  · have hne : (q == p) = false := beq_eq_false_iff_ne.mpr h
    rw [hne, Function.update_of_ne h]

section
variable {t : Timeline α} (hnewest : 65536 ≤ t.newest) {s : Nat} {v : α} (h : Near (some t) (s, v))
include h

include hnewest in
theorem positionOf_mod : t.positionOf s % 65536 = s := by
  have hs : s < 65536 := h.1
  unfold positionOf sub16
  dsimp only
  split
  · omega
  · omega

theorem positionOf_near :
    t.positionOf s < t.newest + 32768 ∧ t.newest < t.positionOf s + 32768 := by
  obtain ⟨hs, hnear⟩ := h
  unfold sub16 at hnear
  unfold positionOf sub16
  dsimp only
  split
  · omega
  · omega

end
end Timeline

namespace SequenceBuffer
open Timeline
variable {α : Type} {capacity : Nat}

/-- The caller inserts a sequence and stores a value through the pointer. -/
def store [Inhabited α] (b : SequenceBuffer α capacity) : Nat × α → SequenceBuffer α capacity
  | (sequence, value) =>
    match b.insert sequence with
    | none => b
    | some b => b.write sequence value

theorem store_of_insert [Inhabited α] {b b' : SequenceBuffer α capacity} {s : Nat}
    (h : b.insert s = some b') (v : α) : b.store (s, v) = b'.write s v := by
  rw [store, h]

theorem store_of_refused [Inhabited α] {b : SequenceBuffer α capacity} {s : Nat}
    (h : b.insert s = none) (v : α) : b.store (s, v) = b := by
  rw [store, h]

/-- What is known of positions that have left the window does not matter. -/
theorem Tracks.outside {b : SequenceBuffer α capacity} {top p : Nat} {m : Nat → Option α}
    (h : b.Tracks top m) (hp : p + capacity ≤ top) (o : Option α) :
    b.Tracks top (Function.update m p o) where
  started := h.started
  latest := h.latest
  absent := by
    intro q hq hm
    have hne : q ≠ p := by
      have := hq.2
      omega
    rw [Function.update_of_ne hne] at hm
    exact h.absent q hq hm
  present := by
    intro q v hq hm
    have hne : q ≠ p := by
      have := hq.2
      omega
    rw [Function.update_of_ne hne] at hm
    exact h.present q v hq hm
  low := h.low
  bound := by
    intro q hq
    rw [Function.update_of_ne (by omega)]
    exact h.bound q hq

/-- The ring after the inserts on a timeline. -/
structure Follows (b : SequenceBuffer α capacity) (t : Timeline α) : Prop where
  lap : 65536 ≤ t.newest
  tracks : b.Tracks t.newest t.lastAt

/-- The ring holds what the timeline says; before the first insert it is empty. -/
def Refines (b : SequenceBuffer α capacity) : Option (Timeline α) → Prop
  | none => b.hasLatest = false ∧ ∀ i, b.keys i = kEmpty
  | some t => b.Follows t

theorem refines_reset (b : SequenceBuffer α capacity) : b.reset.Refines none :=
  ⟨rfl, fun _ => rfl⟩

section
variable [Inhabited α] (hcap : capacity ∣ 65536) {b : SequenceBuffer α capacity}
include hcap

theorem Tracks.store {b' : SequenceBuffer α capacity} {top p s : Nat} {m : Nat → Option α}
    (hinsert : b.insert s = some b') (hs : p % 65536 = s)
    (h : b'.Tracks top (Function.update m p (some default))) (hp : InWindow capacity top p)
    (v : α) : (b.store (s, v)).Tracks top (Function.update m p (some v)) := by
  have hwrite := h.write hcap hp (Function.update_self p (some default) m) (v := v)
  rw [Function.update_idem, hs] at hwrite
  rwa [store_of_insert hinsert]

variable (hsmall : capacity ≤ 32768)
include hsmall

theorem Follows.insert_eq_none_iff {t : Timeline α} (h : b.Follows t) {s : Nat} {v : α}
    (hnear : Near (some t) (s, v)) : b.insert s = none ↔ t.positionOf s + capacity ≤ t.newest := by
  obtain ⟨hahead, hbehind⟩ := positionOf_near hnear
  have hs := positionOf_mod h.lap hnear
  constructor
  · intro hnone
    by_contra hwindow
    by_cases hnew : t.newest < t.positionOf s
    · obtain ⟨b', hinsert, -⟩ := h.tracks.insert_new hcap hnew hahead
      rw [hs, hnone] at hinsert
      cases hinsert
    · have hlate : InWindow capacity t.newest (t.positionOf s) := ⟨by omega, by omega⟩
      obtain ⟨b', hinsert, -⟩ := h.tracks.insert_late hcap hlate hsmall
      rw [hs, hnone] at hinsert
      cases hinsert
  · intro hstale
    rw [← hs]
    exact h.tracks.insert_stale hstale hbehind (pos_of_dvd hcap)

theorem Follows.store {t : Timeline α} (h : b.Follows t) {s : Nat} {v : α}
    (hnear : Near (some t) (s, v)) : (b.store (s, v)).Refines (add (some t) (s, v)) := by
  have hahead := (positionOf_near hnear).1
  have hs := positionOf_mod h.lap hnear
  have hlap := h.lap
  constructor
  · exact hlap.trans (Nat.le_max_left _ _)
  · rw [lastAt_cons]
    dsimp only
    by_cases hnew : t.newest < t.positionOf s
    · obtain ⟨b', hinsert, htracks⟩ := h.tracks.insert_new hcap hnew hahead
      rw [hs] at hinsert
      rw [Nat.max_eq_right (Nat.le_of_lt hnew)]
      exact Tracks.store hcap hinsert hs htracks (inWindow_top hcap) v
    · rw [Nat.max_eq_left (Nat.le_of_not_lt hnew)]
      by_cases hwindow : t.newest < t.positionOf s + capacity
      · obtain ⟨b', hinsert, htracks⟩ := h.tracks.insert_late hcap ⟨by omega, hwindow⟩ hsmall
        rw [hs] at hinsert
        exact Tracks.store hcap hinsert hs htracks ⟨by omega, hwindow⟩ v
      · have hstale : t.positionOf s + capacity ≤ t.newest := by omega
        have hnone := (h.insert_eq_none_iff hcap hsmall hnear).mpr hstale
        rw [store_of_refused hnone]
        exact h.tracks.outside hstale (some v)

/-- One insert, the first one included. -/
theorem refines_store {o : Option (Timeline α)} {x : Nat × α} (hnear : Near o x)
    (h : b.Refines o) : (b.store x).Refines (add o x) := by
  obtain ⟨s, v⟩ := x
  cases o with
  | some t => exact Follows.store hcap hsmall h hnear
  | none =>
    have hs : (65536 + s) % 65536 = s := by
      have : s < 65536 := hnear
      omega
    obtain ⟨b', hinsert, htracks⟩ := insert_first hcap (p := 65536 + s) h.1 h.2
    rw [hs] at hinsert
    constructor
    · exact Nat.le_add_right 65536 s
    · rw [lastAt_cons]
      exact Tracks.store hcap hinsert hs htracks (inWindow_top hcap) v

/-- The whole run: ring and timeline go side by side. -/
theorem refines_run {o : Option (Timeline α)} {inserts : List (Nat × α)} (h : b.Refines o)
    (hnear : Run.Along add Near o inserts) :
    (Run.run store b inserts).Refines (Run.run add o inserts) := by
  induction inserts generalizing b o with
  | nil => exact h
  | cons x inserts ih => exact ih (refines_store hcap hsmall hnear.1 h) hnear.2

theorem Refines.insert_eq_none_iff {o : Option (Timeline α)} (h : b.Refines o) {x : Nat × α}
    (hnear : Near o x) : b.insert x.1 = none ↔
      ∃ t, o = some t ∧ t.positionOf x.1 + capacity ≤ t.newest := by
  obtain ⟨s, v⟩ := x
  cases o with
  | some t => simpa using Follows.insert_eq_none_iff hcap hsmall h hnear
  | none => simp [insert, h.1]

omit [Inhabited α] hsmall in
theorem Refines.find_iff {o : Option (Timeline α)} (h : b.Refines o) {s : Nat} (hs : s < 65536)
    {v : α} : b.find s = some v ↔ ∃ t p, o = some t ∧ p % 65536 = s ∧ t.newest < p + capacity ∧
      t.lastAt p = some v := by
  cases o with
  | some t =>
    rw [h.tracks.find_iff hcap hs]
    constructor
    · intro hfound
      obtain ⟨p, hp, hps, hv⟩ := hfound
      exact ⟨t, p, rfl, hps, hp.2, hv⟩
    · intro hentry
      obtain ⟨line, p, hline, hps, hp, hv⟩ := hentry
      obtain rfl := Option.some.inj hline
      refine ⟨p, ⟨?_, hp⟩, hps, hv⟩
      by_contra hafter
      rw [h.tracks.bound p (by omega)] at hv
      cases hv
  | none =>
    have hempty : kEmpty ≠ s := by
      unfold kEmpty
      omega
    simp [find, h.2, hempty]

omit [Inhabited α] hsmall in
theorem Refines.contains_iff {o : Option (Timeline α)} (h : b.Refines o) {s : Nat}
    (hs : s < 65536) : b.contains s = true ↔ ∃ t p v, o = some t ∧ p % 65536 = s ∧
      t.newest < p + capacity ∧ (p, v) ∈ t.entries := by
  rw [contains_eq_isSome, Option.isSome_iff_exists]
  constructor
  · intro hfound
    obtain ⟨v, hv⟩ := hfound
    obtain ⟨t, p, ht, hps, hp, hlast⟩ := (h.find_iff hcap hs).mp hv
    obtain ⟨w, hw⟩ := lastAt_isSome_iff.mp (Option.isSome_of_eq_some hlast)
    exact ⟨t, p, w, ht, hps, hp, hw⟩
  · intro hentry
    obtain ⟨t, p, w, ht, hps, hp, hw⟩ := hentry
    obtain ⟨v, hlast⟩ := Option.isSome_iff_exists.mp (lastAt_isSome_iff.mpr ⟨w, hw⟩)
    exact ⟨v, (h.find_iff hcap hs).mpr ⟨t, p, ht, hps, hp, hlast⟩⟩

end

/-- For a capacity of `2 ^ k` the ring is an exact sliding window. After any run of inserts that
each stay within half a lap of the latest one, an insert is refused exactly when its position is
`capacity` or more behind, and the ring finds exactly the sequences that were inserted at a
position fewer than `capacity` behind, with the value last inserted there. -/
theorem exact_window [Inhabited α] {k : Nat} (hk : k ≤ 14) (b : SequenceBuffer α (2 ^ k))
    (inserts : List (Nat × α)) (hnear : Run.Along add Near none inserts) :
    let after := Run.run store b.reset inserts
    let t := Run.run add none inserts
    (∀ x, Near t x → (after.insert x.1 = none ↔
      ∃ line, t = some line ∧ line.positionOf x.1 + 2 ^ k ≤ line.newest)) ∧
    (∀ s < 65536, ∀ v, after.find s = some v ↔
      ∃ line p, t = some line ∧ p % 65536 = s ∧ line.newest < p + 2 ^ k ∧
        line.lastAt p = some v) ∧
    ∀ s < 65536, after.contains s = true ↔
      ∃ line p v, t = some line ∧ p % 65536 = s ∧ line.newest < p + 2 ^ k ∧
        (p, v) ∈ line.entries := by
  have hcap : 2 ^ k ∣ 65536 := pow_dvd_pow 2 (show k ≤ 16 by omega)
  have hsmall : 2 ^ k ≤ 32768 := Nat.pow_le_pow_right (n := 2) (by decide) (show k ≤ 15 by omega)
  have hrefines := refines_run hcap hsmall (refines_reset b) hnear
  exact ⟨fun x hx => hrefines.insert_eq_none_iff hcap hsmall hx,
    fun s hs v => hrefines.find_iff hcap hs, fun s hs => hrefines.contains_iff hcap hs⟩

/-- Inserts around the wrap into 32 slots, the fourth of them refused. -/
theorem exact_window_wrapped :
    let inserts := [(65530, 1), (4, 2), (65531, 3), (65490, 4), (4, 5)]
    let b := Run.run store (⟨fun _ => 7, fun _ => 0, 9, true⟩ : SequenceBuffer Nat (2 ^ 5)).reset
      inserts
    b.find 4 = some 5 ∧ b.find 65531 = some 3 ∧ b.insert 65490 = none := by
  intro inserts b
  have hnear : Run.Along add Near none inserts := by decide
  have h := exact_window (by decide : 5 ≤ 14) ⟨fun _ => 7, fun _ => 0, 9, true⟩ inserts hnear
  refine ⟨(h.2.1 4 (by decide) 5).mpr ?_, (h.2.1 65531 (by decide) 3).mpr ?_,
    (h.1 (65490, 0) (by decide)).mpr ?_⟩
  · exact ⟨_, 131076, rfl, by decide, by decide, by decide⟩
  · exact ⟨_, 131067, rfl, by decide, by decide, by decide⟩
  · exact ⟨_, rfl, by decide⟩

end SequenceBuffer
end Morton.Net
