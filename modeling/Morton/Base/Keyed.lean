import Mathlib.Data.List.Sort

/-! Lists kept in strictly increasing key order and used as finite maps: lookup,
insertion at the lower bound, and the fact that the map determines the list. -/
namespace Morton.Keyed
variable {α : Type*} (key : α → Nat)

/-- Keys strictly increase along the list. -/
def Increasing (xs : List α) : Prop := xs.Pairwise fun a b => key a < key b

instance decidableIncreasing (xs : List α) : Decidable (Increasing key xs) :=
  inferInstanceAs (Decidable (xs.Pairwise _))

def lookup (xs : List α) (k : Nat) : Option α := xs.find? fun a => key a == k

/-- The elements before the lower bound of `k`, and those from it on. -/
def below (xs : List α) (k : Nat) : List α := xs.takeWhile fun a => decide (key a < k)

def above (xs : List α) (k : Nat) : List α := xs.dropWhile fun a => decide (key a < k)

/-- Drops the first element if it has the key. -/
def dropKey (k : Nat) : List α → List α
  | [] => []
  | b :: rest => if key b = k then rest else b :: rest

/-- Replaces the element at the lower bound if it has the key, else inserts there. -/
def upsert (xs : List α) (a : α) : List α :=
  below key xs (key a) ++ a :: dropKey key (key a) (above key xs (key a))

variable {key} {xs ys : List α}

theorem below_append_above (xs : List α) (k : Nat) : below key xs k ++ above key xs k = xs :=
  List.takeWhile_append_dropWhile

theorem lt_of_mem_below {k : Nat} {a : α} (h : a ∈ below key xs k) : key a < k := by
  have := List.all_eq_true.mp (List.all_takeWhile (p := fun a => decide (key a < k)) (l := xs)) a h
  simpa using this

theorem le_of_mem_above (hxs : Increasing key xs) {k : Nat} {a : α} (h : a ∈ above key xs k) :
    k ≤ key a := by
  have hsub : Increasing key (above key xs k) := hxs.sublist (List.dropWhile_sublist _)
  cases heq : above key xs k with
  | nil =>
    rw [heq] at h
    cases h
  | cons b rest =>
    have hb : k ≤ key b := by
      have hdrop : xs.dropWhile (fun a => decide (key a < k)) = b :: rest := heq
      have hhead := List.head_dropWhile_not (fun a => decide (key a < k)) (l := xs) (by simp [hdrop])
      simpa [hdrop] using hhead
    rw [heq] at h hsub
    rcases List.mem_cons.mp h with rfl | hmem
    · exact hb
    · exact hb.trans (Nat.le_of_lt (List.rel_of_pairwise_cons hsub hmem))

/-- In an increasing list the lookup finds the one element with the key. -/
theorem lookup_eq_some_iff (hxs : Increasing key xs) {k : Nat} {a : α} :
    lookup key xs k = some a ↔ a ∈ xs ∧ key a = k := by
  constructor
  · intro h
    exact ⟨List.mem_of_find?_eq_some h, by simpa using List.find?_some h⟩
  · rintro ⟨hmem, rfl⟩
    induction xs with
    | nil => cases hmem
    | cons b xs ih =>
      rw [lookup, List.find?_cons]
      rcases List.mem_cons.mp hmem with rfl | hmem
      · simp
      · have hlt : key b < key a := List.rel_of_pairwise_cons hxs hmem
        rw [show (key b == key a) = false from beq_eq_false_iff_ne.mpr (Nat.ne_of_lt hlt)]
        exact ih hxs.of_cons hmem

theorem lookup_eq_none_iff {k : Nat} : lookup key xs k = none ↔ ∀ a ∈ xs, key a ≠ k := by
  simp [lookup]

theorem lookup_key {k : Nat} {a : α} (h : lookup key xs k = some a) : key a = k := by
  simpa using List.find?_some h

/-- Nothing with a key from the bound on is lost. -/
theorem lookup_above (xs : List α) {k k' : Nat} (hk : k ≤ k') :
    lookup key (above key xs k) k' = lookup key xs k' := by
  have hnone : (below key xs k).find? (fun a => key a == k') = none := by
    rw [List.find?_eq_none]
    intro a ha
    have := lt_of_mem_below ha
    simp only [beq_iff_eq]
    omega
  rw [lookup, lookup, ← below_append_above xs k, List.find?_append, hnone, Option.none_or,
    below_append_above]

/-- The element at the lower bound, if it has the key, is the one looked up. -/
theorem head_above (hxs : Increasing key xs) (k : Nat) :
    ((above key xs k).head?.filter fun a => key a == k) = lookup key xs k := by
  have hsub : Increasing key (above key xs k) := hxs.sublist (List.dropWhile_sublist _)
  have hsplit : lookup key xs k = lookup key (above key xs k) k := (lookup_above xs le_rfl).symm
  rw [hsplit]
  cases heq : above key xs k with
  | nil => rfl
  | cons b rest =>
    rw [heq] at hsub
    by_cases hb : key b = k
    · simp [lookup, hb]
    · have hle : k ≤ key b := le_of_mem_above hxs (heq ▸ List.mem_cons_self)
      have hrest : ∀ a ∈ b :: rest, key a ≠ k := by
        intro a ha
        rcases List.mem_cons.mp ha with rfl | ha
        · exact hb
        · have : key b < key a := List.rel_of_pairwise_cons hsub ha
          omega
      rw [lookup_eq_none_iff.mpr hrest]
      simp [hb]

/-- The map determines the list. -/
theorem ext (hxs : Increasing key xs) (hys : Increasing key ys)
    (h : ∀ k, lookup key xs k = lookup key ys k) : xs = ys := by
  have : Std.Irrefl fun a b : α => key a < key b := ⟨fun a => Nat.lt_irrefl _⟩
  have : Std.Antisymm fun a b : α => key a < key b :=
    ⟨fun a b hab hba => absurd hab (Nat.lt_asymm hba)⟩
  refine List.Pairwise.eq_of_mem_iff hxs hys fun a => ?_
  have hx := lookup_eq_some_iff hxs (k := key a) (a := a)
  have hy := lookup_eq_some_iff hys (k := key a) (a := a)
  rw [h] at hx
  simpa using hx.symm.trans hy

theorem increasing_filter (hxs : Increasing key xs) (p : α → Bool) :
    Increasing key (xs.filter p) :=
  hxs.filter p

theorem lookup_filter (hxs : Increasing key xs) (p : α → Bool) (k : Nat) :
    lookup key (xs.filter p) k = (lookup key xs k).filter p := by
  refine Option.ext fun a => ?_
  rw [lookup_eq_some_iff (increasing_filter hxs p), Option.filter_eq_some_iff,
    lookup_eq_some_iff hxs, List.mem_filter]
  exact and_right_comm

theorem dropKey_sublist (k : Nat) (rest : List α) : (dropKey key k rest).Sublist rest := by
  cases rest with
  | nil => exact List.Sublist.refl []
  | cons c rest =>
    rw [dropKey]
    split
    · exact List.sublist_cons_self c rest
    · exact List.Sublist.refl _

/-- From the lower bound on, only the first element can have the key. -/
theorem mem_dropKey {rest : List α} (hrest : Increasing key rest) {k : Nat}
    (hle : ∀ c ∈ rest, k ≤ key c) {b : α} : b ∈ dropKey key k rest ↔ b ∈ rest ∧ k < key b := by
  cases rest with
  | nil => simp [dropKey]
  | cons c rest =>
    have hc := hle c List.mem_cons_self
    have hlater : ∀ d ∈ rest, key c < key d := fun d hd => List.rel_of_pairwise_cons hrest hd
    rw [dropKey]
    by_cases hfirst : key c = k
    · rw [if_pos hfirst, List.mem_cons]
      constructor
      · intro hb
        exact ⟨Or.inr hb, hfirst ▸ hlater b hb⟩
      · intro hb
        cases hb.1 with
        | inl heq =>
          have := hb.2
          rw [heq] at this
          omega
        | inr hmem => exact hmem
    · rw [if_neg hfirst]
      constructor
      · intro hb
        refine ⟨hb, ?_⟩
        cases List.mem_cons.mp hb with
        | inl heq =>
          rw [heq]
          omega
        | inr hmem => exact Nat.lt_of_le_of_lt hc (hlater b hmem)
      · exact And.left

theorem increasing_above (hxs : Increasing key xs) (k : Nat) : Increasing key (above key xs k) :=
  hxs.sublist (List.dropWhile_sublist _)

theorem mem_upsert (hxs : Increasing key xs) {a b : α} :
    b ∈ upsert key xs a ↔ b = a ∨ b ∈ xs ∧ key b ≠ key a := by
  have hsplit : b ∈ xs ↔ b ∈ below key xs (key a) ∨ b ∈ above key xs (key a) := by
    rw [← List.mem_append, below_append_above]
  rw [upsert, List.mem_append, List.mem_cons, hsplit,
    mem_dropKey (increasing_above hxs (key a)) fun c hc => le_of_mem_above hxs hc]
  constructor
  · intro h
    obtain hbelow | heq | ⟨habove, hlt⟩ := h
    · exact Or.inr ⟨Or.inl hbelow, Nat.ne_of_lt (lt_of_mem_below hbelow)⟩
    · exact Or.inl heq
    · exact Or.inr ⟨Or.inr habove, Nat.ne_of_gt hlt⟩
  · intro h
    obtain heq | ⟨hbelow | habove, hne⟩ := h
    · exact Or.inr (Or.inl heq)
    · exact Or.inl hbelow
    · exact Or.inr (Or.inr ⟨habove, Nat.lt_of_le_of_ne (le_of_mem_above hxs habove) hne.symm⟩)

theorem increasing_upsert (hxs : Increasing key xs) (a : α) : Increasing key (upsert key xs a) := by
  have habove := increasing_above hxs (key a)
  have hbelow : Increasing key (below key xs (key a)) := hxs.sublist (List.takeWhile_sublist _)
  have hlater : ∀ d ∈ dropKey key (key a) (above key xs (key a)), key a < key d := fun d hd =>
    ((mem_dropKey habove fun c hc => le_of_mem_above hxs hc).mp hd).2
  refine List.pairwise_append.mpr ⟨hbelow, ?_, ?_⟩
  · exact List.pairwise_cons.mpr ⟨hlater, habove.sublist (dropKey_sublist _ _)⟩
  · intro x hx y hy
    have hxlt := lt_of_mem_below hx
    cases List.mem_cons.mp hy with
    | inl heq => rwa [heq]
    | inr hy => exact hxlt.trans (hlater y hy)

theorem lookup_upsert (hxs : Increasing key xs) (a : α) (k : Nat) :
    lookup key (upsert key xs a) k = if k = key a then some a else lookup key xs k := by
  refine Option.ext fun b => ?_
  rw [lookup_eq_some_iff (increasing_upsert hxs a), mem_upsert hxs]
  split
  next hk =>
    subst hk
    constructor
    · rintro ⟨rfl | ⟨-, hne⟩, hkey⟩
      · rfl
      · exact absurd hkey hne
    · intro h
      obtain rfl := Option.some.inj h
      exact ⟨Or.inl rfl, rfl⟩
  next hk =>
    rw [lookup_eq_some_iff hxs]
    constructor
    · rintro ⟨rfl | ⟨hmem, -⟩, hkey⟩
      · exact absurd hkey.symm hk
      · exact ⟨hmem, hkey⟩
    · rintro ⟨hmem, rfl⟩
      exact ⟨Or.inr ⟨hmem, hk⟩, rfl⟩

theorem increasing_upserts (hxs : Increasing key xs) (as : List α) :
    Increasing key (as.foldl (upsert key) xs) := by
  induction as generalizing xs with
  | nil => exact hxs
  | cons a as ih => exact ih (increasing_upsert hxs a)

/-- Elements with distinct keys inserted in turn replace those with their keys. -/
theorem mem_upserts (hxs : Increasing key xs) {as : List α} (has : (as.map key).Nodup) {b : α} :
    b ∈ as.foldl (upsert key) xs ↔ b ∈ as ∨ b ∈ xs ∧ ∀ a ∈ as, key b ≠ key a := by
  induction as generalizing xs with
  | nil => simp
  | cons a as ih =>
    rw [List.map_cons, List.nodup_cons] at has
    have hfresh : ∀ c ∈ as, key a ≠ key c := fun c hc heq =>
      has.1 (heq ▸ List.mem_map_of_mem hc)
    rw [List.foldl_cons, ih (increasing_upsert hxs a) has.2, mem_upsert hxs, List.forall_mem_cons,
      List.mem_cons]
    constructor
    · rintro (hb | ⟨rfl | ⟨hb, hne⟩, hall⟩)
      · exact Or.inl (Or.inr hb)
      · exact Or.inl (Or.inl rfl)
      · exact Or.inr ⟨hb, hne, hall⟩
    · rintro ((rfl | hb) | ⟨hb, hne, hall⟩)
      · exact Or.inr ⟨Or.inl rfl, hfresh⟩
      · exact Or.inl hb
      · exact Or.inr ⟨Or.inr ⟨hb, hne⟩, hall⟩

/-- Two increasing lists with the same members are equal. -/
theorem ext_mem (hxs : Increasing key xs) (hys : Increasing key ys)
    (h : ∀ a, a ∈ xs ↔ a ∈ ys) : xs = ys := by
  refine ext hxs hys fun k => Option.ext fun a => ?_
  rw [lookup_eq_some_iff hxs, lookup_eq_some_iff hys, h]

end Morton.Keyed
