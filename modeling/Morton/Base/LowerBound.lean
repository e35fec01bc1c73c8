import Morton.Base.Keyed

/-! `std::lower_bound`: on a list whose elements with the property come first it finds where
they end, and on a list in key order that is the place of a key. -/
namespace Morton.LowerBound
variable {α : Type*}

/-- The halving loop over `xs[first .. first + count)`; every round shortens it. -/
def halve (p : α → Bool) (xs : List α) : Nat → Nat → Nat → Nat
  | 0, first, _ => first
  | fuel+1, first, count =>
    if count = 0 then first
    else
      let half := count / 2
      if xs[first + half]?.any p then halve p xs fuel (first + half + 1) (count - half - 1)
      else halve p xs fuel first half

def lowerBound (p : α → Bool) (xs : List α) : Nat := halve p xs xs.length 0 xs.length

/-- The elements with the property come first. -/
def Partitioned (p : α → Bool) (xs : List α) : Prop :=
  xs.Pairwise fun a b => p b = true → p a = true

variable {p : α → Bool} {xs : List α}

/-- In a partitioned list the property holds before the end of its first run only. -/
theorem Partitioned.any_getElem? (h : Partitioned p xs) (i : Nat) :
    xs[i]?.any p = decide (i < (xs.takeWhile p).length) := by
  induction xs generalizing i with
  | nil => simp
  | cons x xs ih =>
    have hfirst : ∀ y ∈ xs, p y = true → p x = true := fun y hy => List.rel_of_pairwise_cons h hy
    cases hx : p x with
    | true =>
      rw [List.takeWhile_cons_of_pos hx]
      cases i with
      | zero => simp [hx]
      | succ i => simpa using ih h.of_cons i
    | false =>
      rw [List.takeWhile_cons_of_neg (by simp [hx])]
      cases i with
      | zero => simp [hx]
      | succ i =>
        cases hget : xs[i]? with
        | none => simp [hget]
        | some y =>
          have hy : p y = false := by
            cases hpy : p y with
            | true => exact absurd (hfirst y (List.mem_of_getElem? hget) hpy) (by simp [hx])
            | false => rfl
          simp [hget, hy]

/-- The end of the first run stays between `first` and `first + count`. -/
theorem Partitioned.halve_eq (h : Partitioned p xs) {fuel first count : Nat} (hfuel : count ≤ fuel)
    (hlow : first ≤ (xs.takeWhile p).length) (hhigh : (xs.takeWhile p).length ≤ first + count) :
    halve p xs fuel first count = (xs.takeWhile p).length := by
  induction fuel generalizing first count with
  | zero =>
    rw [halve]
    omega
  | succ fuel ih =>
    rw [halve]
    split
    · omega
    · dsimp only
      rw [h.any_getElem?]
      by_cases hside : first + count / 2 < (xs.takeWhile p).length
      · rw [if_pos (by simpa using hside)]
        apply ih <;> omega
      · rw [if_neg (by simpa using hside)]
        apply ih <;> omega

theorem Partitioned.lowerBound_eq (h : Partitioned p xs) :
    lowerBound p xs = (xs.takeWhile p).length := by
  apply h.halve_eq le_rfl (Nat.zero_le _)
  rw [Nat.zero_add]
  exact (List.takeWhile_sublist p).length_le

variable {key : α → Nat}

theorem partitioned_of_increasing (h : Keyed.Increasing key xs) (k : Nat) :
    Partitioned (fun a => decide (key a < k)) xs := by
  apply h.imp
  intro a b hab
  simp only [decide_eq_true_eq]
  omega

theorem drop_lowerBound (h : Keyed.Increasing key xs) (k : Nat) :
    xs.drop (lowerBound (fun a => decide (key a < k)) xs) = Keyed.above key xs k := by
  have hsplit := @Keyed.below_append_above _ key xs k
  rw [(partitioned_of_increasing h k).lowerBound_eq]
  calc xs.drop (Keyed.below key xs k).length
      = (Keyed.below key xs k ++ Keyed.above key xs k).drop (Keyed.below key xs k).length := by
        rw [hsplit]
    _ = Keyed.above key xs k := List.drop_left

theorem take_lowerBound (h : Keyed.Increasing key xs) (k : Nat) :
    xs.take (lowerBound (fun a => decide (key a < k)) xs) = Keyed.below key xs k := by
  have hsplit := @Keyed.below_append_above _ key xs k
  rw [(partitioned_of_increasing h k).lowerBound_eq]
  calc xs.take (Keyed.below key xs k).length
      = (Keyed.below key xs k ++ Keyed.above key xs k).take (Keyed.below key xs k).length := by
        rw [hsplit]
    _ = Keyed.below key xs k := List.take_left

theorem getElem?_lowerBound (h : Keyed.Increasing key xs) (k : Nat) :
    xs[lowerBound (fun a => decide (key a < k)) xs]? = (Keyed.above key xs k).head? := by
  rw [← drop_lowerBound h, List.head?_drop]

/-- A binary search that checks the key of what it finds is the lookup. -/
theorem find_lowerBound (h : Keyed.Increasing key xs) (k : Nat) :
    (xs[lowerBound (fun a => decide (key a < k)) xs]?.filter fun a => key a == k) =
      Keyed.lookup key xs k := by
  rw [getElem?_lowerBound h, Keyed.head_above h]

/-- Writing over the element found, or inserting before it, is `upsert`. -/
theorem set_lowerBound (h : Keyed.Increasing key xs) (a : α) :
    (if (xs[lowerBound (fun b => decide (key b < key a)) xs]?.filter fun b => key b == key a).isSome
      then xs.set (lowerBound (fun b => decide (key b < key a)) xs) a
      else xs.take (lowerBound (fun b => decide (key b < key a)) xs) ++
        a :: xs.drop (lowerBound (fun b => decide (key b < key a)) xs)) =
      Keyed.upsert key xs a := by
  have hdrop := drop_lowerBound h (key a)
  have htake := take_lowerBound h (key a)
  have hget := getElem?_lowerBound h (key a)
  rw [Keyed.upsert, ← htake, hget]
  generalize lowerBound (fun b => decide (key b < key a)) xs = place at *
  cases habove : Keyed.above key xs (key a) with
  | nil =>
    rw [habove] at hdrop
    simp [hdrop, Keyed.dropKey]
  | cons b rest =>
    rw [habove] at hdrop
    by_cases hkey : key b = key a
    · have hlt : place < xs.length := by
        have hlength := congrArg List.length hdrop
        rw [List.length_drop, List.length_cons] at hlength
        omega
      have hrest : xs.drop (place + 1) = rest := by
        rw [← List.drop_drop, hdrop]
        rfl
      rw [List.set_eq_take_append_cons_drop, if_pos hlt, hrest]
      simp [Keyed.dropKey, hkey]
    · simp [hdrop, Keyed.dropKey, hkey]

end Morton.LowerBound
