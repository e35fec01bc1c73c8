import Mathlib.Data.List.Infix
import Mathlib.Data.Nat.Bitwise
import Mathlib.Data.Nat.ModEq
import Mathlib.Tactic.Ring

/-! Frames that tell where they end: streams of them, also cut off anywhere, and lengths written
with the most significant byte first. -/
namespace Morton

/-- A code whose decoder takes one frame off the front of what is there. -/
structure Framing (α β : Type) where
  encode : α → List β
  decode : List β → Option (α × List β)
  Fits : α → Prop
  decode_nil : decode [] = none
  decode_encode {a : α} : Fits a → decode (encode a) = some (a, [])
  decode_append {xs rest : List β} {a : α} (ys : List β) :
    decode xs = some (a, rest) → decode (xs ++ ys) = some (a, rest ++ ys)

namespace Framing
variable {α β : Type} (f : Framing α β)

/-- The whole frames at the front, at most `n`, and what is left. -/
def decodeAll : Nat → List β → List α × List β
  | 0, xs => ([], xs)
  | n+1, xs =>
    match f.decode xs with
    | none => ([], xs)
    | some (a, rest) => (a :: (decodeAll n rest).1, (decodeAll n rest).2)

variable {f}

theorem encode_ne_nil {a : α} (h : f.Fits a) : f.encode a ≠ [] := by
  intro hnil
  have hdecode := f.decode_encode h
  rw [hnil, f.decode_nil] at hdecode
  cases hdecode

/-- Part of a frame is not a frame. -/
theorem decode_part {a : α} (h : f.Fits a) {part : List β} (hpart : part.IsPrefix (f.encode a))
    (hne : part ≠ f.encode a) : f.decode part = none := by
  obtain ⟨more, hmore⟩ := hpart
  cases hdecode : f.decode part with
  | none => rfl
  | some found =>
    have hwhole := f.decode_append more hdecode
    rw [hmore, f.decode_encode h] at hwhole
    obtain ⟨-, hleft⟩ := Prod.mk.inj (Option.some.inj hwhole)
    have hnone : more = [] := (List.append_eq_nil_iff.mp hleft.symm).2
    rw [hnone, List.append_nil] at hmore
    exact absurd hmore hne

theorem decodeAll_nil (n : Nat) : f.decodeAll n [] = ([], []) := by
  cases n with
  | zero => rfl
  | succ n => simp [decodeAll, f.decode_nil]

theorem decodeAll_part {part : List β} (h : f.decode part = none) (n : Nat) :
    f.decodeAll n part = ([], part) := by
  cases n with
  | zero => rfl
  | succ n => simp [decodeAll, h]

theorem decodeAll_frame {a : α} (h : f.Fits a) (n : Nat) (ys : List β) :
    f.decodeAll (n + 1) (f.encode a ++ ys) =
      (a :: (f.decodeAll n ys).1, (f.decodeAll n ys).2) := by
  have hdecode := f.decode_append ys (f.decode_encode h)
  rw [List.nil_append] at hdecode
  simp [decodeAll, hdecode]

/-- From a stream of frames that is cut off anywhere come the frames before the cut, in order. -/
theorem decodeAll_cut {items : List α} (h : ∀ a ∈ items, f.Fits a) {xs : List β}
    (hcut : xs.IsPrefix (items.flatMap f.encode)) {n : Nat} (hn : xs.length ≤ n) :
    ∃ k, (f.decodeAll n xs).1 = items.take k ∧
      (items.take k).flatMap f.encode ++ (f.decodeAll n xs).2 = xs := by
  induction items generalizing xs n with
  | nil =>
    obtain rfl := List.prefix_nil.mp hcut
    exact ⟨0, by simp [decodeAll_nil]⟩
  | cons a items ih =>
    have hfits := h a List.mem_cons_self
    rw [List.flatMap_cons] at hcut
    by_cases hwhole : (f.encode a).IsPrefix xs
    · obtain ⟨ys, rfl⟩ := hwhole
      have hlength := List.length_pos_iff.mpr (encode_ne_nil hfits)
      rw [List.length_append] at hn
      obtain ⟨n, rfl⟩ : ∃ m, n = m + 1 := ⟨n - 1, by omega⟩
      obtain ⟨k, hitems, hleft⟩ := ih (fun b hb => h b (List.mem_cons_of_mem a hb))
        ((List.prefix_append_right_inj _).mp hcut) (show ys.length ≤ n by omega)
      refine ⟨k + 1, ?_⟩
      rw [decodeAll_frame hfits, hitems, List.take_succ_cons, List.flatMap_cons,
        List.append_assoc, hleft]
      exact ⟨rfl, rfl⟩
    · refine ⟨0, ?_⟩
      have hpart : xs.IsPrefix (f.encode a) := by
        cases List.prefix_or_prefix_of_prefix hcut (List.prefix_append _ _) with
        | inl hpart => exact hpart
        | inr hover => exact absurd hover hwhole
      have hne : xs ≠ f.encode a := fun heq => hwhole (heq ▸ List.prefix_refl xs)
      simp [decodeAll_part (decode_part hfits hpart hne)]

/-- A stream of whole frames is decoded to their items. -/
theorem decodeAll_stream {items : List α} (h : ∀ a ∈ items, f.Fits a) {n : Nat}
    (hn : (items.flatMap f.encode).length ≤ n) :
    f.decodeAll n (items.flatMap f.encode) = (items, []) := by
  induction items generalizing n with
  | nil => exact decodeAll_nil n
  | cons a items ih =>
    have hfits := h a List.mem_cons_self
    have hlength := List.length_pos_iff.mpr (encode_ne_nil hfits)
    rw [List.flatMap_cons] at hn ⊢
    rw [List.length_append] at hn
    obtain ⟨n, rfl⟩ : ∃ m, n = m + 1 := ⟨n - 1, by omega⟩
    have hrest := ih (fun b hb => h b (List.mem_cons_of_mem a hb)) (show _ ≤ n by omega)
    rw [decodeAll_frame hfits, hrest]

variable (f) in
/-- The frames of some of the items, in their order. -/
def Carries (items : List α) (xs : List β) : Prop :=
  ∃ chosen : List α, chosen.Sublist items ∧ (∀ a ∈ chosen, f.Fits a) ∧ xs = chosen.flatMap f.encode

theorem carries_nil (items : List α) : f.Carries items [] :=
  ⟨[], List.nil_sublist items, fun _ ha => absurd ha List.not_mem_nil, rfl⟩

theorem Carries.mono {items items' : List α} {xs : List β} (h : f.Carries items xs)
    (hsub : items.Sublist items') : f.Carries items' xs := by
  obtain ⟨chosen, hchosen, hfits, hxs⟩ := h
  exact ⟨chosen, hchosen.trans hsub, hfits, hxs⟩

theorem Carries.append {items : List α} {xs : List β} (h : f.Carries items xs) {a : α}
    (ha : f.Fits a) : f.Carries (items ++ [a]) (xs ++ f.encode a) := by
  obtain ⟨chosen, hchosen, hfits, hxs⟩ := h
  refine ⟨chosen ++ [a], hchosen.append_right [a], ?_, ?_⟩
  · intro b hb
    cases List.mem_append.mp hb with
    | inl hb => exact hfits b hb
    | inr hb => exact List.mem_singleton.mp hb ▸ ha
  · rw [hxs, List.flatMap_append, List.flatMap_singleton]

end Framing

namespace BigEndian

def byteAt (n i : Nat) : UInt8 := UInt8.ofNat (n >>> (i * 8) &&& 0xff)

def value : List UInt8 → Nat
  | [] => 0
  | b :: bytes => b.toNat * 256 ^ bytes.length + value bytes

/-- The low `k` bytes of `n`. -/
def bytes (k n : Nat) : List UInt8 := (List.range k).reverse.map (byteAt n)

@[simp] theorem bytes_length (k n : Nat) : (bytes k n).length = k := by
  simp [bytes]

theorem byteAt_toNat (n i : Nat) : (byteAt n i).toNat = n / 256 ^ i % 256 := by
  have hmask : n >>> (i * 8) &&& 0xff = n / 256 ^ i % 256 := by
    rw [Nat.and_two_pow_sub_one_eq_mod _ 8, Nat.shiftRight_eq_div_pow, Nat.mul_comm, Nat.pow_mul]
  rw [byteAt, hmask, UInt8.toNat_ofNat', Nat.mod_mod]

theorem value_bytes (k n : Nat) : value (bytes k n) = n % 256 ^ k := by
  induction k with
  | zero => simp [bytes, value, Nat.mod_one]
  | succ k ih =>
    have hcons : bytes (k + 1) n = byteAt n k :: bytes k n := by
      rw [bytes, List.range_succ, List.reverse_append, List.reverse_singleton, List.singleton_append,
        List.map_cons, ← bytes]
    rw [hcons, value, ih, byteAt_toNat, bytes_length, Nat.mod_pow_succ]
    ring

end BigEndian
end Morton
