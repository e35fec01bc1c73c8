import Mathlib.Algebra.Order.Ring.Int
import Mathlib.Data.List.Infix
import Mathlib.Data.List.TakeWhile

/-! Byte strings as programs handle them: literals, decimal numerals, and the first
occurrence of one string in another. -/
namespace Morton.Text

/-- The end of a line. -/
def crlf : List UInt8 := [13, 10]

/-- The bytes of a literal. -/
def ascii (s : String) : List UInt8 := s.toList.map fun c => UInt8.ofNat c.toNat

section Find
variable {α : Type*}

/-- No occurrence of the needle starts within the first part of a text. -/
def Clear (needle first rest : List α) : Prop :=
  ∀ j < first.length, ¬ needle <+: (first ++ rest).drop j

@[simp] theorem clear_nil (needle rest : List α) : Clear needle [] rest :=
  fun _ h => absurd h (Nat.not_lt_zero _)

theorem clear_cons {needle : List α} {a : α} {first rest : List α} :
    Clear needle (a :: first) rest ↔
      ¬ needle <+: a :: (first ++ rest) ∧ Clear needle first rest := by
  constructor
  · intro h
    exact ⟨h 0 (Nat.zero_lt_succ _), fun j hj => h (j + 1) (Nat.succ_lt_succ hj)⟩
  · rintro ⟨hhead, htail⟩ j hj
    cases j with
    | zero => exact hhead
    | succ j => exact htail j (Nat.lt_of_succ_lt_succ hj)

theorem clear_append {needle first second rest : List α} :
    Clear needle (first ++ second) rest ↔
      Clear needle first (second ++ rest) ∧ Clear needle second rest := by
  induction first with
  | nil => simp
  | cons a first ih => rw [List.cons_append, clear_cons, clear_cons, ih, List.append_assoc, and_assoc]

/-- A part without the first element of the needle. -/
theorem clear_of_not_mem {a : α} {needle first : List α} (h : a ∉ first) (rest : List α) :
    Clear (a :: needle) first rest := by
  induction first with
  | nil => exact clear_nil _ _
  | cons b first ih =>
    rw [List.mem_cons, not_or] at h
    refine clear_cons.mpr ⟨fun hstarts => h.1 ?_, ih h.2⟩
    exact (List.cons_prefix_cons.mp hstarts).1

/-- What follows the first element that fails does not matter. -/
theorem takeWhile_append_stop {p : α → Bool} {x : α} (hx : p x = false)
    (first rest : List α) : (first ++ x :: rest).takeWhile p = first.takeWhile p := by
  induction first with
  | nil => simp [hx]
  | cons a first ih =>
    by_cases ha : p a = true
    · rw [List.cons_append, List.takeWhile_cons_of_pos ha, List.takeWhile_cons_of_pos ha, ih]
    · rw [List.cons_append, List.takeWhile_cons_of_neg ha, List.takeWhile_cons_of_neg ha]

theorem length_le_of_mem_splitOn [BEq α] {a : α} {text part : List α}
    (h : part ∈ text.splitOn a) : part.length ≤ text.length := by
  induction text generalizing part with
  | nil => simp_all
  | cons c text ih =>
    rw [List.splitOn_cons_eq_if_modifyHead] at h
    split at h
    · cases List.mem_cons.mp h with
      | inl heq => simp [heq]
      | inr hmem => exact Nat.le_succ_of_le (ih hmem)
    · cases hparts : text.splitOn a with
      | nil => exact absurd hparts (List.splitOn_ne_nil a text)
      | cons first parts =>
        rw [hparts] at ih h
        rw [List.modifyHead_cons] at h
        cases List.mem_cons.mp h with
        | inl heq =>
          have hfirst := ih List.mem_cons_self
          rw [heq, List.length_cons, List.length_cons]
          omega
        | inr hmem => exact Nat.le_succ_of_le (ih (List.mem_cons_of_mem _ hmem))

variable [DecidableEq α]

/-- Where the first occurrence of the needle starts. -/
def find (needle text : List α) : Option Nat := text.tails.findIdx? needle.isPrefixOf

theorem find_eq_some_iff {needle text : List α} {i : Nat} :
    find needle text = some i ↔
      i ≤ text.length ∧ needle <+: text.drop i ∧ ∀ j < i, ¬ needle <+: text.drop j := by
  unfold find
  rw [List.findIdx?_eq_some_iff_getElem]
  constructor
  · rintro ⟨hi, hhere, hbefore⟩
    rw [List.getElem_tails, List.isPrefixOf_iff_prefix] at hhere
    rw [List.length_tails] at hi
    refine ⟨by omega, hhere, fun j hj hstarts => hbefore j hj ?_⟩
    rw [List.getElem_tails, List.isPrefixOf_iff_prefix]
    exact hstarts
  · rintro ⟨hi, hhere, hbefore⟩
    refine ⟨by rw [List.length_tails]; omega, ?_, fun j hj hstarts => hbefore j hj ?_⟩
    · rw [List.getElem_tails, List.isPrefixOf_iff_prefix]
      exact hhere
    · rw [List.getElem_tails, List.isPrefixOf_iff_prefix] at hstarts
      exact hstarts

theorem find_eq_none_iff {needle text : List α} : find needle text = none ↔ ¬ needle <:+: text := by
  unfold find
  rw [List.findIdx?_eq_none_iff, List.infix_iff_prefix_suffix]
  constructor
  · rintro hnone ⟨rest, hstarts, hsuffix⟩
    have hfalse := hnone rest ((List.mem_tails _ _).mpr hsuffix)
    rw [List.isPrefixOf_iff_prefix.mpr hstarts] at hfalse
    cases hfalse
  · intro hnone rest hrest
    rw [Bool.eq_false_iff]
    intro hstarts
    exact hnone ⟨rest, List.isPrefixOf_iff_prefix.mp hstarts, (List.mem_tails _ _).mp hrest⟩

/-- What stands before the occurrence, the needle, and the rest. -/
theorem find_splits {needle text : List α} {i : Nat} (h : find needle text = some i) :
    ∃ rest, text = text.take i ++ (needle ++ rest) ∧ rest = text.drop (i + needle.length) := by
  obtain ⟨-, ⟨rest, hrest⟩, -⟩ := find_eq_some_iff.mp h
  refine ⟨rest, ?_, ?_⟩
  · rw [hrest, List.take_append_drop]
  · rw [← List.drop_drop, ← hrest, List.drop_left]

theorem find_bound {needle text : List α} {i : Nat} (h : find needle text = some i) :
    i + needle.length ≤ text.length := by
  obtain ⟨hi, hhere, -⟩ := find_eq_some_iff.mp h
  have hlength := hhere.length_le
  rw [List.length_drop] at hlength
  omega

/-- More text after it does not move the first occurrence. -/
theorem find_append_right {needle text : List α} {i : Nat} (h : find needle text = some i)
    (rest : List α) : find needle (text ++ rest) = some i := by
  have hbound := find_bound h
  obtain ⟨hi, hhere, hbefore⟩ := find_eq_some_iff.mp h
  refine find_eq_some_iff.mpr ⟨by rw [List.length_append]; omega, ?_, fun j hj hstarts => ?_⟩
  · rw [List.drop_append_of_le_length hi]
    exact hhere.trans (List.prefix_append _ _)
  · rw [List.drop_append_of_le_length (by omega)] at hstarts
    refine hbefore j hj (List.prefix_of_prefix_length_le hstarts (List.prefix_append _ _) ?_)
    rw [List.length_drop]
    omega

/-- The first occurrence stands where the clear part ends. -/
theorem find_of_clear {needle first rest : List α} (h : Clear needle first (needle ++ rest)) :
    find needle (first ++ (needle ++ rest)) = some first.length := by
  refine find_eq_some_iff.mpr ⟨by simp, ?_, h⟩
  rw [List.drop_left]
  exact List.prefix_append _ _

end Find

/-- With codes of which none starts another, a sequence of codes that starts another belongs
to a sequence that starts the other. -/
theorem prefix_of_codes {α β : Type*} {code : α → List β} (hne : ∀ a, code a ≠ [])
    (hcode : ∀ a b rest rest', code a ++ rest = code b ++ rest' → a = b ∧ rest = rest')
    {xs ys : List α} (h : xs.flatMap code <+: ys.flatMap code) : xs <+: ys := by
  induction xs generalizing ys with
  | nil => exact List.nil_prefix
  | cons x xs ih =>
    obtain ⟨more, hmore⟩ := h
    rw [List.flatMap_cons, List.append_assoc] at hmore
    cases ys with
    | nil => exact absurd (List.append_eq_nil_iff.mp hmore).1 (hne x)
    | cons y ys =>
      obtain ⟨rfl, hrest⟩ := hcode _ _ _ _ hmore
      exact List.cons_prefix_cons.mpr ⟨rfl, ih ⟨more, hrest⟩⟩

section Numerals

def isDigit (b : UInt8) : Bool := decide (48 ≤ b) && decide (b ≤ 57)

/-- The value of a string of decimal digits. -/
def value (digits : List UInt8) : Nat := digits.foldl (fun n b => 10 * n + (b.toNat - 48)) 0

def decimal (n : Nat) : List UInt8 := (Nat.toDigits 10 n).map fun c => UInt8.ofNat c.toNat

theorem decimal_ne_nil (n : Nat) : decimal n ≠ [] := by
  unfold decimal
  rw [ne_eq, List.map_eq_nil_iff]
  exact Nat.toDigits_ne_nil

theorem toNat_of_isDigit {c : Char} (h : c.isDigit = true) :
    48 ≤ c.toNat ∧ c.toNat ≤ 57 := by
  simp only [Char.isDigit, Bool.and_eq_true, decide_eq_true_eq, ge_iff_le] at h
  exact ⟨UInt32.le_iff_toNat_le.mp h.1, UInt32.le_iff_toNat_le.mp h.2⟩

theorem isDigit_of_mem_decimal {n : Nat} {b : UInt8} (h : b ∈ decimal n) : isDigit b = true := by
  obtain ⟨c, hc, rfl⟩ := List.mem_map.mp h
  obtain ⟨hlow, hhigh⟩ := toNat_of_isDigit (Nat.isDigit_of_mem_toDigits (by decide) (by decide) hc)
  have hsmall : (UInt8.ofNat c.toNat).toNat = c.toNat := by
    rw [UInt8.toNat_ofNat']
    omega
  rw [isDigit, Bool.and_eq_true, decide_eq_true_iff, decide_eq_true_iff, UInt8.le_iff_toNat_le,
    UInt8.le_iff_toNat_le, hsmall]
  exact ⟨hlow, hhigh⟩

theorem value_decimal (n : Nat) : value (decimal n) = n := by
  have hsame : ∀ (digits : List Char) (init : Nat), (∀ c ∈ digits, c.isDigit = true) →
      (digits.map fun c => UInt8.ofNat c.toNat).foldl (fun n b => 10 * n + (b.toNat - 48)) init =
        Nat.ofDigitChars 10 digits init := by
    intro digits
    induction digits with
    | nil => exact fun _ _ => rfl
    | cons c digits ih =>
      intro init hdigits
      obtain ⟨hlow, hhigh⟩ := toNat_of_isDigit (hdigits c List.mem_cons_self)
      have hsmall : (UInt8.ofNat c.toNat).toNat = c.toNat := by
        rw [UInt8.toNat_ofNat']
        omega
      rw [List.map_cons, List.foldl_cons, hsmall, Nat.ofDigitChars_cons]
      exact ih _ fun d hd => hdigits d (List.mem_cons_of_mem _ hd)
  unfold value decimal
  rw [hsame _ _ fun c hc => Nat.isDigit_of_mem_toDigits (by decide) (by decide) hc]
  exact Nat.ofDigitChars_ten_toDigits

/-- A numeral ends with its line. -/
theorem decimal_line_inj {m n : Nat} {rest rest' : List UInt8}
    (h : decimal m ++ (crlf ++ rest) = decimal n ++ (crlf ++ rest')) : m = n ∧ rest = rest' := by
  have hclear : ∀ (n : Nat) (rest : List UInt8), Clear crlf (decimal n) (crlf ++ rest) := by
    intro n rest
    exact clear_of_not_mem (fun hmem => absurd (isDigit_of_mem_decimal hmem) (by decide)) _
  have hfind := find_of_clear (hclear m rest)
  rw [h, find_of_clear (hclear n rest')] at hfind
  obtain ⟨hsame, hrest⟩ := List.append_inj h (Option.some.inj hfind).symm
  refine ⟨?_, List.append_cancel_left hrest⟩
  rw [← value_decimal m, hsame, value_decimal]

/-- `isspace` -/
def isSpace (b : UInt8) : Bool := b == 32 || decide (9 ≤ b) && decide (b ≤ 13)

/-- White space, a sign and digits: whether the sign is a minus, and the value. -/
def scanNumber (text : List UInt8) : Bool × Nat :=
  match text.dropWhile isSpace with
  | 45 :: rest => (true, value (rest.takeWhile isDigit))
  | 43 :: rest => (false, value (rest.takeWhile isDigit))
  | rest => (false, value (rest.takeWhile isDigit))

/-- `strtoll`, base 10 -/
def strtoll (text : List UInt8) : ℤ :=
  let (negative, n) := scanNumber text
  if negative then max (-n) (-2 ^ 63) else min n (2 ^ 63 - 1)

/-- `strtoull`, base 10 -/
def strtoull (text : List UInt8) : Nat :=
  let (negative, n) := scanNumber text
  if 2 ^ 64 ≤ n then 2 ^ 64 - 1
  else if negative then (2 ^ 64 - n) % 2 ^ 64
  else n

theorem strtoull_lt (text : List UInt8) : strtoull text < 2 ^ 64 := by
  unfold strtoull
  dsimp only
  split
  · omega
  · split
    · exact Nat.mod_lt _ (Nat.two_pow_pos 64)
    · omega

theorem takeWhile_digits {digits : List UInt8} (h : ∀ b ∈ digits, isDigit b = true) :
    digits.takeWhile isDigit = digits :=
  List.takeWhile_eq_self_iff.mpr h

theorem digit_bounds {b : UInt8} (h : isDigit b = true) : 48 ≤ b.toNat ∧ b.toNat ≤ 57 := by
  rw [isDigit, Bool.and_eq_true, decide_eq_true_iff, decide_eq_true_iff, UInt8.le_iff_toNat_le,
    UInt8.le_iff_toNat_le] at h
  exact h

/-- A string of digits is scanned as its value. -/
theorem scanNumber_digits {digits : List UInt8} (h : ∀ b ∈ digits, isDigit b = true) :
    scanNumber digits = (false, value digits) := by
  have hspace : digits.dropWhile isSpace = digits := by
    cases digits with
    | nil => rfl
    | cons b digits =>
      have hb := digit_bounds (h b List.mem_cons_self)
      have hnot : isSpace b = false := by
        rw [isSpace, Bool.or_eq_false_iff, beq_eq_false_iff_ne, Bool.and_eq_false_iff]
        refine ⟨fun heq => ?_, Or.inr (decide_eq_false fun hle => ?_)⟩
        · rw [heq] at hb
          exact absurd hb.1 (by decide)
        · rw [UInt8.le_iff_toNat_le] at hle
          have hthirteen : (13 : UInt8).toNat = 13 := rfl
          omega
      rw [List.dropWhile_cons_of_neg (by rw [hnot]; exact Bool.false_ne_true)]
  unfold scanNumber
  rw [hspace]
  split
  · rename_i rest
    exact absurd (h 45 List.mem_cons_self) (by decide)
  · rename_i rest
    exact absurd (h 43 List.mem_cons_self) (by decide)
  · rw [takeWhile_digits h]

theorem strtoull_decimal {n : Nat} (h : n < 2 ^ 64) : strtoull (decimal n) = n := by
  rw [strtoull, scanNumber_digits fun _ hb => isDigit_of_mem_decimal hb, value_decimal]
  dsimp only
  rw [if_neg (Nat.not_le.mpr h), if_neg Bool.false_ne_true]

end Numerals
end Morton.Text
