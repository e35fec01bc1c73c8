import Mathlib.Data.List.Count
import Mathlib.Data.List.Induction
import Mathlib.Logic.Function.Basic
import Mathlib.Tactic.Linarith

/-! Counting sort of the indices of a list of codes: count, prefix sums, scatter. Arrays are
functions from their indices. -/
namespace Morton.CountingSort
open Function

/-- `++start[code + 1]` for every code. -/
def tally (codes : List Nat) : Nat → Nat :=
  codes.foldl (fun start code => update start (code + 1) (start (code + 1) + 1)) fun _ => 0

/-- `start[c + 1] += start[c]` for every cell in turn. -/
def accumulate (cells : Nat) (start : Nat → Nat) : Nat → Nat :=
  (List.range cells).foldl (fun start c => update start (c + 1) (start (c + 1) + start c)) start

/-- `sorted[cursor[code]++] = index` for every code: the cursors and the sorted indices. -/
def scatter (start : Nat → Nat) (codes : List Nat) : (Nat → Nat) × (Nat → Nat) :=
  codes.zipIdx.foldl
    (fun (cursor, sorted) (code, index) =>
      (update cursor code (cursor code + 1), update sorted (cursor code) index))
    (start, fun _ => 0)

/-- The entries of an array between two positions. -/
def slice (entries : Nat → Nat) (first last : Nat) : List Nat :=
  (List.range' first (last - first)).map entries

/-- The indices at which a code stands, ascending. -/
def indices (codes : List Nat) (code : Nat) : List Nat :=
  (List.range codes.length).filter fun i => codes[i]? == some code

theorem tally_eq (codes : List Nat) (c : Nat) :
    tally codes c = if c = 0 then 0 else codes.count (c - 1) := by
  induction codes using List.reverseRecOn with
  | nil => simp [tally]
  | append_singleton codes code ih =>
    rw [tally, List.foldl_append, List.foldl_cons, List.foldl_nil, ← tally, List.count_append,
      List.count_singleton, update_apply]
    by_cases hc : c = code + 1
    · subst hc
      rw [if_pos rfl, ih]
      simp
    · rw [if_neg hc, ih]
      by_cases h0 : c = 0
      · rw [if_pos h0, if_pos h0]
      · have hne : (code == c - 1) = false := by
          rw [beq_eq_false_iff_ne]
          omega
        rw [if_neg h0, if_neg h0, hne]
        rfl

theorem countP_lt_succ (codes : List Nat) (c : Nat) :
    codes.countP (fun code => decide (code < c + 1)) =
      codes.countP (fun code => decide (code < c)) + codes.count c := by
  induction codes with
  | nil => rfl
  | cons code codes ih =>
    rw [List.countP_cons, List.countP_cons, List.count_cons, ih]
    rcases Nat.lt_trichotomy code c with h | rfl | h
    · simp [h, show code < c + 1 by omega, Nat.ne_of_lt h]
      omega
    · simp
      omega
    · simp [show ¬ code < c by omega, show ¬ code < c + 1 by omega, Nat.ne_of_gt h]

/-- The prefix sums of the counts: how many codes are below each cell. -/
theorem accumulate_tally (codes : List Nat) (cells c : Nat) :
    accumulate cells (tally codes) c =
      if c ≤ cells then codes.countP fun code => decide (code < c) else tally codes c := by
  induction cells generalizing c with
  | zero =>
    rw [accumulate, List.range_zero, List.foldl_nil, tally_eq]
    cases c with
    | zero => simp
    | succ c => simp
  | succ cells ih =>
    rw [accumulate, List.range_succ, List.foldl_append, ← accumulate, List.foldl_cons,
      List.foldl_nil, update_apply]
    by_cases hc : c = cells + 1
    · subst hc
      rw [if_pos rfl, ih, ih, if_neg (by omega), if_pos le_rfl, if_pos le_rfl, tally_eq,
        if_neg (by omega), Nat.add_sub_cancel, countP_lt_succ, Nat.add_comm]
    · rw [if_neg hc, ih]
      by_cases hle : c ≤ cells
      · rw [if_pos hle, if_pos (by omega)]
      · rw [if_neg hle, if_neg (by omega)]

theorem indices_append (codes : List Nat) (code c : Nat) :
    indices (codes ++ [code]) c =
      if code = c then indices codes c ++ [codes.length] else indices codes c := by
  have hold : (List.range codes.length).filter (fun i => (codes ++ [code])[i]? == some c) =
      indices codes c :=
    List.filter_congr fun i hi => by rw [List.getElem?_append_left (List.mem_range.mp hi)]
  rw [indices, List.length_append, List.length_singleton, List.range_succ, List.filter_append,
    hold, List.filter_cons, List.filter_nil, List.getElem?_concat_length]
  by_cases h : code = c
  · simp [h]
  · simp [h]

theorem mem_indices {codes : List Nat} {c i : Nat} : i ∈ indices codes c ↔ codes[i]? = some c := by
  rw [indices, List.mem_filter, List.mem_range, beq_iff_eq]
  constructor
  · exact And.right
  · intro h
    exact ⟨(List.getElem?_eq_some_iff.mp h).1, h⟩

/-- As long as the parts of the array do not meet, scattering a prefix of the codes fills
each part with the indices of its code. -/
theorem scatter_spec {start : Nat → Nat} {all : List Nat}
    (hparts : ∀ c ∈ all, ∀ c' ∈ all, c < c' → start c + all.count c ≤ start c') {codes : List Nat}
    (hleading : codes.IsPrefix all) (c : Nat) :
    (scatter start codes).1 c = start c + codes.count c ∧
      (List.range' (start c) (codes.count c)).map (scatter start codes).2 = indices codes c := by
  induction codes using List.reverseRecOn generalizing c with
  | nil => exact ⟨by simp [scatter], by simp [indices]⟩
  | append_singleton codes code ih =>
    have hleading' : codes.IsPrefix all := (List.prefix_append codes [code]).trans hleading
    have hstep : scatter start (codes ++ [code]) =
        (update (scatter start codes).1 code ((scatter start codes).1 code + 1),
          update (scatter start codes).2 ((scatter start codes).1 code) codes.length) := by
      rw [scatter, List.zipIdx_append, List.foldl_append, ← scatter, List.zipIdx_singleton,
        List.foldl_cons, List.foldl_nil, Nat.zero_add]
    have hcursor := (ih hleading' code).1
    have hfull : codes.count code + 1 ≤ all.count code := by
      have := hleading.sublist.count_le code
      rwa [List.count_append, List.count_singleton_self] at this
    rw [hstep, hcursor, indices_append, List.count_append, List.count_singleton]
    dsimp only
    rw [update_apply]
    obtain ⟨hc, hslice⟩ := ih hleading' c
    by_cases h : code = c
    · subst h
      refine ⟨by simp; omega, ?_⟩
      have hbefore : (List.range' (start code) (codes.count code)).map
          (update (scatter start codes).2 (start code + codes.count code) codes.length) =
          (List.range' (start code) (codes.count code)).map (scatter start codes).2 := by
        refine List.map_congr_left fun i hi => update_of_ne ?_ _ _
        have := (List.mem_range'_1.mp hi).2
        omega
      rw [if_pos rfl, beq_self_eq_true, if_pos rfl, List.range'_concat, List.map_append, hbefore,
        hslice]
      simp
    · have hne : (code == c) = false := beq_eq_false_iff_ne.mpr h
      rw [if_neg (Ne.symm h), hne, if_neg h]
      refine ⟨by simpa using hc, ?_⟩
      rw [← hslice, if_neg (by simp), Nat.add_zero]
      refine List.map_congr_left fun i hi => update_of_ne ?_ _ _
      -- the position written lies in the part of another code
      obtain ⟨hlow, hhigh⟩ := List.mem_range'_1.mp hi
      have hpart := hleading'.sublist.count_le c
      have hcode : code ∈ all := List.count_pos_iff.mp (by omega)
      have hmem : c ∈ all := List.count_pos_iff.mp (by omega)
      rcases Nat.lt_or_gt_of_ne h with hlt | hgt
      · have := hparts code hcode c hmem hlt
        omega
      · have := hparts c hmem code hcode hgt
        omega

theorem countP_parts (codes : List Nat) {c c' : Nat} (h : c < c') :
    codes.countP (fun code => decide (code < c)) + codes.count c ≤
      codes.countP fun code => decide (code < c') := by
  rw [← countP_lt_succ]
  refine List.countP_mono_left fun code _ hlt => ?_
  simp only [decide_eq_true_eq] at hlt ⊢
  omega

/-- Between the start of a code and the next one stand the indices of that code. -/
theorem slice_sorted (codes : List Nat) {cells c : Nat} (hc : c < cells)
    (hcodes : ∀ code ∈ codes, code < cells) :
    let start := accumulate cells (tally codes)
    slice (scatter start codes).2 (start c) (start (c + 1)) = indices codes c := by
  intro start
  have hstart : ∀ c ≤ cells, start c = codes.countP fun code => decide (code < c) := fun c hc =>
    (accumulate_tally codes cells c).trans (if_pos hc)
  have hparts : ∀ c ∈ codes, ∀ c' ∈ codes, c < c' → start c + codes.count c ≤ start c' := by
    intro c hc c' hc' hlt
    rw [hstart c (Nat.le_of_lt (hcodes c hc)), hstart c' (Nat.le_of_lt (hcodes c' hc'))]
    exact countP_parts codes hlt
  have hcount : start (c + 1) - start c = codes.count c := by
    rw [hstart (c + 1) hc, hstart c (Nat.le_of_lt hc), countP_lt_succ]
    omega
  rw [slice, hcount]
  exact (scatter_spec hparts (List.prefix_refl codes) c).2

theorem start_zero (codes : List Nat) (cells : Nat) : accumulate cells (tally codes) 0 = 0 := by
  simp [accumulate_tally]

theorem start_mono (codes : List Nat) {cells c c' : Nat} (h : c ≤ c') (hc' : c' ≤ cells) :
    accumulate cells (tally codes) c ≤ accumulate cells (tally codes) c' := by
  rw [accumulate_tally, accumulate_tally, if_pos (h.trans hc'), if_pos hc']
  apply List.countP_mono_left
  intro code _ hlt
  simp only [decide_eq_true_eq] at hlt ⊢
  omega

theorem start_last {codes : List Nat} {cells : Nat} (hcodes : ∀ code ∈ codes, code < cells) :
    accumulate cells (tally codes) cells = codes.length := by
  rw [accumulate_tally, if_pos le_rfl, List.countP_eq_length]
  simpa using hcodes

theorem slice_append (entries : Nat → Nat) {a b c : Nat} (hab : a ≤ b) (hbc : b ≤ c) :
    slice entries a b ++ slice entries b c = slice entries a c := by
  have hcut : List.range' a (b - a) ++ List.range' (a + (b - a)) (c - b) =
      List.range' a (b - a + (c - b)) := List.range'_append_1
  rw [show a + (b - a) = b by omega, show b - a + (c - b) = c - a by omega] at hcut
  rw [slice, slice, slice, ← List.map_append, hcut]

/-- The indices at which a code below `c` stands. -/
def below (codes : List Nat) (c : Nat) : List Nat :=
  (List.range codes.length).filter fun i => codes[i]?.any fun code => decide (code < c)

theorem below_succ (codes : List Nat) (c : Nat) :
    (below codes c ++ indices codes c).Perm (below codes (c + 1)) := by
  have hsplit := List.filter_append_perm
    (fun i => codes[i]?.any fun code => decide (code < c)) (below codes (c + 1))
  have hlow : (below codes (c + 1)).filter
      (fun i => codes[i]?.any fun code => decide (code < c)) = below codes c := by
    rw [below, List.filter_filter]
    apply List.filter_congr
    intro i _
    cases codes[i]? with
    | none => rfl
    | some code => simp; omega
  have hhigh : (below codes (c + 1)).filter
      (fun i => !codes[i]?.any fun code => decide (code < c)) = indices codes c := by
    rw [below, List.filter_filter]
    apply List.filter_congr
    intro i _
    cases codes[i]? with
    | none => rfl
    | some code =>
      rw [Bool.eq_iff_iff]
      simp
      omega
  rwa [hlow, hhigh] at hsplit

/-- Up to the start of a code stand the indices of the codes below it. -/
theorem sorted_below {codes : List Nat} {cells : Nat} (hcodes : ∀ code ∈ codes, code < cells)
    {c : Nat} (hc : c ≤ cells) :
    let start := accumulate cells (tally codes)
    (slice (scatter start codes).2 0 (start c)).Perm (below codes c) := by
  intro start
  induction c with
  | zero =>
    rw [show start 0 = 0 from start_zero codes cells]
    simp [slice, below]
  | succ c ih =>
    have hcell := slice_sorted codes (Nat.lt_of_succ_le hc) hcodes
    rw [← slice_append _ (Nat.zero_le _) (start_mono codes (Nat.le_succ c) hc), hcell]
    exact ((ih (by omega)).append_right _).trans (below_succ codes c)

theorem sorted_perm {codes : List Nat} {cells : Nat} (hcodes : ∀ code ∈ codes, code < cells) :
    (slice (scatter (accumulate cells (tally codes)) codes).2 0 codes.length).Perm
      (List.range codes.length) := by
  have hall : below codes cells = List.range codes.length := by
    apply List.filter_eq_self.mpr
    intro i hi
    have hlt := List.mem_range.mp hi
    rw [List.getElem?_eq_getElem hlt, Option.any_some]
    exact decide_eq_true (hcodes _ (List.getElem_mem hlt))
  have hsorted := sorted_below hcodes le_rfl
  dsimp only at hsorted
  rwa [start_last hcodes, hall] at hsorted

end Morton.CountingSort
