import Morton.Base.CasLoop
import Morton.Metrics.Histogram

/-! Threads that record at the same time. Relaxed atomics order nothing between different
objects, so the accesses of a call may go on in any order, between those of any other calls.
Once every call has returned the histogram is that of the samples one after another, in the order
in which they were added up. -/
namespace Morton.Metrics
open CasLoop

def clamp (value : ℚ) : ℚ := if value < 0 then 0 else value

def sumUpdate (scale : Scale) : Update ℚ ℚ where
  wants _ _ := true
  next b a := scale.plus a b
  settled _ _ _ h := by cases h

def maxUpdate : Update ℚ ℚ where
  wants b a := decide (a < b)
  next b _ := b
  settled b c a hb hc := by
    simp only [decide_eq_false_iff_not, decide_eq_true_eq, not_lt] at hb hc ⊢
    exact hb.trans hc.le

def minUpdate : Update ℚ ℚ where
  wants b a := decide (b < a)
  next b _ := b
  settled b c a hb hc := by
    simp only [decide_eq_false_iff_not, decide_eq_true_eq, not_lt] at hb hc ⊢
    exact hc.le.trans hb

/-- A call of `record`: how far its accesses to each atomic have come. -/
structure Call where
  sample : ℚ
  bucketed : Bool := false
  counted : Bool := false
  sum : Loop ℚ := .load
  max : Loop ℚ := .load
  min : Loop ℚ := .load

namespace Call

/-- Negative samples are recorded as zero. -/
def value (c : Call) : ℚ := clamp c.sample

def returned (c : Call) : Bool :=
  c.bucketed && c.counted && c.sum.isDone && c.max.isDone && c.min.isDone

end Call

/-- The atomics of a histogram, and the calls so far. -/
structure SharedHistogram where
  buckets : Nat → Nat := fun _ => 0
  count : Nat := 0
  sum : Cell ℚ ℚ := { now := 0 }
  max : Cell ℚ ℚ := { now := 0 }
  min : Cell ℚ ℚ := { now := kNoMinimum }
  calls : List Call := []

inductive Access
  | bucket
  | count
  | sum
  | max
  | min

inductive RecordAction
  | record (value : ℚ)
  | advance (call : Nat) (access : Access) (outcome : Outcome)

namespace SharedHistogram

/-- What the atomics hold. -/
def now (s : SharedHistogram) : Histogram :=
  { buckets := s.buckets, count := s.count, sum := s.sum.now, max := s.max.now, min := s.min.now }

def access (scale : Scale) (s : SharedHistogram) (i : Nat) (c : Call) (o : Outcome) :
    Access → SharedHistogram
  | .bucket =>
    if c.bucketed then s
    else
      let index := scale.bucketOf c.value
      { s with
        buckets := fun j => if j = index then s.buckets j + 1 else s.buckets j
        calls := s.calls.set i { c with bucketed := true } }
  | .count =>
    if c.counted then s
    else { s with count := s.count + 1, calls := s.calls.set i { c with counted := true } }
  | .sum =>
    let (cell, loop) := s.sum.advance (sumUpdate scale) c.value c.sum o
    { s with sum := cell, calls := s.calls.set i { c with sum := loop } }
  | .max =>
    let (cell, loop) := s.max.advance maxUpdate c.value c.max o
    { s with max := cell, calls := s.calls.set i { c with max := loop } }
  | .min =>
    let (cell, loop) := s.min.advance minUpdate c.value c.min o
    { s with min := cell, calls := s.calls.set i { c with min := loop } }

def step (scale : Scale) (s : SharedHistogram) : RecordAction → SharedHistogram
  | .record value => { s with calls := s.calls ++ [{ sample := value }] }
  | .advance i access outcome =>
    match s.calls[i]? with
    | none => s
    | some c => s.access scale i c outcome access

/-- One of the three loops of every call, and the cell they share. -/
structure Loops (u : Update ℚ ℚ) (init : ℚ) (loop : Call → Loop ℚ) (cell : Cell ℚ ℚ)
    (calls : List Call) : Prop where
  kept : cell.Kept u init
  expected : ∀ c ∈ calls, ∀ a, loop c = .spin a → cell.Seen a
  applied : cell.applied.Perm ((calls.filter fun c => (loop c).isDone).map Call.value)

section
variable {u : Update ℚ ℚ} {init : ℚ} {loop : Call → Loop ℚ} {cell : Cell ℚ ℚ} {calls : List Call}

theorem Loops.record (h : Loops u init loop cell calls) (value : ℚ)
    (hnew : loop { sample := value } = .load) :
    Loops u init loop cell (calls ++ [{ sample := value }]) where
  kept := h.kept
  expected c hc a ha := by
    cases List.mem_append.mp hc with
    | inl hold => exact h.expected c hold a ha
    | inr hlast =>
      rw [List.mem_singleton.mp hlast, hnew] at ha
      cases ha
  applied := by
    rw [List.filter_append, List.filter_cons_of_neg (by rw [hnew]; decide), List.filter_nil,
      List.append_nil]
    exact h.applied

/-- The accesses of a call to other atomics. -/
theorem Loops.other (h : Loops u init loop cell calls) {i : Nat} {c c' : Call}
    (hc : calls[i]? = some c) (hloop : loop c' = loop c) (hvalue : c'.value = c.value) :
    Loops u init loop cell (calls.set i c') where
  kept := h.kept
  expected d hd a ha := by
    cases List.mem_or_eq_of_mem_set hd with
    | inl hold => exact h.expected d hold a ha
    | inr heq =>
      rw [heq, hloop] at ha
      exact h.expected c (List.mem_of_getElem? hc) a ha
  applied := by
    rw [filter_set_map hc (by rw [hloop]) hvalue]
    exact h.applied

theorem Loops.advance (h : Loops u init loop cell calls) {i : Nat} {c c' : Call}
    (hc : calls[i]? = some c) (o : Outcome)
    (hloop : loop c' = (cell.advance u c.value (loop c) o).2) (hvalue : c'.value = c.value) :
    Loops u init loop (cell.advance u c.value (loop c) o).1 (calls.set i c') := by
  have hdone := h.kept.advance c.value (h.expected c (List.mem_of_getElem? hc)) o
  rw [← hloop] at hdone
  refine ⟨hdone.kept, fun d hd a ha => ?_, ?_⟩
  · cases List.mem_or_eq_of_mem_set hd with
    | inl hold => exact hdone.seen a (h.expected d hold a ha)
    | inr heq => exact hdone.expected a (heq ▸ ha)
  · rcases hdone.applied with ⟨hsame, happlied⟩ | ⟨hbefore, hafter, happlied⟩
    · rw [happlied, filter_set_map hc hsame hvalue]
      exact h.applied
    · have hperm := (filter_set_perm (p := fun c => (loop c).isDone) hc hbefore hafter).map Call.value
      rw [List.map_cons, hvalue] at hperm
      rw [happlied]
      exact (List.perm_append_singleton _ _).trans ((h.applied.cons _).trans hperm.symm)

end

/-- What every atomic has taken in. -/
structure Tallied (scale : Scale) (s : SharedHistogram) : Prop where
  buckets : ∀ j, s.buckets j =
    ((s.calls.filter Call.bucketed).map fun c => scale.bucketOf c.value).count j
  count : s.count = (s.calls.filter Call.counted).length
  sum : Loops (sumUpdate scale) 0 Call.sum s.sum s.calls
  max : Loops maxUpdate 0 Call.max s.max s.calls
  min : Loops minUpdate kNoMinimum Call.min s.min s.calls

theorem tallied_new (scale : Scale) : Tallied scale {} where
  buckets _ := rfl
  count := rfl
  sum := ⟨Cell.kept_new _ _, fun c hc => (by cases hc), List.Perm.nil⟩
  max := ⟨Cell.kept_new _ _, fun c hc => (by cases hc), List.Perm.nil⟩
  min := ⟨Cell.kept_new _ _, fun c hc => (by cases hc), List.Perm.nil⟩

section
variable {scale : Scale} {s : SharedHistogram}

theorem Tallied.record (h : Tallied scale s) (value : ℚ) :
    Tallied scale { s with calls := s.calls ++ [{ sample := value }] } where
  buckets j := by
    rw [List.filter_append, List.filter_cons_of_neg (by simp), List.filter_nil, List.append_nil]
    exact h.buckets j
  count := by
    rw [List.filter_append, List.filter_cons_of_neg (by simp), List.filter_nil, List.append_nil]
    exact h.count
  sum := h.sum.record value rfl
  max := h.max.record value rfl
  min := h.min.record value rfl

theorem Tallied.access (h : Tallied scale s) {i : Nat} {c : Call} (hc : s.calls[i]? = some c)
    (o : Outcome) (access : Access) : Tallied scale (s.access scale i c o access) := by
  have hbuckets : ∀ c' : Call, c'.bucketed = c.bucketed → c'.value = c.value → ∀ j, s.buckets j =
      (((s.calls.set i c').filter Call.bucketed).map fun c => scale.bucketOf c.value).count j := by
    intro c' hsame hvalue j
    rw [filter_set_map hc hsame (by rw [hvalue])]
    exact h.buckets j
  have hcount : ∀ c' : Call, c'.counted = c.counted → s.count =
      ((s.calls.set i c').filter Call.counted).length := by
    intro c' hsame
    have hlength := congrArg List.length
      (filter_set_map (f := fun _ => ()) hc hsame rfl : ((s.calls.set i c').filter _).map _ = _)
    rw [List.length_map, List.length_map] at hlength
    rw [hlength]
    exact h.count
  cases access with
  | bucket =>
    unfold SharedHistogram.access
    dsimp only
    split
    · exact h
    next hnot =>
      rw [Bool.not_eq_true] at hnot
      refine ⟨fun j => ?_, hcount _ rfl, h.sum.other hc rfl rfl, h.max.other hc rfl rfl,
        h.min.other hc rfl rfl⟩
      have hperm := (filter_set_perm (y := { c with bucketed := true }) hc hnot rfl).map
        fun c => scale.bucketOf c.value
      have hvalue : Call.value { c with bucketed := true } = c.value := rfl
      rw [hperm.count_eq, List.map_cons, List.count_cons, ← h.buckets j, hvalue]
      dsimp only
      by_cases hj : j = scale.bucketOf c.value
      · simp [hj]
      · rw [if_neg hj, if_neg (by simpa using Ne.symm hj), Nat.add_zero]
  | count =>
    unfold SharedHistogram.access
    dsimp only
    split
    · exact h
    next hnot =>
      rw [Bool.not_eq_true] at hnot
      refine ⟨hbuckets _ rfl rfl, ?_, h.sum.other hc rfl rfl, h.max.other hc rfl rfl,
        h.min.other hc rfl rfl⟩
      have hperm := filter_set_perm (y := { c with counted := true }) hc hnot rfl
      rw [hperm.length_eq, List.length_cons, ← h.count]
  | sum =>
    exact ⟨hbuckets _ rfl rfl, hcount _ rfl, h.sum.advance hc o rfl rfl, h.max.other hc rfl rfl,
      h.min.other hc rfl rfl⟩
  | max =>
    exact ⟨hbuckets _ rfl rfl, hcount _ rfl, h.sum.other hc rfl rfl, h.max.advance hc o rfl rfl,
      h.min.other hc rfl rfl⟩
  | min =>
    exact ⟨hbuckets _ rfl rfl, hcount _ rfl, h.sum.other hc rfl rfl, h.max.other hc rfl rfl,
      h.min.advance hc o rfl rfl⟩

theorem tallied_step (s : SharedHistogram) (action : RecordAction) (h : Tallied scale s) :
    Tallied scale (s.step scale action) := by
  cases action with
  | record value => exact h.record value
  | advance i access outcome =>
    unfold step
    dsimp only
    split
    · exact h
    next c hc => exact h.access hc outcome access

end

theorem max_commutes : maxUpdate.Commutes := by
  have hmax : ∀ a b, maxUpdate.apply a b = Max.max a b := by
    intro a b
    simp only [Update.apply, maxUpdate, decide_eq_true_eq]
    split
    next h => exact (max_eq_right h.le).symm
    next h => exact (max_eq_left (not_lt.mp h)).symm
  intro a b c
  rw [hmax, hmax, hmax, hmax]
  exact max_right_comm a b c

theorem min_commutes : minUpdate.Commutes := by
  have hmin : ∀ a b, minUpdate.apply a b = Min.min a b := by
    intro a b
    simp only [Update.apply, minUpdate, decide_eq_true_eq]
    split
    next h => exact (min_eq_right h.le).symm
    next h => exact (min_eq_left (not_lt.mp h)).symm
  intro a b c
  rw [hmin, hmin, hmin, hmin]
  exact min_right_comm a b c

/-- Recording one after another, field by field. -/
theorem record_run (scale : Scale) (samples : List ℚ) (h : Histogram) :
    let h' := Run.run scale.record h samples
    (∀ j, h'.buckets j = h.buckets j + ((samples.map clamp).map scale.bucketOf).count j) ∧
    h'.count = h.count + samples.length ∧
    h'.sum = (samples.map clamp).foldl (sumUpdate scale).apply h.sum ∧
    h'.max = (samples.map clamp).foldl maxUpdate.apply h.max ∧
    h'.min = (samples.map clamp).foldl minUpdate.apply h.min := by
  induction samples generalizing h with
  | nil => exact ⟨fun _ => rfl, rfl, rfl, rfl, rfl⟩
  | cons value samples ih =>
    obtain ⟨hbuckets, hcount, hsum, hmax, hmin⟩ := ih (scale.record h value)
    refine ⟨fun j => ?_, ?_, hsum, ?_, ?_⟩
    · rw [Run.run_cons, hbuckets, List.map_cons, List.map_cons, List.count_cons]
      have hrecord : (scale.record h value).buckets j =
          if j = scale.bucketOf (clamp value) then h.buckets j + 1 else h.buckets j := rfl
      rw [hrecord]
      by_cases hj : j = scale.bucketOf (clamp value)
      · rw [if_pos hj, if_pos (by simpa using hj.symm)]
        omega
      · rw [if_neg hj, if_neg (by simpa using Ne.symm hj), Nat.add_zero]
    · have hrecord : (scale.record h value).count = h.count + 1 := rfl
      rw [Run.run_cons, hcount, hrecord, List.length_cons]
      omega
    · rw [Run.run_cons, hmax, List.map_cons, List.foldl_cons, Update.apply]
      simp only [maxUpdate, decide_eq_true_eq]
      rfl
    · rw [Run.run_cons, hmin, List.map_cons, List.foldl_cons, Update.apply]
      simp only [minUpdate, decide_eq_true_eq]
      rfl

/-- Every call has returned. -/
def Finished (s : SharedHistogram) : Prop := ∀ c ∈ s.calls, c.returned = true

theorem Finished.filter {s : SharedHistogram} (h : s.Finished) {p : Call → Bool}
    (hp : ∀ c, c.returned = true → p c = true) : s.calls.filter p = s.calls :=
  List.filter_eq_self.mpr fun c hc => hp c (h c hc)

theorem returned_parts {c : Call} (h : c.returned = true) :
    c.bucketed = true ∧ c.counted = true ∧ c.sum.isDone = true ∧ c.max.isDone = true ∧
      c.min.isDone = true := by
  simp only [Call.returned, Bool.and_eq_true] at h
  exact ⟨h.1.1.1.1, h.1.1.1.2, h.1.1.2, h.1.2, h.2⟩

section
variable {scale : Scale} {s : SharedHistogram} {samples : List ℚ}

theorem clamped (hperm : (s.calls.map Call.sample).Perm samples) :
    (s.calls.map Call.value).Perm (samples.map clamp) := by
  have hmap := hperm.map clamp
  rwa [List.map_map] at hmap

/-- A loop that takes its operands in any order leaves what they give. -/
theorem Loops.finished {u : Update ℚ ℚ} {init : ℚ} {loop : Call → Loop ℚ} {cell : Cell ℚ ℚ}
    (h : Loops u init loop cell s.calls) (hfinished : s.Finished) (hcommutes : u.Commutes)
    (hdone : ∀ c, c.returned = true → (loop c).isDone = true)
    (hperm : (s.calls.map Call.sample).Perm samples) :
    cell.now = (samples.map clamp).foldl u.apply init := by
  have happlied := h.applied
  rw [hfinished.filter hdone] at happlied
  rw [h.kept.now, hcommutes.foldl_perm (happlied.trans (clamped hperm))]

/-- All but the sum is that of the samples in any order. -/
theorem Tallied.now_eq (h : Tallied scale s) (hfinished : s.Finished)
    (hperm : (s.calls.map Call.sample).Perm samples) :
    s.now = { scale.recorded samples with sum := s.sum.now } := by
  obtain ⟨hbuckets, hcount, -, hmax, hmin⟩ := record_run scale samples {}
  rw [now, Scale.recorded, Histogram.mk.injEq]
  refine ⟨funext fun j => ?_, ?_, rfl, ?_, ?_⟩
  · rw [h.buckets j, hfinished.filter fun c hc => (returned_parts hc).1, hbuckets j, Nat.zero_add,
      ← ((clamped hperm).map scale.bucketOf).count_eq, List.map_map]
    rfl
  · rw [h.count, hfinished.filter fun c hc => (returned_parts hc).2.1, hcount, Nat.zero_add,
      ← hperm.length_eq, List.length_map]
  · rw [hmax]
    exact h.max.finished hfinished max_commutes (fun c hc => (returned_parts hc).2.2.2.1) hperm
  · rw [hmin]
    exact h.min.finished hfinished min_commutes (fun c hc => (returned_parts hc).2.2.2.2) hperm

theorem recorded_sum : (scale.recorded samples).sum =
    (samples.map clamp).foldl (sumUpdate scale).apply 0 :=
  (record_run scale samples {}).2.2.1

end

/-- However the calls overlap, whatever their loads see and however often an exchange fails:
when all of them have returned, the histogram is that of their samples in some order, that in
which the sum took them in. Of the others only the sum may differ, and it does not where the
additions do not round. -/
theorem recorders_agree (scale : Scale) (actions : List RecordAction) :
    let s := Run.run (step scale) {} actions
    (∀ c ∈ s.calls, c.returned = true) →
      (∃ samples, (s.calls.map Call.sample).Perm samples ∧ s.now = scale.recorded samples) ∧
      ∀ samples, (s.calls.map Call.sample).Perm samples →
        s.now = { scale.recorded samples with sum := s.now.sum } ∧
        ((∀ a b c, scale.plus (scale.plus a b) c = scale.plus (scale.plus a c) b) →
          s.now = scale.recorded samples) := by
  intro s hreturned
  have h : Tallied scale s :=
    Run.invariant_always (Tallied scale) tallied_step (tallied_new scale) actions
  refine ⟨?_, fun samples hperm => ⟨h.now_eq hreturned hperm, fun hexact => ?_⟩⟩
  · -- the samples in the order of the exchanges on the sum
    have happlied := h.sum.applied
    rw [Finished.filter hreturned fun c hc => (returned_parts hc).2.2.1] at happlied
    have hmap : s.sum.applied.Perm ((s.calls.map Call.sample).map clamp) := by
      rw [List.map_map]
      exact happlied
    obtain ⟨samples, heq, hperm⟩ :=
      (congrFun₂ (List.eq_map_comp_perm clamp) _ _).mpr hmap
    refine ⟨samples, hperm.symm, ?_⟩
    have hsum : s.sum.now = (scale.recorded samples).sum := by
      rw [h.sum.kept.now, heq, recorded_sum]
    rw [h.now_eq hreturned hperm.symm, hsum]
  · have hsum : s.sum.now = (scale.recorded samples).sum := by
      rw [recorded_sum]
      exact h.sum.finished hreturned hexact (fun c hc => (returned_parts hc).2.2.1) hperm
    rw [h.now_eq hreturned hperm, hsum]

/-- Two calls that overlap: each loads the sum before the other stores it. -/
def overlapping : List RecordAction :=
  [.record 3, .record 5,
    .advance 0 .sum {}, .advance 1 .sum {}, .advance 0 .sum {}, .advance 1 .sum {},
    .advance 1 .sum {}, .advance 1 .max {}, .advance 0 .max {}, .advance 1 .max {},
    .advance 0 .max {}, .advance 0 .max {}, .advance 0 .min {}, .advance 0 .min {},
    .advance 1 .min { sees := 1 }, .advance 1 .min {}, .advance 1 .min {},
    .advance 0 .bucket {}, .advance 1 .bucket {}, .advance 0 .count {}, .advance 1 .count {}]

theorem recorders_agree_overlapping :
    (Run.run (step Scale.unrounded) {} overlapping).now = Scale.unrounded.recorded [5, 3] :=
  ((recorders_agree Scale.unrounded overlapping (by decide +kernel)).2 [5, 3]
    (by decide +kernel)).2 fun a b c => add_right_comm a b c

end SharedHistogram
end Morton.Metrics
