import Mathlib.Data.List.Basic
import Mathlib.Tactic.Linarith

/-! The loop of `WorldServer::run`: a tick is due every `tick_us`, a shard that is late runs the
missed ticks at once, and one that is more than four behind starts its schedule anew. The clock
is the list of what `now_us` returns, so whatever takes time is a gap in it. -/
namespace Morton.App
namespace Pacing

def kWakeMarginUs : Nat := 1500

def kMaxTicksBehind : Nat := 4

/-- The spinning end of `precise_sleep_until`. -/
def spinUntil (target : Nat) : List Nat → Option (List Nat)
  | [] => none
  | now :: clock => if now < target then spinUntil target clock else some clock

def preciseSleepUntil (target : Nat) : List Nat → Option (List Nat)
  | [] => none
  | now :: clock => if target ≤ now then some clock else spinUntil target clock

/-- The number of calls of `receive`, and the clock when `drain_until` returns. -/
def drainUntil (target : Nat) : Nat → List Nat → Option (Nat × List Nat)
  | _, [] => none
  | receives, now :: clock =>
    if now + kWakeMarginUs < target then drainUntil target (receives + 1) clock
    else (preciseSleepUntil target clock).map fun clock => (receives, clock)

/-- One round of the loop: when its tick was due, when it began and when it was over. -/
structure Turn where
  /-- The reading before the wait. -/
  before : Nat
  due : Nat
  receives : Nat
  current : Nat
  after : Nat
  deriving DecidableEq

/-- The next tick is one period later, unless it is too late for that. -/
def reschedule (tickUs due after : Nat) : Nat :=
  let next := due + tickUs
  if next + tickUs * kMaxTicksBehind < after then after else next

/-- One round; `reads` is how often the tick itself looks at the clock. -/
def turn (reads before due : Nat) (clock : List Nat) : Option (Turn × List Nat) :=
  match drainUntil due 0 clock with
  | none => none
  | some (_, []) => none
  | some (receives, current :: clock) =>
    match clock.drop reads with
    | [] => none
    | after :: clock => some ({ before, due, receives, current, after }, clock)

/-- The rounds of the loop; `none` when the clock ends in the middle of one. -/
def loop (tickUs : Nat) : List Nat → Nat → Nat → List Nat → Option (List Turn)
  | [], _, _, _ => some []
  | reads :: rest, before, due, clock =>
    match turn reads before due clock with
    | none => none
    | some (t, clock) =>
      (loop tickUs rest t.after (reschedule tickUs due t.after) clock).map (t :: ·)

def run (tickRate : Nat) (reads : List Nat) : List Nat → Option (List Turn)
  | [] => none
  | now :: clock => loop (1000000 / tickRate) reads now now clock

/-- A clock that never goes back. -/
def Steady (earliest : Nat) (clock : List Nat) : Prop := (earliest :: clock).Pairwise (· ≤ ·)

variable {tickUs earliest target : Nat} {clock clock' : List Nat}

theorem Steady.tail {now : Nat} (h : Steady earliest (now :: clock)) :
    earliest ≤ now ∧ Steady now clock :=
  ⟨List.rel_of_pairwise_cons h List.mem_cons_self, h.of_cons⟩

theorem Steady.mono {earlier : Nat} (h : Steady earliest clock) (hle : earlier ≤ earliest) :
    Steady earlier clock := by
  refine List.pairwise_cons.mpr ⟨fun now hnow => ?_, h.of_cons⟩
  exact hle.trans (List.rel_of_pairwise_cons h hnow)

theorem Steady.drop (h : Steady earliest clock) (n : Nat) : Steady earliest (clock.drop n) :=
  h.sublist ((List.drop_sublist n clock).cons_cons earliest)

theorem Steady.spinUntil (h : Steady earliest clock) (hspin : spinUntil target clock = some clock') :
    Steady (max earliest target) clock' := by
  induction clock generalizing earliest with
  | nil => cases hspin
  | cons now clock ih =>
    obtain ⟨hle, hrest⟩ := h.tail
    rw [Pacing.spinUntil] at hspin
    split at hspin
    · exact (ih hrest hspin).mono (max_le_max_right target hle)
    next hdue =>
      cases hspin
      exact hrest.mono (max_le hle (not_lt.mp hdue))

/-- A sleep ends at the target or after it. -/
theorem Steady.preciseSleepUntil (h : Steady earliest clock)
    (hsleep : preciseSleepUntil target clock = some clock') :
    Steady (max earliest target) clock' := by
  cases clock with
  | nil => cases hsleep
  | cons now clock =>
    obtain ⟨hle, hrest⟩ := h.tail
    rw [Pacing.preciseSleepUntil] at hsleep
    split at hsleep
    next hdue =>
      cases hsleep
      exact hrest.mono (max_le hle hdue)
    next => exact (hrest.spinUntil hsleep).mono (max_le_max_right target hle)

theorem Steady.drainUntil {receives n : Nat} (h : Steady earliest clock)
    (hdrain : drainUntil target receives clock = some (n, clock')) :
    Steady (max earliest target) clock' := by
  induction clock generalizing earliest receives with
  | nil => cases hdrain
  | cons now clock ih =>
    obtain ⟨hle, hrest⟩ := h.tail
    rw [Pacing.drainUntil] at hdrain
    split at hdrain
    · exact (ih hrest hdrain).mono (max_le_max_right target hle)
    next =>
      obtain ⟨left, hsleep, heq⟩ := Option.map_eq_some_iff.mp hdrain
      cases heq
      exact (hrest.preciseSleepUntil hsleep).mono (max_le_max_right target hle)

/-- No tick begins before it is due. -/
theorem turn_spec {reads before due : Nat} {t : Turn} (h : Steady before clock)
    (hturn : turn reads before due clock = some (t, clock')) :
    t.before = before ∧ t.due = due ∧ max before due ≤ t.current ∧ t.current ≤ t.after ∧
      Steady t.after clock' := by
  unfold turn at hturn
  split at hturn
  · cases hturn
  · cases hturn
  next receives current rest hdrain =>
    obtain ⟨hcurrent, hrest⟩ := (h.drainUntil hdrain).tail
    have hlater := hrest.drop reads
    split at hturn
    · cases hturn
    next after left hdrop =>
      rw [hdrop] at hlater
      obtain ⟨hafter, hleft⟩ := hlater.tail
      cases hturn
      exact ⟨rfl, rfl, hcurrent, hafter, hleft⟩

/-- The schedule that the rounds keep. -/
def Follows (tickUs : Nat) : Nat → Nat → List Turn → Prop
  | _, _, [] => True
  | before, due, t :: rest =>
    t.before = before ∧ t.due = due ∧ max before due ≤ t.current ∧ t.current ≤ t.after ∧
      Follows tickUs t.after (reschedule tickUs due t.after) rest

theorem loop_follows {reads : List Nat} {before due : Nat} {turns : List Turn}
    (h : Steady before clock) (hloop : loop tickUs reads before due clock = some turns) :
    Follows tickUs before due turns := by
  induction reads generalizing before due clock turns with
  | nil =>
    cases hloop
    trivial
  | cons first reads ih =>
    rw [loop] at hloop
    cases hturn : turn first before due clock with
    | none => simp [hturn] at hloop
    | some found =>
      obtain ⟨t, left⟩ := found
      simp only [hturn] at hloop
      obtain ⟨rest, hrest, rfl⟩ := Option.map_eq_some_iff.mp hloop
      obtain ⟨hbefore, hdue, hcurrent, hafter, hleft⟩ := turn_spec h hturn
      exact ⟨hbefore, hdue, hcurrent, hafter, ih hleft hrest⟩

theorem reschedule_ge (tickUs due after : Nat) : due + tickUs ≤ reschedule tickUs due after := by
  unfold reschedule
  dsimp only
  split
  · have := Nat.le_add_right (due + tickUs) (tickUs * kMaxTicksBehind)
    omega
  · exact le_rfl

/-- After every round the backlog is four ticks at most. -/
theorem reschedule_near (tickUs due after : Nat) :
    after ≤ reschedule tickUs due after + tickUs * kMaxTicksBehind := by
  unfold reschedule
  dsimp only
  split
  · exact Nat.le_add_right _ _
  next hnear => exact not_lt.mp hnear

/-- The wait ends soon after the tick is due, and the tick soon after that. -/
def Turn.Prompt (late work : Nat) (t : Turn) : Prop :=
  t.current ≤ max t.before t.due + late ∧ t.after ≤ t.current + work

instance (late work : Nat) (t : Turn) : Decidable (t.Prompt late work) :=
  inferInstanceAs (Decidable (_ ∧ _))

theorem Follows.due_ge {before due : Nat} {turns : List Turn} (h : Follows tickUs before due turns)
    {i : Nat} {t : Turn} (ht : turns[i]? = some t) : due + i * tickUs ≤ t.due := by
  induction turns generalizing before due i with
  | nil => simp at ht
  | cons first rest ih =>
    obtain ⟨-, hdue, -, -, hrest⟩ := h
    cases i with
    | zero =>
      cases ht
      omega
    | succ i =>
      have hlater := ih hrest ht
      have hnext := reschedule_ge tickUs due first.after
      rw [Nat.succ_mul]
      omega

theorem Follows.drop {before due : Nat} {turns : List Turn} (h : Follows tickUs before due turns)
    {i : Nat} {t : Turn} (ht : turns[i]? = some t)
    (hnear : before ≤ due + tickUs * kMaxTicksBehind) :
    Follows tickUs t.before t.due (turns.drop i) ∧
      t.before ≤ t.due + tickUs * kMaxTicksBehind := by
  induction turns generalizing before due i with
  | nil => simp at ht
  | cons first rest ih =>
    cases i with
    | zero =>
      cases ht
      obtain ⟨hbefore, hdue, hrest⟩ := h
      exact ⟨⟨rfl, rfl, hbefore ▸ hdue ▸ hrest⟩, hbefore ▸ hdue ▸ hnear⟩
    | succ i => exact ih h.2.2.2.2 ht (reschedule_near tickUs due first.after)

/-- How far behind its schedule a round was before the wait. -/
def Turn.backlog (t : Turn) : Nat := t.before - t.due

/-- Prompt rounds keep the schedule and gain on it. -/
theorem Follows.gains {before due late work : Nat} {turns : List Turn}
    (h : Follows tickUs before due turns) (hnear : before ≤ due + tickUs * kMaxTicksBehind)
    (hfast : late + work ≤ tickUs) {j : Nat} {t : Turn} (ht : turns[j]? = some t)
    (hprompt : ∀ k earlier, k < j → turns[k]? = some earlier → earlier.Prompt late work) :
    t.due = due + j * tickUs ∧ t.backlog ≤ before - due - j * (tickUs - (late + work)) := by
  induction turns generalizing before due j with
  | nil => simp at ht
  | cons first rest ih =>
    obtain ⟨hbefore, hdue, hcurrent, hafter, hrest⟩ := h
    cases j with
    | zero =>
      cases ht
      rw [Turn.backlog, hdue, hbefore]
      omega
    | succ j =>
      have hfirst := hprompt 0 first (Nat.succ_pos j) rfl
      rw [Turn.Prompt, hbefore, hdue] at hfirst
      obtain ⟨hwoke, hworked⟩ := hfirst
      have hbehind : first.after ≤ due + tickUs + tickUs * kMaxTicksBehind := by omega
      have hnext : reschedule tickUs due first.after = due + tickUs := by
        unfold reschedule
        dsimp only
        rw [if_neg (by omega)]
      rw [hnext] at hrest
      obtain ⟨hdues, hleft⟩ := ih hrest hbehind ht fun k earlier hk hget =>
        hprompt (k + 1) earlier (Nat.succ_lt_succ hk) hget
      have hgain : first.after - (due + tickUs) ≤ before - due - (tickUs - (late + work)) := by
        omega
      refine ⟨?_, ?_⟩
      · rw [hdues, Nat.succ_mul]
        omega
      · refine hleft.trans ?_
        rw [Nat.succ_mul]
        generalize j * (tickUs - (late + work)) = gained at *
        omega

theorem run_follows {tickRate : Nat} {reads : List Nat} {turns : List Turn}
    (hsteady : clock.Pairwise (· ≤ ·)) (hrun : run tickRate reads clock = some turns) :
    ∃ now, Follows (1000000 / tickRate) now now turns := by
  cases clock with
  | nil => cases hrun
  | cons now clock => exact ⟨now, loop_follows hsteady hrun⟩

/-- How much later than it could a wait returned. -/
def Turn.overslept (t : Turn) : Nat := t.current - max t.before t.due

/-- A first tick that takes a tenth of a second, and what `now_us` returns from then on. -/
def stalled : List Nat :=
  [0, 0, 0, 0, 100000, 100000, 100000, 100010, 110010, 110010, 110010, 110020, 120020, 120020,
    120020, 120030, 130030, 130030, 132000, 132001, 132500, 133340, 133341, 143341]

def stalledTurns : List Turn :=
  [⟨0, 0, 0, 0, 100000⟩, ⟨100000, 33333, 0, 100010, 110010⟩, ⟨110010, 66666, 0, 110020, 120020⟩,
    ⟨120020, 99999, 0, 120030, 130030⟩, ⟨130030, 133332, 1, 133341, 143341⟩]

/-- In every run no tick begins early, and however late the shard was before, it runs four ticks
more than its rate allows at most: a backlog is never made up for in a longer burst. -/
theorem bursts_bounded {tickRate : Nat} {reads : List Nat} {turns : List Turn}
    (hsteady : clock.Pairwise (· ≤ ·)) (hrun : run tickRate reads clock = some turns) {i n : Nat}
    {a b : Turn} (ha : turns[i]? = some a) (hb : turns[i + n]? = some b) :
    let tickUs := 1000000 / tickRate
    a.due + n * tickUs ≤ b.current ∧
      a.current + n * tickUs ≤ b.current + tickUs * kMaxTicksBehind + a.overslept := by
  intro tickUs
  obtain ⟨now, hfollows⟩ : ∃ now, Follows tickUs now now turns := run_follows hsteady hrun
  clear_value tickUs
  obtain ⟨hrest, hnear⟩ := hfollows.drop ha (Nat.le_add_right now _)
  have hget : (turns.drop i)[n]? = some b := by rw [List.getElem?_drop, hb]
  have hdue := hrest.due_ge hget
  have hstart : b.due ≤ b.current := by
    obtain ⟨hlast, -⟩ := hfollows.drop hb (Nat.le_add_right now _)
    rw [List.drop_eq_getElem?_toList_append, hb] at hlast
    exact (le_max_right _ _).trans hlast.2.2.1
  have hslept : a.current ≤ max a.before a.due + a.overslept := by
    rw [Turn.overslept]
    omega
  generalize n * tickUs = elapsed at *
  omega

theorem bursts_bounded_stalled :
    (0 : Nat) + 4 * 33333 ≤ 133341 ∧ 100010 + 3 * 33333 ≤ 133341 + 33333 * kMaxTicksBehind + 10 :=
  ⟨(bursts_bounded (by decide) (show run 30 (List.replicate 5 0) stalled = some stalledTurns by
      decide) (i := 0) (n := 4) rfl rfl).1,
    (bursts_bounded (by decide) (show run 30 (List.replicate 5 0) stalled = some stalledTurns by
      decide) (i := 1) (n := 3) rfl rfl).2⟩

/-- As long as the waits and the ticks are prompt and fit into the period, no tick is dropped,
and whatever backlog there was shrinks by the spare time with every tick until each begins when
it is due. -/
theorem catches_up {tickRate : Nat} {reads : List Nat} {turns : List Turn}
    (hsteady : clock.Pairwise (· ≤ ·)) (hrun : run tickRate reads clock = some turns)
    {late work : Nat} (hfast : late + work ≤ 1000000 / tickRate) {i n : Nat} {a b : Turn}
    (ha : turns[i]? = some a) (hb : turns[i + n]? = some b)
    (hprompt : ∀ k t, i ≤ k → k ≤ i + n → turns[k]? = some t → t.Prompt late work) :
    let tickUs := 1000000 / tickRate
    b.due = a.due + n * tickUs ∧ a.backlog ≤ tickUs * kMaxTicksBehind ∧
      b.backlog ≤ a.backlog - n * (tickUs - (late + work)) ∧
      b.current ≤ b.due + b.backlog + late := by
  intro tickUs
  obtain ⟨now, hfollows⟩ : ∃ now, Follows tickUs now now turns := run_follows hsteady hrun
  replace hfast : late + work ≤ tickUs := hfast
  clear_value tickUs
  obtain ⟨hrest, hnear⟩ := hfollows.drop ha (Nat.le_add_right now _)
  have hget : (turns.drop i)[n]? = some b := by rw [List.getElem?_drop, hb]
  obtain ⟨hdue, hleft⟩ := hrest.gains hnear hfast hget fun k earlier hk hearlier =>
    hprompt (i + k) earlier (Nat.le_add_right i k) (Nat.add_le_add_left hk.le i)
      (by rwa [List.getElem?_drop] at hearlier)
  refine ⟨hdue, ?_, hleft, ?_⟩
  · exact Nat.sub_le_iff_le_add'.mpr hnear
  · obtain ⟨hwoke, -⟩ := hprompt (i + n) b (Nat.le_add_right i n) le_rfl hb
    rw [Turn.backlog]
    omega

/-- Of 66667 that the stall left, three ticks make up for all. -/
theorem catches_up_stalled :
    (133332 : Nat) = 33333 + 3 * 33333 ∧ 100000 - 33333 ≤ 33333 * kMaxTicksBehind ∧
      130030 - 133332 ≤ 100000 - 33333 - 3 * (33333 - (10 + 10000)) ∧
      133341 ≤ 133332 + (130030 - 133332) + 10 := by
  have hrun : run 30 (List.replicate 5 0) stalled = some stalledTurns := by decide
  have hprompt : ∀ k t, 1 ≤ k → k ≤ 1 + 3 → stalledTurns[k]? = some t → t.Prompt 10 10000 := by
    intro k t hlow hhigh ht
    have hall : ∀ t ∈ stalledTurns.drop 1, t.Prompt 10 10000 := by decide
    apply hall t
    rw [List.mem_iff_getElem?]
    refine ⟨k - 1, ?_⟩
    rw [List.getElem?_drop, Nat.add_sub_cancel' hlow, ht]
  exact catches_up (by decide) hrun (by decide) (i := 1) (n := 3) rfl rfl hprompt

end Pacing
end Morton.App
