import Morton.App.Residency

/-! How the record of a player moves from shard to shard. The scripts compare before they
write; `HSET`, and a script that meets no record, do not. -/
namespace Morton.App
open Proto Sim Cluster

/-- The cluster, the shard that each player's record named last, also when the record is
gone, and the shard that each matchmaker's last `HGETALL` found in the record it asked for. -/
structure Chronicle (R A : Type) where
  fleet : Fleet R A
  named : Bytes → Option Bytes
  found : Nat → Option Bytes

namespace Chronicle
variable {R A : Type}

def start (s : Fleet R A) : Chronicle R A := ⟨s, s.redis.shardOf, fun _ => none⟩

/-- The shard waits for the outcome of a handoff to `target`. -/
def HandsTo (target : Bytes) (p : ShardProcess R A) : Prop :=
  ∃ client plan stamped sentMs rest expired,
    p.task = some (.handoff client plan stamped sentMs rest expired) ∧ stamped.toShard = target

/-- The record still leads where its writer takes it from. A matchmaker that writes a record
back: to the shard its `HGETALL` found. A shard that writes a record: to the shard itself. A
shard that hands a player over without a record: to the shard itself, or to the target. -/
def Current (c : Chronicle R A) : FleetAction A → Prop
  | .matchExec m =>
    match (c.fleet.matchmakers m).next with
    | some (.setPresence player _ _ _ _) =>
      ∀ old, c.named player = some old → c.found m = some old
    | _ => True
  | .shardExec id =>
    match (c.fleet.shards id).next with
    | some (.setPresence player _ _ _ _) => ∀ old, c.named player = some old → old = id
    | some (.transfer player _ _ _ _ _) => c.fleet.redis.shardOf player = none →
      ∀ old, c.named player = some old → old = id ∨ HandsTo old (c.fleet.shards id)
    | _ => True
  | _ => True

/-- What the matchmakers' last `HGETALL` found, after one more step. -/
def finds (c : Chronicle R A) (a : FleetAction A) : Nat → Option Bytes :=
  match a with
  | .matchExec m =>
    match (c.fleet.matchmakers m).next with
    | some (.getPresence player) => Function.update c.found m (c.fleet.redis.shardOf player)
    | _ => c.found
  | _ => c.found

/-- A command finds its record where its writer takes it from, and leaves it there. -/
def Meets (c : Chronicle R A) : RedisCommand → Prop
  | .setPresence player shard _ _ _ => ∀ old, c.named player = some old → old = shard
  | .transfer player fromShard toShard _ _ _ => c.fleet.redis.shardOf player = none →
      ∀ old, c.named player = some old → old = fromShard ∨ old = toShard
  | _ => True

/-- What a record names now it named last. -/
def Faithful (c : Chronicle R A) : Prop :=
  ∀ player shard, c.fleet.redis.shardOf player = some shard → c.named player = some shard

/-- What a matchmaker has found it goes by: the reply that is in, and the record it is
about to write back. -/
def Recalls (found : Option Bytes) (replies : List RedisReply) : MatchTask → Prop
  | .lookup player _ =>
    ∀ record, readPresence player (some replies) = some record → found = some record.shardId
  | .restore existing _ _ => found = some existing.shardId
  | _ => True

theorem recalls_nil (found : Option Bytes) {task : MatchTask}
    (h : ∀ existing owner now, task ≠ .restore existing owner now) : Recalls found [] task := by
  cases task with
  | restore existing owner now => exact absurd rfl (h existing owner now)
  | lookup player live =>
    intro record hread
    cases hread
  | _ => trivial

/-- Only an answered lookup leads to writing the record back. -/
theorem recalls_resume {m : Matchmaker} {found : Option Bytes} {replies : List RedisReply}
    {task : MatchTask} (h : Recalls found replies task) (now : Nat)
    {answer : Option (List RedisReply)} (hanswer : ∀ rs, answer = some rs → rs = replies)
    {next : MatchTask} (hnext : (m.resume now answer task).2 = some next) :
    Recalls found [] next := by
  have hclaims : ∀ player live, (m.claimFor player live now).2 = some next →
      Recalls found [] next := by
    intro player live hclaim
    unfold Matchmaker.claimFor at hclaim
    split at hclaim
    · cases hclaim
    · cases hclaim
      trivial
  cases task with
  | lookup player live =>
    simp only [Matchmaker.resume] at hnext
    split at hnext
    · exact hclaims _ _ hnext
    · rename_i existing hread
      split at hnext
      · cases hnext
        obtain ⟨hread, -⟩ := Option.filter_eq_some_iff.mp hread
        cases answer with
        | none => cases hread
        | some rs =>
          rw [hanswer rs rfl] at hread
          exact h existing hread
      · cases hnext
        trivial
  | restore existing owner sent => cases hnext
  | clearLookup player live =>
    cases hnext
    trivial
  | clear player record live =>
    simp only [Matchmaker.resume] at hnext
    cases live with
    | none => cases hnext
    | some live => exact hclaims _ _ hnext
  | claim record live sent =>
    simp only [Matchmaker.resume] at hnext
    split at hnext
    · split at hnext
      · cases hnext
      · cases hnext
    · split at hnext
      · cases hnext
      · cases hnext
        trivial
  | relookup player winner => cases hnext

/-- What holds in every run of a fresh cluster. -/
structure Sound (c : Chronicle R A) : Prop where
  faithful : c.Faithful
  shards : ∀ id, Fleet.Sound id (c.fleet.shards id)
  sent : c.fleet.MatchSent
  recalls : ∀ m task, (c.fleet.matchmakers m).task = some task →
    Recalls (c.found m) (c.fleet.matchmakers m).flight.replies task

theorem sound_start {s : Fleet R A} (h : s.Fresh) : (start s).Sound where
  faithful _ _ hshard := hshard
  shards := h.sound
  sent := h.matchSent
  recalls m task htask := by cases (h.matchIdle m).1.symm.trans htask

theorem finds_of_executes_none {c : Chronicle R A} {a : FleetAction A}
    (h : c.fleet.executes a = none) : c.finds a = c.found := by
  cases a with
  | matchExec m =>
    rw [Fleet.executes] at h
    rw [finds, h]
  | _ => rfl

/-- One command of a matchmaker: a reply to its lookup is what it now has found. -/
theorem Sound.recalls_exec {c : Chronicle R A} (h : c.Sound) {m : Nat} {task : MatchTask}
    {command : RedisCommand} (htask : (c.fleet.matchmakers m).task = some task)
    (hnext : (c.fleet.matchmakers m).flight.next = some command)
    (hexec : c.fleet.executes (.matchExec m) = some command) :
    Recalls (c.finds (.matchExec m) m)
      ((c.fleet.matchmakers m).flight.replies ++ [(c.fleet.redis.exec command).2]) task := by
  have hold := h.recalls m task htask
  have hmem : command ∈ (c.fleet.matchmakers m).state.commands task := by
    rw [← h.sent m task htask]
    exact List.mem_of_getElem? hnext
  rw [Fleet.executes] at hexec
  cases task with
  | lookup player live =>
    cases List.mem_singleton.mp hmem
    -- the only reply is the record just read
    have hnone : (c.fleet.matchmakers m).flight.replies = [] := by
      have hlt := (List.getElem?_eq_some_iff.mp hnext).1
      rw [h.sent m _ htask, Matchmaker.commands, List.length_singleton] at hlt
      exact List.length_eq_zero_iff.mp (Nat.lt_one_iff.mp hlt)
    intro record hread
    rw [hnone] at hread
    simp only [Redis.exec, List.nil_append, readPresence] at hread
    rw [finds, hexec]
    dsimp only
    rw [Function.update_self, Redis.shardOf]
    split at hread
    · rename_i hash rest hreply
      cases hread
      injection (List.cons.inj (Option.some.inj hreply)).1 with hlookup
      rw [hlookup]
      rfl
    · cases hread
  | restore existing owner sent =>
    rw [finds, hexec]
    simp only [Matchmaker.commands, setPresenceCommands, List.mem_cons, List.not_mem_nil,
      or_false] at hmem
    rcases hmem with rfl | rfl | rfl | rfl <;> exact hold
  | _ => trivial

theorem finds_of_ne (c : Chronicle R A) {m n : Nat} (hne : n ≠ m) :
    c.finds (.matchExec m) n = c.found n := by
  have hcases : c.finds (.matchExec m) = c.found ∨
      ∃ found, c.finds (.matchExec m) = Function.update c.found m found := by
    unfold finds
    dsimp only
    split
    · exact Or.inr ⟨_, rfl⟩
    · exact Or.inl rfl
  rcases hcases with heq | ⟨found, heq⟩
  · rw [heq]
  · rw [heq, Function.update_of_ne hne]

/-- What each writer writes: a shard its own id, in its own handoffs; a matchmaker what it
has found. -/
theorem current_iff_meets {c : Chronicle R A} (h : c.Sound) (a : FleetAction A) :
    c.Current a ↔ ∀ command, c.fleet.executes a = some command → c.Meets command := by
  cases a with
  | shardExec id =>
    rw [Current, Fleet.executes]
    cases hexec : (c.fleet.shards id).next with
    | none => simp
    | some command =>
      have hsound := h.shards id
      obtain ⟨task, htask, hmem⟩ : ∃ task, (c.fleet.shards id).task = some task ∧
          command ∈ (c.fleet.shards id).state.commands task := by
        rw [Process.next] at hexec
        split at hexec
        · rename_i hwaits
          obtain ⟨task, htask⟩ := Option.isSome_iff_exists.mp hwaits
          refine ⟨task, htask, ?_⟩
          rw [← hsound.sent task htask]
          exact List.mem_of_getElem? hexec
        · cases hexec
      have hwrites := Fleet.commands_writes (hsound.awaits task htask) hmem
      simp only [Option.some.injEq, forall_eq']
      cases command with
      | setPresence player shard region session updated =>
        have hshard : shard = id := hwrites.2.trans hsound.named.1
        rw [Meets, hshard]
      | transfer player fromShard toShard region updated ttl =>
        obtain ⟨client, plan, stamped, sentMs, rest, expired, rfl, rfl⟩ := hwrites
        have hsource := (hsound.awaits _ htask).source.trans hsound.named.2
        simp only [WorldServer.commands, MigrationStore.publishCommands, List.mem_cons,
          List.not_mem_nil, or_false, reduceCtorEq, false_or, RedisCommand.transfer.injEq] at hmem
        obtain ⟨-, rfl, rfl, -⟩ := hmem
        have hhands : ∀ old, HandsTo old (c.fleet.shards id) ↔ old = stamped.toShard := by
          intro old
          constructor
          · rintro ⟨_, _, _, _, _, _, hother, rfl⟩
            cases htask.symm.trans hother
            rfl
          · rintro rfl
            exact ⟨_, _, _, _, _, _, htask, rfl⟩
        simp only [Meets, hsource, hhands]
      | _ => simp [Meets]
  | matchExec m =>
    rw [Current, Fleet.executes]
    cases hexec : (c.fleet.matchmakers m).next with
    | none => simp
    | some command =>
      obtain ⟨task, htask, hmem⟩ : ∃ task, (c.fleet.matchmakers m).task = some task ∧
          command ∈ (c.fleet.matchmakers m).state.commands task := by
        rw [Process.next] at hexec
        split at hexec
        · rename_i hwaits
          obtain ⟨task, htask⟩ := Option.isSome_iff_exists.mp hwaits
          refine ⟨task, htask, ?_⟩
          rw [← h.sent m task htask]
          exact List.mem_of_getElem? hexec
        · cases hexec
      have hkind := Matchmaker.commands_ofShards hmem
      simp only [Option.some.injEq, forall_eq']
      cases command with
      | setPresence player shard region session updated =>
        have hfound : c.found m = some shard := by
          have hrecalls := h.recalls m task htask
          cases task with
          | restore existing owner sent =>
            simp only [Matchmaker.commands, setPresenceCommands, List.mem_cons, List.not_mem_nil,
              or_false, reduceCtorEq, RedisCommand.setPresence.injEq] at hmem
            rw [hmem.2.1]
            exact hrecalls
          | clear player' record live =>
            simp only [Matchmaker.commands, clearPresenceCommands] at hmem
            split at hmem
            · split at hmem <;> simp at hmem
            · simp at hmem
          | _ => simp [Matchmaker.commands] at hmem
        simp only [Meets, hfound, Option.some.injEq, eq_comm]
      | transfer player fromShard toShard region updated ttl => cases hkind
      | _ => simp [Meets]
  | _ => simp [Current, Fleet.executes]

variable [LT R] [Add R] [Mul R] [Neg R] [DecidableLT R] [OfScientific R] (env : ShardEnv R A)

def step (c : Chronicle R A) (a : FleetAction A) : Chronicle R A :=
  { fleet := c.fleet.step env a
    named := fun player => ((c.fleet.step env a).redis.shardOf player).or (c.named player)
    found := c.finds a }

/-- A record comes to name another shard only by a transfer from the old one, or by a
claim of a record that was gone. -/
def Lawful (c : Chronicle R A) (a : FleetAction A) : Prop :=
  ∀ player old new, c.named player = some old →
    (c.fleet.step env a).redis.shardOf player = some new → new ≠ old →
    (∃ region updated ttl,
      c.fleet.executes a = some (.transfer player old new region updated ttl)) ∨
    (c.fleet.redis.shardOf player = none ∧ ∃ region session updated ttl,
      c.fleet.executes a = some (.claim player new region session updated ttl))

theorem faithful_step (c : Chronicle R A) (a : FleetAction A) : (c.step env a).Faithful := by
  intro player shard h
  simp only [step] at h ⊢
  rw [h, Option.some_or]

theorem lawful_of_meets {c : Chronicle R A} (h : c.Faithful) {a : FleetAction A}
    (hmeets : ∀ command, c.fleet.executes a = some command → c.Meets command) :
    c.Lawful env a := by
  intro player old new hold hnew hne
  have hunchanged : c.fleet.redis.shardOf player ≠ some new := by
    intro hsame
    have := h player new hsame
    rw [hold] at this
    exact hne (Option.some.inj this).symm
  rcases c.fleet.step_redis env a with ⟨command, hexec, hredis⟩ | ⟨-, hredis⟩
  · rw [hredis, Redis.shardOf] at hnew
    have hcurrent := hmeets command hexec
    rcases c.fleet.redis.presence_exec command player with
      hsame | ⟨shard, region, session, updated, rfl, hset⟩ |
      ⟨fromShard, toShard, region, updated, ttl, rfl, hfrom, hset⟩ |
      ⟨shard, region, session, updated, ttl, rfl, hfree, hset⟩ | ⟨-, hset⟩
    · rw [hsame] at hnew
      exact absurd hnew hunchanged
    · rw [hset] at hnew
      cases hnew
      exact absurd (hcurrent old hold).symm hne
    · rw [hset] at hnew
      cases hnew
      refine Or.inl ⟨region, updated, ttl, ?_⟩
      -- either the record names the source, or it is gone and named the source last
      have hsource : old = fromShard := by
        cases hnamed : c.fleet.redis.shardOf player with
        | none => exact (hcurrent hnamed old hold).resolve_right hne.symm
        | some named =>
          rw [h player named hnamed] at hold
          exact (Option.some.inj hold).symm.trans (hfrom named hnamed)
      rw [hexec, hsource]
    · rw [hset] at hnew
      cases hnew
      refine Or.inr ⟨?_, region, session, updated, ttl, hexec⟩
      cases hnamed : c.fleet.redis.shardOf player with
      | none => rfl
      | some named => exact absurd (hfree named hnamed ▸ hnamed) hunchanged
    · rw [hset] at hnew
      cases hnew
  · rcases hredis with hredis | ⟨q, -, hredis⟩ | ⟨token, -, hredis⟩
    · rw [hredis] at hnew
      exact absurd hnew hunchanged
    · rw [hredis, Redis.shardOf, Table.lookup_erase] at hnew
      split at hnew
      · cases hnew
      · exact absurd hnew hunchanged
    · rw [hredis] at hnew
      exact absurd hnew hunchanged

theorem meets_of_lawful {c : Chronicle R A} {a : FleetAction A} (hlawful : c.Lawful env a)
    {command : RedisCommand} (hexec : c.fleet.executes a = some command) : c.Meets command := by
  have hredis : (c.fleet.step env a).redis = (c.fleet.redis.exec command).1 := by
    rcases c.fleet.step_redis env a with ⟨other, hother, hredis⟩ | ⟨hnone, -⟩
    · cases hother.symm.trans hexec
      exact hredis
    · cases hnone.symm.trans hexec
  unfold Meets
  split
  · rename_i player shard region session updated
    intro old hold
    by_contra hne
    have hnew : (c.fleet.step env a).redis.shardOf player = some shard := by
      rw [hredis, Redis.shardOf, Redis.exec, Table.lookup_insert, if_pos rfl]
      rfl
    rcases hlawful player old shard hold hnew (Ne.symm hne) with
      ⟨_, _, _, h⟩ | ⟨-, _, _, _, _, h⟩
    · cases h.symm.trans hexec
    · cases h.symm.trans hexec
  · rename_i player fromShard toShard region updated ttl
    intro hgone old hold
    by_contra hne
    rw [not_or] at hne
    have hfree : c.fleet.redis.heldElsewhere player fromShard = false := by
      rw [Redis.heldElsewhere_eq_false_iff]
      intro named hnamed
      rw [hgone] at hnamed
      cases hnamed
    have hnew : (c.fleet.step env a).redis.shardOf player = some toShard := by
      simp [hredis, Redis.shardOf, Redis.exec, Redis.transfer, hfree]
    rcases hlawful player old toShard hold hnew (Ne.symm hne.2) with
      ⟨_, _, _, h⟩ | ⟨-, _, _, _, _, h⟩
    · cases h.symm.trans hexec
      exact hne.1 rfl
    · cases h.symm.trans hexec
  · trivial

theorem sound_step {c : Chronicle R A} (h : c.Sound) (a : FleetAction A) : (c.step env a).Sound := by
  refine ⟨c.faithful_step env a, Fleet.sound_step env h.shards a, Fleet.matchSent_step env h.sent a,
    ?_⟩
  simp only [step]
  have hset : ∀ {m : Nat} {p : MatchProcess} {found : Nat → Option Bytes},
      (∀ n, n ≠ m → found n = c.found n) →
      (∀ task, p.task = some task → Recalls (found m) p.flight.replies task) →
      ∀ n task, ((c.fleet.setMatchmaker m p).matchmakers n).task = some task →
        Recalls (found n) ((c.fleet.setMatchmaker m p).matchmakers n).flight.replies task := by
    intro m p found hothers hp n task htask
    rw [Fleet.setMatchmaker_matchmakers] at htask ⊢
    by_cases hn : n = m
    · rw [if_pos hn] at htask ⊢
      exact hn ▸ hp task htask
    · rw [if_neg hn] at htask ⊢
      exact hothers n hn ▸ h.recalls n task htask
  have hstep := c.fleet.step_spec env a
  generalize c.fleet.step env a = fleet at hstep
  cases hstep with
  | stay _ hnone =>
    rw [finds_of_executes_none hnone]
    exact h.recalls
  | handled => exact h.recalls
  | executed => exact h.recalls
  | resent => exact h.recalls
  | resumed _ ha =>
    rcases ha with ⟨rfl, -⟩ | ⟨rfl, -⟩
    · exact h.recalls
    · exact h.recalls
  | matchStarted _ ha =>
    rcases ha with ⟨player, live, rfl, rfl⟩ | ⟨player, rfl, rfl⟩
    · refine hset (fun _ _ => rfl) fun task htask => recalls_nil _ ?_
      rintro _ _ _ rfl
      rw [Process.launch, Matchmaker.assign] at htask
      split at htask
      · cases htask
      · cases htask
    · refine hset (fun _ _ => rfl) fun task htask => recalls_nil _ ?_
      rintro _ _ _ rfl
      cases htask
  | @matchExecuted m task command htask hnext hexec =>
    refine hset (fun n hn => c.finds_of_ne hn) fun other hother => ?_
    cases htask.symm.trans hother
    exact h.recalls_exec htask hnext hexec
  | @matchResent m task now htask =>
    refine hset (fun _ _ => rfl) fun other hother => ?_
    cases htask.symm.trans hother
    have hold := h.recalls m task htask
    cases task with
    | restore existing owner sent => exact hold
    | _ => exact recalls_nil _ fun _ _ _ heq => by cases heq
  | @matchResumed m task _ now replies htask ha hanswer =>
    have hfinds : c.finds a = c.found := by
      rcases ha with ⟨rfl, -⟩ | ⟨rfl, -⟩
      · rfl
      · rfl
    rw [hfinds]
    refine hset (fun _ _ => rfl) fun next hnext =>
      recalls_resume (h.recalls m task htask) now (fun rs hrs => ?_) hnext
    rcases ha with ⟨-, rfl⟩ | ⟨-, rfl⟩
    · cases hrs
    · exact (Option.some.inj hrs).symm
  | presenceExpired => exact h.recalls
  | ticketExpired => exact h.recalls

/-- In every run of a fresh cluster a record changes from one shard to another only by a
transfer from the first, or by a claim after it was gone, exactly when every write finds the
record where its writer takes it from. -/
theorem moves_lawful_iff {s : Fleet R A} (hfresh : s.Fresh) (actions : List (FleetAction A)) :
    Run.Along (step env) (Lawful env) (start s) actions ↔
      Run.Along (step env) Current (start s) actions := by
  refine Run.along_congr Sound (fun c a h => sound_step env h a) (fun c a h => ?_)
    (sound_start hfresh) actions
  rw [current_iff_meets h]
  exact ⟨fun hlawful _ hexec => meets_of_lawful env hlawful hexec, lawful_of_meets env h.faithful⟩

/-- `Current` on a run whose transfers all find a record. -/
def leads (c : Chronicle ℚ Unit) : FleetAction Unit → Bool
  | .matchExec m =>
    match (c.fleet.matchmakers m).next with
    | some (.setPresence player _ _ _ _) => (c.named player).all fun old => c.found m == some old
    | _ => true
  | .shardExec id =>
    match (c.fleet.shards id).next with
    | some (.setPresence player _ _ _ _) => (c.named player).all (· == id)
    | some (.transfer player _ _ _ _ _) => (c.fleet.redis.shardOf player).isSome
    | _ => true
  | _ => true

theorem current_of_leads {c : Chronicle ℚ Unit} {a : FleetAction Unit} (h : c.leads a = true) :
    c.Current a := by
  cases a with
  | matchExec m =>
    simp only [leads] at h
    rw [Current]
    split
    · rename_i hnext
      intro old hold
      simpa [hnext, hold] using h
    · trivial
  | shardExec id =>
    simp only [leads] at h
    rw [Current]
    split
    · rename_i hnext
      intro old hold
      simpa [hnext, hold] using h
    · rename_i hnext
      intro hgone
      simp [hnext, hgone] at h
    · trivial
  | _ => trivial

/-- Player "p" is handed over from "a" to "b" and found there by a matchmaker. -/
theorem moves_lawful_visit :
    (Run.run (step .eastward) (start Fleet.quiet) Fleet.visit).named [112] = some [98] ∧
    Run.Along (step .eastward) (Lawful .eastward) (start Fleet.quiet) Fleet.visit := by
  have hleads : Run.Along (step .eastward) (fun (c : Chronicle ℚ Unit) a => c.leads a = true)
      (start Fleet.quiet) Fleet.visit := by
    decide +kernel
  refine ⟨by decide +kernel, ?_⟩
  exact (moves_lawful_iff .eastward Fleet.fresh_quiet Fleet.visit).mpr
    (Run.along_mono (fun c a h => current_of_leads h) hleads)

/-- The matchmaker reads that "a" holds the player, "a" hands it to "b", and the matchmaker
writes back what it read. -/
theorem restored_after_transfer :
    ¬ Run.Along (step .eastward) (Lawful .eastward) (start Fleet.quiet)
      (Fleet.arrival ++ [.assign 0 [112] Fleet.twoMembers, .matchExec 0, .matchAnswer 0 0,
        .shard [97] (.tick 0 [1] [1]), .shardExec [97], .shardExec [97]] ++ [.matchExec 0]) := by
  rw [Run.along_append]
  rintro ⟨-, hlawful, -⟩
  rcases hlawful [112] [98] [97] (by decide +kernel) (by decide +kernel) (by decide) with
    ⟨_, _, _, htransfer⟩ | ⟨hgone, -⟩
  · have hexec : (Run.run (step .eastward) (start Fleet.quiet)
        (Fleet.arrival ++ [.assign 0 [112] Fleet.twoMembers, .matchExec 0, .matchAnswer 0 0,
          .shard [97] (.tick 0 [1] [1]), .shardExec [97], .shardExec [97]])).fleet.executes
            (.matchExec 0) = some (.setPresence [112] [97] 0 5 0) := by
      decide +kernel
    cases hexec.symm.trans htransfer
  · revert hgone
    decide +kernel

end Chronicle
end Morton.App
