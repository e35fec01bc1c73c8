import Morton.App.FleetSpec
import Morton.Base.Run
import Morton.Cluster.MatchmakerSpec

/-! Several matchmakers assign one player, their commands interleaved in any order. -/
namespace Morton.App
open Proto Sim Cluster
namespace Fleet
variable {R A : Type} (standing : Bytes → Option Bool) (player : Bytes)

/-- The live shards are those, and nobody but the matchmakers' `assign` touches the
player's record. -/
def Meanwhile (s : Fleet R A) : FleetAction A → Prop
  | .assign _ q live => q = player → Shows standing live
  | .release _ q => q ≠ player
  | .expirePresence q => q ≠ player
  | .shardExec id => ∀ c, (s.shards id).next = some c → c.writes ≠ some player
  | _ => True

/-- No claim replaces the session of a record that names its own shard, no `DEL` removes a
good record, and a pipeline is given up only where the matchmaker can do without it. -/
def Orderly (s : Fleet R A) : FleetAction A → Prop
  | .matchExec m =>
    ∀ c ∈ (s.matchmakers m).next, c.writes = some player → Gentle standing s.redis c
  | .matchLose m _ =>
    ∀ task ∈ (s.matchmakers m).task, (s.matchmakers m).flight.resent = true →
      task.player = player → Spares standing (s.redis.seatOf player) task
  | _ => True

instance decidableOrderly (s : Fleet R A) : ∀ a, Decidable (s.Orderly standing player a)
  | .matchExec m => inferInstanceAs (Decidable (∀ c ∈ (s.matchmakers m).next, _ → _))
  | .matchLose m _ => inferInstanceAs (Decidable (∀ task ∈ (s.matchmakers m).task, _ → _ → _))
  | .shard _ _ => isTrue trivial
  | .shardExec _ => isTrue trivial
  | .shardLose _ _ => isTrue trivial
  | .shardAnswer _ _ => isTrue trivial
  | .assign _ _ _ => isTrue trivial
  | .release _ _ => isTrue trivial
  | .matchAnswer _ _ => isTrue trivial
  | .expirePresence _ => isTrue trivial
  | .expireTicket _ => isTrue trivial

/-- All grants to the player carry the shard and the session that its record carries. -/
def GrantsAgree (s : Fleet R A) : Prop :=
  ∀ m, ∀ g ∈ (s.matchmakers m).state.grants, g.playerId = player →
    s.redis.seatOf player = some (g.shardId, g.sessionToken)

/-- A matchmaker and what it relies on. -/
structure Informed (seat : Option (Bytes × Nat)) (p : MatchProcess) : Prop where
  knows : ∀ task, p.task = some task → task.player = player →
    Knows standing seat p.flight.replies task
  holds : ∀ g ∈ p.state.grants, g.playerId = player →
    Holds standing seat g.shardId g.sessionToken

/-- The matchmakers are idle and have granted the player nothing yet. -/
structure Unassigned (s : Fleet R A) : Prop where
  idle : ∀ m, (s.matchmakers m).task = none
  grants : ∀ m, ∀ g ∈ (s.matchmakers m).state.grants, g.playerId ≠ player

variable {standing player}

theorem Informed.advances {seat next : Option (Bytes × Nat)} {p : MatchProcess}
    (h : Informed standing player seat p) (hnext : Advances standing seat next) :
    Informed standing player next p where
  knows task htask hplayer := (h.knows task htask hplayer).advances hnext
  holds g hg hplayer := by
    have hholds := h.holds g hg hplayer
    rw [hholds.advances hnext]
    exact hholds

theorem Informed.launch {seat : Option (Bytes × Nat)}
    {progress : Matchmaker × Option MatchTask} (h : Ready standing player seat progress) :
    Informed standing player seat (Process.launch matchBehaviour progress) :=
  ⟨h.knows, h.holds⟩

/-- A matchmaker busy with another player goes on. -/
theorem ready_other {seat : Option (Bytes × Nat)} {p : MatchProcess}
    (h : Informed standing player seat p) {task : MatchTask} (hother : task.player ≠ player)
    (now : Nat) (answer : Option (List RedisReply)) :
    Ready standing player seat (p.state.resume now answer task) := by
  obtain ⟨hnext, hgrants⟩ := p.state.resume_player now answer task
  refine ⟨fun next htask hplayer => ?_, fun g hg hplayer => ?_⟩
  · exact absurd ((hnext next htask).symm.trans hplayer) hother
  · rcases hgrants g hg with hold | hnew
    · exact h.holds g hold hplayer
    · exact absurd (hnew.symm.trans hplayer) hother

variable [LT R] [Add R] [Mul R] [Neg R] [DecidableLT R] [OfScientific R] (env : ShardEnv R A)

theorem informed_step (hnobody : standing [] = none) {s : Fleet R A} (hsent : s.MatchSent)
    (h : ∀ m, Informed standing player (s.redis.seatOf player) (s.matchmakers m))
    {a : FleetAction A} (hmeanwhile : s.Meanwhile standing player a)
    (horderly : s.Orderly standing player a) :
    ∀ m, Informed standing player ((s.step env a).redis.seatOf player)
      ((s.step env a).matchmakers m) := by
  have hset : ∀ {m : Nat} {p : MatchProcess} {seat : Option (Bytes × Nat)},
      Advances standing (s.redis.seatOf player) seat → Informed standing player seat p →
      ∀ n, Informed standing player seat ((s.setMatchmaker m p).matchmakers n) := by
    intro m p seat hadvances hp n
    rw [setMatchmaker_matchmakers]
    split
    · exact hp
    · exact (h n).advances hadvances
  have hstep := s.step_spec env a
  generalize s.step env a = s' at hstep
  cases hstep with
  | stay => exact h
  | handled => exact h
  | @executed id task c htask hnext hexec =>
    intro m
    rw [Redis.seatOf_exec (hmeanwhile c hexec)]
    exact h m
  | resent => exact h
  | resumed => exact h
  | @matchStarted m _ progress hidle ha =>
    refine hset (Or.inl rfl) (Informed.launch ?_)
    rcases ha with ⟨q, live, rfl, rfl⟩ | ⟨q, rfl, rfl⟩
    · rw [Matchmaker.assign]
      split
      · exact ready_idle (h m).holds
      · refine ⟨?_, (h m).holds⟩
        rintro task ⟨⟩ hplayer
        exact ⟨hmeanwhile hplayer, heard_nil _⟩
    · refine ⟨?_, (h m).holds⟩
      rintro task ⟨⟩ hplayer
      exact absurd hplayer hmeanwhile
  | @matchExecuted m task c htask hnext hexec =>
    have hcommand : ((s.matchmakers m).state.commands task)[
        (s.matchmakers m).flight.replies.length]? = some c := by
      rw [← hsent m task htask]
      exact hnext
    by_cases hplayer : task.player = player
    · subst hplayer
      have hgentle : Gentle standing s.redis c := by
        by_cases hwrites : c.writes = some task.player
        · exact horderly c hexec hwrites
        · cases c with
          | claim q shard region session updated ttl =>
            exact absurd (Matchmaker.commands_writes (List.mem_of_getElem? hcommand) rfl)
              fun hq => hwrites (congrArg some hq.symm)
          | delPresence q =>
            exact absurd (Matchmaker.commands_writes (List.mem_of_getElem? hcommand) rfl)
              fun hq => hwrites (congrArg some hq.symm)
          | _ => trivial
      obtain ⟨hadvances, hknows⟩ :=
        Matchmaker.knows_exec ((h m).knows task htask rfl) hcommand hgentle
      refine hset hadvances ⟨?_, ((h m).advances hadvances).holds⟩
      intro next hnext' _
      cases htask.symm.trans hnext'
      exact hknows
    · have hkept : (s.redis.exec c).1.seatOf player = s.redis.seatOf player :=
        Redis.seatOf_exec fun hwrites =>
          hplayer (Matchmaker.commands_writes (List.mem_of_getElem? hcommand) hwrites)
      refine hset (Or.inl hkept) ⟨?_, ((h m).advances (Or.inl hkept)).holds⟩
      intro next hnext' hq
      cases htask.symm.trans hnext'
      exact absurd hq hplayer
  | @matchResent m task now htask =>
    refine hset (Or.inl rfl) ⟨fun next hnext hplayer => ?_, (h m).holds⟩
    exact ((h m).knows next hnext hplayer).resent
  | @matchResumed m task _ now replies htask ha hanswer =>
    refine hset (Or.inl rfl) (Informed.launch ?_)
    by_cases hplayer : task.player = player
    · subst hplayer
      refine Matchmaker.ready_resume hnobody ((h m).knows task htask rfl) (h m).holds ?_ now
      rcases ha with ⟨rfl, rfl⟩ | ⟨rfl, rfl⟩
      · cases hanswer with
        | givenUp hresent => exact Or.inl ⟨rfl, horderly task htask hresent rfl⟩
      · cases hanswer with
        | replied hlength =>
          refine Or.inr ⟨rfl, ?_⟩
          rw [← hsent m task htask]
          exact hlength
    · exact ready_other (h m) hplayer now replies
  | presenceExpired q =>
    intro m
    have hkept : (s.redis.presence.erase q).lookup player = s.redis.presence.lookup player := by
      rw [Table.lookup_erase, if_neg (Ne.symm hmeanwhile)]
    rw [Redis.seatOf, hkept]
    exact h m
  | ticketExpired => exact h

/-- While the live shards stay as they are and nothing else writes the player's record, any
number of matchmakers that assign the player, in any order of their commands, grant it
one shard and one session, those of the record, as long as every step is orderly. -/
theorem grants_agree (hnobody : standing [] = none) {s : Fleet R A}
    (hstart : s.Unassigned player) {actions : List (FleetAction A)}
    (hmeanwhile : Run.Along (step env) (Meanwhile standing player) s actions)
    (horderly : Run.Along (step env) (Orderly standing player) s actions) :
    (Run.run (step env) s actions).GrantsAgree player := by
  have hinv : (Run.run (step env) s actions).MatchSent ∧
      ∀ m, Informed standing player ((Run.run (step env) s actions).redis.seatOf player)
        ((Run.run (step env) s actions).matchmakers m) := by
    refine Run.invariant (fun s : Fleet R A => s.MatchSent ∧ ∀ m,
      Informed standing player (s.redis.seatOf player) (s.matchmakers m)) ?_ ?_
      (Run.along_and hmeanwhile horderly)
    · rintro s a ⟨hmeanwhile, horderly⟩ ⟨hsent, h⟩
      exact ⟨matchSent_step env hsent a, informed_step env hnobody hsent h hmeanwhile horderly⟩
    · refine ⟨fun m task htask => ?_, fun m => ⟨fun task htask => ?_, fun g hg hplayer => ?_⟩⟩
      · cases (hstart.idle m).symm.trans htask
      · cases (hstart.idle m).symm.trans htask
      · exact absurd hplayer (hstart.grants m g hg)
  exact fun m g hg hplayer => ((hinv.2 m).holds g hg hplayer).1

/-- A cluster whose matchmakers draw different sessions. -/
def crowd : Fleet ℚ Unit :=
  { quiet with matchmakers := fun m => { state := { rng := fun _ => 5 + m } } }

def bothActive (id : Bytes) : Option Bool :=
  if id = [97] ∨ id = [98] then some false else none

theorem shows_twoMembers : Shows bothActive twoMembers := by
  refine ⟨by decide, fun id => ?_⟩
  by_cases ha : id = [97]
  · subst ha
    rfl
  · by_cases hb : id = [98]
    · subst hb
      rfl
    · have hnone : Matchmaker.liveShard twoMembers id = none := by
        simp [Matchmaker.liveShard, twoMembers, Ne.symm ha, Ne.symm hb]
      simp [hnone, bothActive, ha, hb]

theorem unassigned_crowd : crowd.Unassigned [112] := by
  refine ⟨fun m => rfl, fun m g hg => ?_⟩
  cases hg

/-- Two matchmakers read that there is no record, and both claim it for shard "a". -/
def race : List (FleetAction Unit) :=
  [.assign 0 [112] twoMembers, .assign 1 [112] twoMembers, .matchExec 0, .matchExec 1,
    .matchAnswer 0 0, .matchAnswer 1 0, .matchExec 0, .matchExec 1, .matchAnswer 0 0,
    .matchAnswer 1 0]

/-- One matchmaker assigns after the other. -/
def queue : List (FleetAction Unit) :=
  [.assign 0 [112] twoMembers, .matchExec 0, .matchAnswer 0 0, .matchExec 0, .matchAnswer 0 0,
    .assign 1 [112] twoMembers, .matchExec 1, .matchAnswer 1 0, .matchExec 1, .matchExec 1,
    .matchExec 1, .matchExec 1, .matchAnswer 1 0]

/-- Both matchmakers grant shard "a", with different sessions. -/
theorem race_splits_session :
    bothActive [] = none ∧ crowd.Unassigned [112] ∧
      Run.Along (step .eastward) (Meanwhile bothActive [112]) crowd race ∧
      (((Run.run (step .eastward) crowd race).matchmakers 0).state.grants.map
        SessionGrant.sessionToken = [5] ∧
      ((Run.run (step .eastward) crowd race).matchmakers 1).state.grants.map
        SessionGrant.sessionToken = [6]) ∧
      ¬ (Run.run (step .eastward) crowd race).GrantsAgree [112] := by
  refine ⟨rfl, unassigned_crowd, ?_, by decide +kernel, fun hagree => ?_⟩
  · refine ⟨fun _ => shows_twoMembers, fun _ => shows_twoMembers, ?_⟩
    exact ⟨trivial, trivial, trivial, trivial, trivial, trivial, trivial, trivial, trivial⟩
  · have h := hagree 0 ⟨[112], [97], [1], 0, 5, false⟩ (by decide +kernel) rfl
    revert h
    decide +kernel

theorem orderly_queue :
    Run.Along (step .eastward) (Orderly bothActive [112]) crowd queue := by
  decide +kernel

theorem grants_agree_queue :
    ((Run.run (step .eastward) crowd queue).matchmakers 1).state.grants.map
        SessionGrant.sessionToken = [5] ∧
      (Run.run (step .eastward) crowd queue).GrantsAgree [112] := by
  refine ⟨by decide +kernel, grants_agree .eastward rfl unassigned_crowd ?_
    orderly_queue⟩
  refine ⟨fun _ => shows_twoMembers, trivial, trivial, trivial, trivial,
    fun _ => shows_twoMembers, ?_⟩
  exact ⟨trivial, trivial, trivial, trivial, trivial, trivial, trivial, trivial⟩

end Fleet
end Morton.App
