import Morton.App.Fleet
import Morton.App.ServerEffects
import Morton.Base.Run
import Morton.Cluster.RedisSpec

/-! The steps of a cluster taken apart, and what holds of each shard on its own whatever
the others do. -/
namespace Morton.Cluster

/-- Tickets and transfers are the shards' business. -/
def RedisCommand.ofShards : RedisCommand → Bool
  | .setTicket _ _ _ => true
  | .getDelTicket _ => true
  | .delTicket _ => true
  | .transfer _ _ _ _ _ _ => true
  | _ => false

theorem Matchmaker.commands_ofShards {m : Matchmaker} {task : MatchTask} {c : RedisCommand}
    (hc : c ∈ m.commands task) : c.ofShards = false := by
  cases task with
  | lookup player live => simp_all [commands, RedisCommand.ofShards]
  | restore existing owner now =>
    simp only [commands, setPresenceCommands, List.mem_cons, List.not_mem_nil, or_false] at hc
    rcases hc with rfl | rfl | rfl | rfl <;> rfl
  | clearLookup player live => simp_all [commands, RedisCommand.ofShards]
  | clear player record live =>
    simp only [commands, clearPresenceCommands] at hc
    split at hc
    · split at hc
      · simp only [List.mem_cons, List.not_mem_nil, or_false] at hc
        rcases hc with rfl | rfl <;> rfl
      · simp_all [RedisCommand.ofShards]
    · simp_all [RedisCommand.ofShards]
  | claim record live now => simp_all [commands, RedisCommand.ofShards]
  | relookup player winner => simp_all [commands, RedisCommand.ofShards]

end Morton.Cluster

namespace Morton.App
open Proto Sim Cluster

/-- The credential offered to a shard. -/
def ShardAction.offers {A : Type} : ShardAction A → Option ConnectCredential
  | .connect credential _ => credential
  | _ => none

namespace Fleet
variable {R A : Type}

@[simp] theorem setShard_redis (s : Fleet R A) (id : Bytes) (p : ShardProcess R A) :
    (s.setShard id p).redis = s.redis := rfl

@[simp] theorem setShard_matchmakers (s : Fleet R A) (id : Bytes) (p : ShardProcess R A) :
    (s.setShard id p).matchmakers = s.matchmakers := rfl

theorem setShard_shards (s : Fleet R A) (id : Bytes) (p : ShardProcess R A) (j : Bytes) :
    (s.setShard id p).shards j = if j = id then p else s.shards j :=
  Function.update_apply _ _ _ _

/-- A process that goes on in the same state. -/
theorem setShard_state (s : Fleet R A) {id : Bytes} {p : ShardProcess R A}
    (h : p.state = (s.shards id).state) (j : Bytes) :
    ((s.setShard id p).shards j).state = (s.shards j).state := by
  rw [setShard_shards]
  split
  · rw [h, ‹j = id›]
  · rfl

theorem setShard_task (s : Fleet R A) {id : Bytes} {p : ShardProcess R A}
    (h : p.task = (s.shards id).task) (j : Bytes) :
    ((s.setShard id p).shards j).task = (s.shards j).task := by
  rw [setShard_shards]
  split
  · rw [h, ‹j = id›]
  · rfl

@[simp] theorem setMatchmaker_redis (s : Fleet R A) (m : Nat) (p : MatchProcess) :
    (s.setMatchmaker m p).redis = s.redis := rfl

@[simp] theorem setMatchmaker_shards (s : Fleet R A) (m : Nat) (p : MatchProcess) :
    (s.setMatchmaker m p).shards = s.shards := rfl

theorem setMatchmaker_matchmakers (s : Fleet R A) (m : Nat) (p : MatchProcess) (n : Nat) :
    (s.setMatchmaker m p).matchmakers n = if n = m then p else s.matchmakers n :=
  Function.update_apply _ _ _ _

theorem setShard_same (s : Fleet R A) (id : Bytes) : s.setShard id (s.shards id) = s := by
  rw [setShard, Function.update_eq_self]

theorem setMatchmaker_same (s : Fleet R A) (m : Nat) :
    s.setMatchmaker m (s.matchmakers m) = s := by
  rw [setMatchmaker, Function.update_eq_self]

/-- What holds of the process of a shard on its own: a waiting handler has sent the
pipeline of its task, and finds the shard as it left it. -/
structure Sound (id : Bytes) (p : ShardProcess R A) : Prop where
  tidy : p.state.Tidy
  named : p.state.config.shardId = id ∧ p.state.coordinator.config.id = id
  sent : ∀ task, p.task = some task → p.flight.commands = p.state.commands task
  advertises : ∀ task, p.task = some task → p.state.config.advertise = true
  awaits : ∀ task, p.task = some task → p.state.Awaits task

theorem Fresh.sound {s : Fleet R A} (h : s.Fresh) (id : Bytes) : Sound id (s.shards id) := by
  obtain ⟨hplayers, hpending, -⟩ := h.empty id
  refine ⟨⟨hpending, fun c player hplayer => ?_, fun c player hplayer => ?_⟩, h.named id,
    fun task htask => ?_, fun task htask => ?_, fun task htask => ?_⟩
  · rw [hplayers] at hplayer
    cases hplayer
  · rw [hplayers] at hplayer
    cases hplayer
  all_goals cases (h.idle id).symm.trans htask

/-- Some shard has drawn the token for a ticket. -/
def DrawnForTicket (token : Nat) (s : Fleet R A) : Prop :=
  ∃ id n, n < (s.shards id).state.coordinator.draws ∧
    (s.shards id).state.coordinator.tokenAt n = token

/-- A waiting matchmaker has sent the pipeline of its task. -/
def MatchSent (s : Fleet R A) : Prop :=
  ∀ m task, (s.matchmakers m).task = some task →
    (s.matchmakers m).flight.commands = (s.matchmakers m).state.commands task

theorem Fresh.matchSent {s : Fleet R A} (h : s.Fresh) : s.MatchSent :=
  fun m _ htask => by cases (h.matchIdle m).1.symm.trans htask

variable [LT R] (env : ShardEnv R A)

theorem sound_launch {id : Bytes} {w : WorldServer R A} (htidy : w.Tidy)
    (hnamed : w.config.shardId = id ∧ w.coordinator.config.id = id)
    {asks : ConnectCredential → Prop}
    {admits : ConnectCredential → Option MigrationTicket → Prop}
    {progress : WorldServer.Progress R A} (h : WorldServer.Outcome w asks admits progress) :
    Sound id (Process.launch (shardBehaviour env) progress) := by
  cases h with
  | idle h =>
    refine ⟨h.tidy htidy, by rw [Process.launch, h.config, h.identity]; exact hnamed,
      fun task htask => ?_, fun task htask => ?_, fun task htask => ?_⟩
    all_goals cases htask
  | waits h hadvertise hawaits hasks hdraws =>
    refine ⟨h.tidy htidy, by rw [Process.launch, h.config, h.identity]; exact hnamed,
      fun task htask => ?_, fun task htask => ?_, fun task htask => ?_⟩
    · cases htask
      rfl
    · rw [Process.launch, h.config]
      exact hadvertise
    · cases htask
      exact hawaits
  | joins h hadmits htask =>
    refine ⟨h.tidy, by rw [Process.launch, h.config, h.identity]; exact hnamed,
      fun task ht => ?_, fun task ht => ?_, fun task ht => ?_⟩
    all_goals
      rcases htask with rfl | ⟨hadvertise, record, now, rfl, hhosts⟩
      · cases ht
      · cases ht
        first | rfl | exact hhosts | exact (congrArg _ h.config).trans hadvertise

variable [Add R] [Mul R] [Neg R] [DecidableLT R] [OfScientific R]

/-- The answer with which a task goes on: `none` when its pipeline is given up. -/
inductive Answered (f : Pipeline.Flight RedisCommand RedisReply) : Option (List RedisReply) → Prop
  | givenUp (h : f.resent = true) : Answered f none
  | replied (h : f.replies.length = f.commands.length) : Answered f (some f.replies)

/-- The steps of a cluster, one constructor for each kind of change. -/
inductive Step (s : Fleet R A) : FleetAction A → Fleet R A → Prop
  | stay (a : FleetAction A) (h : s.executes a = none) : Step s a s
  | handled {id : Bytes} {action : ShardAction A} {progress : WorldServer.Progress R A}
      (hidle : (s.shards id).task = none)
      (hhandle : handle env (s.shards id).state action = some progress) :
      Step s (.shard id action) (s.setShard id (Process.launch (shardBehaviour env) progress))
  | executed {id : Bytes} {task : Task} {c : RedisCommand} (htask : (s.shards id).task = some task)
      (hnext : (s.shards id).flight.next = some c) (hexec : s.executes (.shardExec id) = some c) :
      Step s (.shardExec id)
        { s.setShard id ((s.shards id).replied (s.redis.exec c).2) with
          redis := (s.redis.exec c).1 }
  | resent {id : Bytes} {task : Task} {now : Nat} (htask : (s.shards id).task = some task) :
      Step s (.shardLose id now) (s.setShard id (s.shards id).resent)
  | resumed {id : Bytes} {task : Task} {a : FleetAction A} {now : Nat}
      {replies : Option (List RedisReply)} (htask : (s.shards id).task = some task)
      (ha : a = .shardLose id now ∧ replies = none ∨
        a = .shardAnswer id now ∧ replies = some (s.shards id).flight.replies)
      (hanswer : Answered (s.shards id).flight replies) :
      Step s a (s.setShard id (Process.launch (shardBehaviour env)
        ((s.shards id).state.resume env now replies task)))
  | matchStarted {m : Nat} {a : FleetAction A} {progress : Matchmaker × Option MatchTask}
      (hidle : (s.matchmakers m).task = none)
      (ha : (∃ player live, a = .assign m player live ∧
          progress = (s.matchmakers m).state.assign player live) ∨
        ∃ player, a = .release m player ∧ progress = (s.matchmakers m).state.release player) :
      Step s a (s.setMatchmaker m (Process.launch matchBehaviour progress))
  | matchExecuted {m : Nat} {task : MatchTask} {c : RedisCommand}
      (htask : (s.matchmakers m).task = some task)
      (hnext : (s.matchmakers m).flight.next = some c)
      (hexec : s.executes (.matchExec m) = some c) :
      Step s (.matchExec m)
        { s.setMatchmaker m ((s.matchmakers m).replied (s.redis.exec c).2) with
          redis := (s.redis.exec c).1 }
  | matchResent {m : Nat} {task : MatchTask} {now : Nat}
      (htask : (s.matchmakers m).task = some task) :
      Step s (.matchLose m now) (s.setMatchmaker m (s.matchmakers m).resent)
  | matchResumed {m : Nat} {task : MatchTask} {a : FleetAction A} {now : Nat}
      {replies : Option (List RedisReply)} (htask : (s.matchmakers m).task = some task)
      (ha : a = .matchLose m now ∧ replies = none ∨
        a = .matchAnswer m now ∧ replies = some (s.matchmakers m).flight.replies)
      (hanswer : Answered (s.matchmakers m).flight replies) :
      Step s a (s.setMatchmaker m (Process.launch matchBehaviour
        ((s.matchmakers m).state.resume now replies task)))
  | presenceExpired (player : Bytes) :
      Step s (.expirePresence player)
        { s with redis := { s.redis with presence := s.redis.presence.erase player } }
  | ticketExpired (token : Nat) :
      Step s (.expireTicket token)
        { s with redis := { s.redis with tickets := s.redis.tickets.erase token } }

theorem step_spec (s : Fleet R A) (a : FleetAction A) : Step env s a (s.step env a) := by
  cases a with
  | shard id action =>
    rw [step]
    split
    · rename_i progress htask hhandle
      exact .handled htask hhandle
    · exact .stay _ rfl
  | shardExec id =>
    rcases (s.shards id).advance_cases Redis.exec s.redis with
      ⟨hnext, h⟩ | ⟨task, c, htask, hflight, hnext, h⟩
    · rw [step, h]
      dsimp only
      rw [setShard_same]
      exact .stay _ hnext
    · rw [step, h]
      exact .executed htask hflight hnext
  | shardLose id now =>
    rw [step]
    rcases (s.shards id).lose_cases (shardBehaviour env) now with
      h | ⟨task, htask, h⟩ | ⟨task, htask, hresent, h⟩
    · rw [h, setShard_same]
      exact .stay _ rfl
    · rw [h]
      exact .resent htask
    · rw [h]
      exact .resumed htask (Or.inl ⟨rfl, rfl⟩) (.givenUp hresent)
  | shardAnswer id now =>
    rw [step]
    rcases (s.shards id).answer_cases (shardBehaviour env) now with h | ⟨task, htask, hlength, h⟩
    · rw [h, setShard_same]
      exact .stay _ rfl
    · rw [h]
      exact .resumed htask (Or.inr ⟨rfl, rfl⟩) (.replied hlength)
  | assign m player live =>
    rw [step]
    split
    · exact .stay _ rfl
    · rename_i hidle
      exact .matchStarted (by simpa using hidle) (Or.inl ⟨player, live, rfl, rfl⟩)
  | release m player =>
    rw [step]
    split
    · exact .stay _ rfl
    · rename_i hidle
      exact .matchStarted (by simpa using hidle) (Or.inr ⟨player, rfl, rfl⟩)
  | matchExec m =>
    rcases (s.matchmakers m).advance_cases Redis.exec s.redis with
      ⟨hnext, h⟩ | ⟨task, c, htask, hflight, hnext, h⟩
    · rw [step, h]
      dsimp only
      rw [setMatchmaker_same]
      exact .stay _ hnext
    · rw [step, h]
      exact .matchExecuted htask hflight hnext
  | matchLose m now =>
    rw [step]
    rcases (s.matchmakers m).lose_cases matchBehaviour now with
      h | ⟨task, htask, h⟩ | ⟨task, htask, hresent, h⟩
    · rw [h, setMatchmaker_same]
      exact .stay _ rfl
    · rw [h]
      exact .matchResent htask
    · rw [h]
      exact .matchResumed htask (Or.inl ⟨rfl, rfl⟩) (.givenUp hresent)
  | matchAnswer m now =>
    rw [step]
    rcases (s.matchmakers m).answer_cases matchBehaviour now with h | ⟨task, htask, hlength, h⟩
    · rw [h, setMatchmaker_same]
      exact .stay _ rfl
    · rw [h]
      exact .matchResumed htask (Or.inr ⟨rfl, rfl⟩) (.replied hlength)
  | expirePresence player => exact .presenceExpired player
  | expireTicket token => exact .ticketExpired token

/-- Redis changes by the command a step executes, by a key that expires, or not at all. -/
theorem step_redis (s : Fleet R A) (a : FleetAction A) :
    (∃ c, s.executes a = some c ∧ (s.step env a).redis = (s.redis.exec c).1) ∨
    (s.executes a = none ∧
      ((s.step env a).redis = s.redis ∨
        (∃ player, a = .expirePresence player ∧ (s.step env a).redis =
          { s.redis with presence := s.redis.presence.erase player }) ∨
        (∃ token, a = .expireTicket token ∧ (s.step env a).redis =
          { s.redis with tickets := s.redis.tickets.erase token }))) := by
  have h := s.step_spec env a
  generalize s.step env a = s' at h
  cases h with
  | stay _ hnone => exact Or.inr ⟨hnone, Or.inl rfl⟩
  | handled => exact Or.inr ⟨rfl, Or.inl rfl⟩
  | executed _ _ hexec => exact Or.inl ⟨_, hexec, rfl⟩
  | resent => exact Or.inr ⟨rfl, Or.inl rfl⟩
  | resumed _ ha _ =>
    rcases ha with ⟨rfl, -⟩ | ⟨rfl, -⟩
    · exact Or.inr ⟨rfl, Or.inl rfl⟩
    · exact Or.inr ⟨rfl, Or.inl rfl⟩
  | matchStarted _ ha =>
    rcases ha with ⟨_, _, rfl, -⟩ | ⟨_, rfl, -⟩
    · exact Or.inr ⟨rfl, Or.inl rfl⟩
    · exact Or.inr ⟨rfl, Or.inl rfl⟩
  | matchExecuted _ _ hexec => exact Or.inl ⟨_, hexec, rfl⟩
  | matchResent => exact Or.inr ⟨rfl, Or.inl rfl⟩
  | matchResumed _ ha _ =>
    rcases ha with ⟨rfl, -⟩ | ⟨rfl, -⟩
    · exact Or.inr ⟨rfl, Or.inl rfl⟩
    · exact Or.inr ⟨rfl, Or.inl rfl⟩
  | presenceExpired player => exact Or.inr ⟨rfl, Or.inr (Or.inl ⟨player, rfl, rfl⟩)⟩
  | ticketExpired token => exact Or.inr ⟨rfl, Or.inr (Or.inr ⟨token, rfl, rfl⟩)⟩

theorem outcome_handle {w : WorldServer R A} (h : w.Tidy) {action : ShardAction A}
    {progress : WorldServer.Progress R A} (hhandle : handle env w action = some progress) :
    WorldServer.Outcome w (fun credential => action.offers = some credential)
      (w.AdmitsAlone action.offers) progress := by
  cases action with
  | connect credential now =>
    cases hhandle
    exact WorldServer.outcome_admit env h credential now
  | disconnect client now =>
    cases hhandle
    exact .idle (w.continues_disconnect client now)
  | payload client packet =>
    rw [handle] at hhandle
    split at hhandle
    · cases hhandle
      exact .idle (w.continues_onPayload env client packet)
    · cases hhandle
  | tick now clients roster =>
    cases hhandle
    exact WorldServer.outcome_tick env now clients roster
  | refresh now roster =>
    cases hhandle
    exact WorldServer.outcome_refreshCluster now roster
  | membership members =>
    cases hhandle
    exact .idle (w.continues_refresh members)
  | resume replies now => cases hhandle

theorem sound_step {s : Fleet R A} (h : ∀ id, Sound id (s.shards id)) (a : FleetAction A) :
    ∀ id, Sound id ((s.step env a).shards id) := by
  have hstep := s.step_spec env a
  generalize s.step env a = s' at hstep
  have hset : ∀ {id : Bytes} {p : ShardProcess R A}, Sound id p →
      ∀ j, Sound j ((s.setShard id p).shards j) := by
    intro id p hp j
    rw [setShard_shards]
    split
    · rw [‹j = id›]
      exact hp
    · exact h j
  cases hstep with
  | stay => exact h
  | @handled id action progress hidle hhandle =>
    exact hset (sound_launch env (h id).tidy (h id).named (outcome_handle env (h id).tidy hhandle))
  | @executed id task c htask hnext hexec =>
    exact hset ⟨(h id).tidy, (h id).named, (h id).sent, (h id).advertises, (h id).awaits⟩
  | @resent id task now htask =>
    exact hset ⟨(h id).tidy, (h id).named, (h id).sent, (h id).advertises, (h id).awaits⟩
  | @resumed id task _ now replies htask ha hanswer =>
    have hheard := (s.shards id).state.hears_heard replies task
    refine hset (sound_launch env (hheard.tidy (h id).tidy) ?_ (WorldServer.outcome_resume env
      (h id).tidy ((h id).advertises task htask) now replies ((h id).awaits task htask)))
    rw [hheard.config, hheard.coordinator]
    exact (h id).named
  | matchStarted => exact h
  | matchExecuted => exact h
  | matchResent => exact h
  | matchResumed => exact h
  | presenceExpired => exact h
  | ticketExpired => exact h

/-- The state of a shard changes by a handler, or not at all. -/
theorem state_step {s : Fleet R A} (h : ∀ id, Sound id (s.shards id)) (a : FleetAction A)
    (id : Bytes) :
    ((s.step env a).shards id).state = (s.shards id).state ∨
    ∃ w replies task asks admits progress, (s.shards id).state.Hears w replies task ∧
      WorldServer.Outcome w asks admits progress ∧
      ((s.step env a).shards id).state = progress.1 := by
  have hstep := s.step_spec env a
  generalize s.step env a = s' at hstep
  cases hstep with
  | stay => exact Or.inl rfl
  | @handled j action progress hidle hhandle =>
    rw [setShard_shards]
    split
    · subst ‹id = j›
      exact Or.inr ⟨_, none, .discard 0 [] [], _, _, progress, .refl _ _ _,
        outcome_handle env (h id).tidy hhandle, rfl⟩
    · exact Or.inl rfl
  | @executed j => exact Or.inl (s.setShard_state ((s.shards j).replied_state _) id)
  | @resent j => exact Or.inl (s.setShard_state (s.shards j).resent_state id)
  | @resumed j task _ now replies htask ha hanswer =>
    rw [setShard_shards]
    split
    · subst ‹id = j›
      exact Or.inr ⟨_, replies, task, _, _, _, (s.shards id).state.hears_heard replies task,
        WorldServer.outcome_resume env (h id).tidy ((h id).advertises task htask) now replies
          ((h id).awaits task htask), rfl⟩
    · exact Or.inl rfl
  | matchStarted => exact Or.inl rfl
  | matchExecuted => exact Or.inl rfl
  | matchResent => exact Or.inl rfl
  | matchResumed => exact Or.inl rfl
  | presenceExpired => exact Or.inl rfl
  | ticketExpired => exact Or.inl rfl

/-- A shard keeps its generator, and has never drawn less. -/
theorem coordinator_step {s : Fleet R A} (h : ∀ id, Sound id (s.shards id)) (a : FleetAction A)
    (id : Bytes) :
    ((s.step env a).shards id).state.coordinator.rng = (s.shards id).state.coordinator.rng ∧
      (s.shards id).state.coordinator.draws ≤
        ((s.step env a).shards id).state.coordinator.draws := by
  rcases state_step env h a id with hsame | ⟨w, _, _, _, _, _, hhears, houtcome, hstate⟩
  · rw [hsame]
    exact ⟨rfl, Nat.le_refl _⟩
  · rw [hstate, ← hhears.coordinator]
    exact houtcome.coordinator

theorem config_step {s : Fleet R A} (h : ∀ id, Sound id (s.shards id)) (a : FleetAction A)
    (id : Bytes) : ((s.step env a).shards id).state.config = (s.shards id).state.config := by
  rcases state_step env h a id with hsame | ⟨w, _, _, _, _, _, hhears, houtcome, hstate⟩
  · rw [hsame]
  · rw [hstate]
    exact (hhears.leaves houtcome.leaves).config

/-- The shard that takes part in a step. -/
def shardId : FleetAction A → Option Bytes
  | .shard id _ => some id
  | .shardExec id => some id
  | .shardLose id _ => some id
  | .shardAnswer id _ => some id
  | _ => none

theorem step_untouched (s : Fleet R A) {a : FleetAction A} {id : Bytes} (h : shardId a ≠ some id) :
    (s.step env a).shards id = s.shards id := by
  have hset : ∀ {j : Bytes} {p : ShardProcess R A}, shardId a = some j →
      (s.setShard j p).shards id = s.shards id := by
    intro j p hj
    rw [setShard_shards, if_neg]
    rintro rfl
    exact h hj
  have hstep := s.step_spec env a
  generalize s.step env a = s' at hstep
  cases hstep with
  | stay => rfl
  | handled => exact hset rfl
  | executed => exact hset rfl
  | resent => exact hset rfl
  | resumed _ ha _ =>
    rcases ha with ⟨rfl, -⟩ | ⟨rfl, -⟩
    · exact hset rfl
    · exact hset rfl
  | matchStarted => rfl
  | matchExecuted => rfl
  | matchResent => rfl
  | matchResumed => rfl
  | presenceExpired => rfl
  | ticketExpired => rfl

theorem run_untouched (s : Fleet R A) {actions : List (FleetAction A)} {id : Bytes}
    (h : ∀ a ∈ actions, shardId a ≠ some id) :
    (Run.run (step env) s actions).shards id = s.shards id := by
  induction actions generalizing s with
  | nil => rfl
  | cons a actions ih =>
    rw [Run.run_cons, ih _ fun b hb => h b (List.mem_cons_of_mem a hb)]
    exact s.step_untouched env (h a List.mem_cons_self)

theorem matchSent_step {s : Fleet R A} (h : s.MatchSent) (a : FleetAction A) :
    (s.step env a).MatchSent := by
  have hstep := s.step_spec env a
  generalize s.step env a = s' at hstep
  have hset : ∀ {m : Nat} {p : MatchProcess},
      (∀ task, p.task = some task → p.flight.commands = p.state.commands task) →
      ∀ n task, ((s.setMatchmaker m p).matchmakers n).task = some task →
        ((s.setMatchmaker m p).matchmakers n).flight.commands =
          ((s.setMatchmaker m p).matchmakers n).state.commands task := by
    intro m p hp n
    rw [setMatchmaker_matchmakers]
    split
    · exact hp
    · exact h n
  have hlaunch : ∀ (progress : Matchmaker × Option MatchTask) (task : MatchTask),
      (Process.launch matchBehaviour progress).task = some task →
        (Process.launch matchBehaviour progress).flight.commands =
          (Process.launch matchBehaviour progress).state.commands task := by
    rintro ⟨m, next⟩ task rfl
    rfl
  cases hstep with
  | stay => exact h
  | handled => exact h
  | executed => exact h
  | resent => exact h
  | resumed => exact h
  | matchStarted => exact hset (hlaunch _)
  | @matchExecuted m => exact hset (h m)
  | @matchResent m => exact hset (h m)
  | matchResumed => exact hset (hlaunch _)
  | presenceExpired => exact h
  | ticketExpired => exact h

end Fleet
end Morton.App
