import Morton.App.TicketUse
import Morton.Base.Run

/-! Whether the token of a migration ticket can pass for a session token. Sessions are
checked against the presence record, so everything that can write a token there counts:
a matchmaker that drew it, and a shard that let its bearer in. -/
namespace Morton.Cluster
open Proto

/-- The reply shows no record with this session token. -/
def RedisReply.Avoids (token : Nat) : RedisReply → Prop
  | .hash (some found) => found.session ≠ some token
  | _ => True

/-- The command puts no such session token in a record. -/
def RedisCommand.Avoids (token : Nat) : RedisCommand → Prop
  | .setPresence _ _ _ session _ => session ≠ token
  | .claim _ _ _ session _ _ => session ≠ token
  | _ => True

/-- No record holds this session token. -/
def Redis.Avoids (token : Nat) (r : Redis) : Prop :=
  ∀ player hash, r.presence.lookup player = some hash → hash.session ≠ some token

theorem Redis.Avoids.exec {token : Nat} {r : Redis} (h : r.Avoids token) {c : RedisCommand}
    (hc : c.Avoids token) : (r.exec c).1.Avoids token := by
  intro player hash hhash
  rcases r.presence_exec c player with
    hsame | ⟨_, _, session, _, rfl, hset⟩ | ⟨_, _, _, _, _, rfl, -, hset⟩ |
    ⟨_, _, session, _, _, rfl, -, hset⟩ | ⟨-, hset⟩
  · exact h player hash (hsame ▸ hhash)
  · cases hset.symm.trans hhash
    exact fun hsession => hc (Option.some.inj hsession)
  · cases hset.symm.trans hhash
    -- a transfer keeps the session it finds
    cases hold : r.presence.lookup player with
    | none => exact fun hsession => by cases hsession
    | some old => exact h player old hold
  · cases hset.symm.trans hhash
    exact fun hsession => hc (Option.some.inj hsession)
  · cases hset.symm.trans hhash

theorem Redis.Avoids.reply {token : Nat} {r : Redis} (h : r.Avoids token) (c : RedisCommand) :
    (r.exec c).2.Avoids token := by
  cases hreply : (r.exec c).2 with
  | hash found =>
    obtain ⟨player, -, hfound⟩ := Redis.exec_hash hreply
    cases found with
    | none => trivial
    | some record => exact h player record hfound
  | nil => trivial
  | ok => trivial
  | integer value => trivial
  | string value => trivial

theorem readPresence_avoids {token : Nat} (htoken : token ≠ 0) {player : Bytes}
    {replies : Option (List RedisReply)} (h : ∀ reply ∈ replies.getD [], reply.Avoids token)
    {record : PresenceRecord} (hrecord : readPresence player replies = some record) :
    record.sessionToken ≠ token := by
  unfold readPresence at hrecord
  split at hrecord
  · rename_i hash rest
    have hhash : hash.session ≠ some token := h (.hash (some hash)) (by simp)
    cases hrecord
    dsimp only
    cases hsession : hash.session with
    | none => exact Ne.symm htoken
    | some session =>
      rw [hsession] at hhash
      exact fun heq => hhash (congrArg some heq)
  · cases hrecord

namespace Matchmaker

/-- The token of the `n`th draw. -/
def tokenAt (m : Matchmaker) (n : Nat) : Nat := if m.rng n = 0 then 1 else m.rng n

end Matchmaker

/-- No record in the matchmaker's hands has this token. -/
def MatchTask.Avoids (token : Nat) : MatchTask → Prop
  | .restore existing _ _ => existing.sessionToken ≠ token
  | .claim record _ _ => record.sessionToken ≠ token
  | _ => True

theorem Matchmaker.commands_avoid {token : Nat} {m : Matchmaker} {task : MatchTask}
    (h : task.Avoids token) {c : RedisCommand} (hc : c ∈ m.commands task) : c.Avoids token := by
  cases task with
  | lookup player live =>
    cases List.mem_singleton.mp hc
    trivial
  | restore existing owner now =>
    simp only [commands, setPresenceCommands, List.mem_cons, List.not_mem_nil, or_false] at hc
    rcases hc with rfl | rfl | rfl | rfl
    · exact h
    all_goals trivial
  | clearLookup player live =>
    cases List.mem_singleton.mp hc
    trivial
  | clear player record live =>
    simp only [commands, clearPresenceCommands] at hc
    split at hc
    · split at hc
      · simp only [List.mem_cons, List.not_mem_nil, or_false] at hc
        rcases hc with rfl | rfl <;> trivial
      · cases List.mem_singleton.mp hc
        trivial
    · cases List.mem_singleton.mp hc
      trivial
  | claim record live now =>
    cases List.mem_singleton.mp hc
    exact h
  | relookup player winner =>
    cases List.mem_singleton.mp hc
    trivial

/-- What a matchmaker goes on with: the same generator, and a task that avoids the token
unless it was shown in the replies or has just been drawn. -/
structure Matchmaker.Draws (token : Nat) (replies : Option (List RedisReply)) (m : Matchmaker)
    (p : Matchmaker × Option MatchTask) : Prop where
  rng : p.1.rng = m.rng
  draws : m.draws ≤ p.1.draws
  avoids : token ≠ 0 → (∀ reply ∈ replies.getD [], reply.Avoids token) →
    (∀ n, n < p.1.draws → m.tokenAt n ≠ token) → ∀ task, p.2 = some task → task.Avoids token

namespace Matchmaker
variable {token : Nat} {replies : Option (List RedisReply)}

theorem draws_idle {m m' : Matchmaker} (hrng : m'.rng = m.rng) (hdraws : m'.draws = m.draws) :
    m.Draws token replies (m', none) :=
  ⟨hrng, hdraws.ge, fun _ _ _ _ h => by cases h⟩

theorem draws_wait {m : Matchmaker} {task : MatchTask}
    (h : token ≠ 0 → (∀ reply ∈ replies.getD [], reply.Avoids token) → task.Avoids token) :
    m.Draws token replies (m, some task) := by
  refine ⟨rfl, Nat.le_refl _, fun htoken hreplies _ next hnext => ?_⟩
  cases hnext
  exact h htoken hreplies

theorem draws_claimFor (m : Matchmaker) (player : Bytes) (live : List ShardInfo) (now : Nat) :
    m.Draws token replies (m.claimFor player live now) := by
  unfold claimFor
  split
  · exact draws_idle rfl rfl
  · refine ⟨rfl, Nat.le_succ _, fun _ _ hundrawn task htask => ?_⟩
    cases htask
    exact hundrawn m.draws (Nat.lt_succ_self _)

theorem draws_resume (m : Matchmaker) (now : Nat) (task : MatchTask) :
    m.Draws token replies (m.resume now replies task) := by
  cases task with
  | lookup player live =>
    simp only [resume]
    split
    · exact m.draws_claimFor player live now
    · rename_i existing hexisting
      have hread := (Option.filter_eq_some_iff.mp hexisting).1
      split
      · exact draws_wait fun htoken hreplies => readPresence_avoids htoken hreplies hread
      · exact draws_wait fun _ _ => trivial
  | restore existing owner sentMs => exact draws_idle rfl rfl
  | clearLookup player live => exact draws_wait fun _ _ => trivial
  | clear player record live =>
    cases live with
    | none => exact draws_idle rfl rfl
    | some live => exact m.draws_claimFor player live now
  | claim record live sentMs =>
    simp only [resume]
    split
    · split
      · exact draws_idle rfl rfl
      · exact draws_idle rfl rfl
    · split
      · exact draws_idle rfl rfl
      · exact draws_wait fun _ _ => trivial
  | relookup player winner => exact draws_idle rfl rfl

end Matchmaker

end Morton.Cluster

namespace Morton.App
open Proto Sim Cluster

/-- What a shard sends carries the tokens of its players. -/
theorem WorldServer.commands_avoid {R A : Type} {token : Nat} {w : WorldServer R A} {task : Task}
    (hawaits : w.Awaits task)
    (hplayers : ∀ client player, w.players.lookup client = some player →
      player.sessionToken ≠ token) {c : RedisCommand} (hc : c ∈ w.commands task) :
    c.Avoids token := by
  have hrecord : ∀ {record : PresenceRecord} {ttl now : Nat}, w.Hosts record →
      c ∈ setPresenceCommands record ttl now → c.Avoids token := by
    intro record ttl now hhosts hc
    obtain ⟨client, player, hplayer, -, rfl⟩ := hhosts
    simp only [setPresenceCommands, List.mem_cons, List.not_mem_nil, or_false] at hc
    rcases hc with rfl | rfl | rfl | rfl
    · exact hplayers client player hplayer
    all_goals trivial
  cases task with
  | admitSession credential admittedMs =>
    cases List.mem_singleton.mp hc
    trivial
  | admitTicket credential admittedMs =>
    cases List.mem_singleton.mp hc
    trivial
  | touch record sentMs => exact hrecord hawaits hc
  | handoff client plan stamped sentMs rest expired =>
    simp only [WorldServer.commands, MigrationStore.publishCommands, List.mem_cons,
      List.not_mem_nil, or_false] at hc
    rcases hc with rfl | rfl <;> trivial
  | discard token rest expired =>
    cases List.mem_singleton.mp hc
    trivial
  | heartbeat records heartbeatMs =>
    obtain ⟨record, hmem, hc⟩ := List.mem_flatMap.mp hc
    exact hrecord (hawaits record hmem) hc

namespace Fleet
variable {R A : Type}

/-- Some matchmaker has drawn the token for a session. -/
def DrawnForSession (token : Nat) (s : Fleet R A) : Prop :=
  ∃ m n, n < (s.matchmakers m).state.draws ∧ (s.matchmakers m).state.tokenAt n = token

/-- Some shard has let in the bearer of the ticket. -/
def TicketUsed (token : Nat) (s : Fleet R A) : Prop :=
  ∃ id client credential ticket,
    .joined client credential ticket ∈ (s.shards id).state.trace ∧
    credential.kind = .migration ∧ credential.token = token

/-- A session credential with the token of a ticket is checked only while nobody has come
in with the ticket. -/
def CheckedBeforeUse (token : Nat) (s : Fleet R A) : FleetAction A → Prop
  | .shardExec id => ∀ credential admittedMs,
    (s.shards id).task = some (.admitSession credential admittedMs) → credential.token = token →
      ¬ s.TicketUsed token
  | _ => True

/-- The token is nowhere a session token could be. -/
structure Apart (token : Nat) (s : Fleet R A) : Prop where
  presence : s.redis.Avoids token
  players : ∀ id, (s.shards id).state.config.advertise = true → ∀ client player,
    (s.shards id).state.players.lookup client = some player → player.sessionToken ≠ token
  matchTasks : ∀ m task, (s.matchmakers m).task = some task → task.Avoids token
  matchReplies : ∀ m, ∀ reply ∈ (s.matchmakers m).flight.replies, reply.Avoids token

/-- No advertising shard has accepted the token for a session, or is about to. -/
structure Kept (token : Nat) (s : Fleet R A) : Prop where
  never : ∀ id, (s.shards id).state.config.advertise = true → ∀ client credential ticket,
    .joined client credential ticket ∈ (s.shards id).state.trace →
      credential.kind = .session → credential.token ≠ token
  asked : ∀ id credential admittedMs,
    (s.shards id).task = some (.admitSession credential admittedMs) → credential.token = token →
      ∀ reply ∈ (s.shards id).flight.replies, reply.Avoids token
  apart : s.TicketUsed token ∨ s.Apart token

/-- Steps on which no shard's state changes. -/
theorem Kept.of_states {token : Nat} {s s' : Fleet R A} (h : s.Kept token)
    (hstate : ∀ id, (s'.shards id).state = (s.shards id).state)
    (hasked : ∀ id credential admittedMs,
      (s'.shards id).task = some (.admitSession credential admittedMs) →
        credential.token = token → ∀ reply ∈ (s'.shards id).flight.replies, reply.Avoids token)
    (happart : s.Apart token → s'.Apart token) : s'.Kept token := by
  refine ⟨fun id => ?_, hasked, h.apart.imp ?_ happart⟩
  · rw [hstate]
    exact h.never id
  · rintro ⟨id, client, credential, ticket, hjoined, hkind, htoken⟩
    exact ⟨id, client, credential, ticket, (hstate id).symm ▸ hjoined, hkind, htoken⟩

theorem answered_avoids {token : Nat} {f : Pipeline.Flight RedisCommand RedisReply}
    (h : ∀ reply ∈ f.replies, reply.Avoids token) {replies : Option (List RedisReply)}
    (hanswer : Answered f replies) : ∀ reply ∈ replies.getD [], reply.Avoids token := by
  cases hanswer with
  | givenUp => exact fun reply hreply => by cases hreply
  | replied => exact h

/-- A matchmaker and Redis move on, no shard does. -/
theorem Apart.setMatchmaker {token : Nat} {s : Fleet R A} (h : s.Apart token) {m : Nat}
    {p : MatchProcess} {redis : Redis} (hredis : redis.Avoids token)
    (htask : ∀ task, p.task = some task → task.Avoids token)
    (hreplies : ∀ reply ∈ p.flight.replies, reply.Avoids token) :
    ({ s.setMatchmaker m p with redis } : Fleet R A).Apart token := by
  refine ⟨hredis, h.players, fun n => ?_, fun n => ?_⟩
  · dsimp only
    rw [setMatchmaker_matchmakers]
    split
    · exact htask
    · exact h.matchTasks n
  · dsimp only
    rw [setMatchmaker_matchmakers]
    split
    · exact hreplies
    · exact h.matchReplies n

theorem Fresh.kept {s : Fleet R A} (h : s.Fresh) (token : Nat) : s.Kept token := by
  refine ⟨fun id _ client credential ticket hjoined => ?_, fun id credential admittedMs htask => ?_,
    Or.inr ⟨fun player hash hhash => ?_, fun id _ client player hplayer => ?_, fun m task htask => ?_,
      fun m => ?_⟩⟩
  · obtain ⟨-, -, -, htrace, -⟩ := h.empty id
    rw [htrace] at hjoined
    cases hjoined
  · cases (h.idle id).symm.trans htask
  · rw [h.redis] at hhash
    cases hhash
  · rw [(h.empty id).1] at hplayer
    cases hplayer
  · cases (h.matchIdle m).1.symm.trans htask
  · rw [(h.matchIdle m).2.2.2]
    exact fun reply hreply => by cases hreply

section
variable [LT R] (env : ShardEnv R A)

/-- A handler that may let in only bearers of tickets, or sessions with other tokens. -/
theorem Kept.launch {token : Nat} {s : Fleet R A} (h : s.Kept token) {id : Bytes}
    {admits : ConnectCredential → Option MigrationTicket → Prop}
    {progress : WorldServer.Progress R A}
    (hleaves : (s.shards id).state.Leaves admits progress.1)
    (hadmits : ∀ credential ticket, admits credential ticket →
      (s.shards id).state.config.advertise = true → credential.kind = .session →
        credential.token ≠ token) :
    (s.setShard id (Process.launch (shardBehaviour env) progress)).Kept token := by
  refine ⟨fun j hadvertise client credential ticket hjoined hsession => ?_,
    fun j credential admittedMs htask htoken => ?_, ?_⟩
  · rw [setShard_shards] at hadvertise hjoined
    split at hjoined
    · rw [if_pos ‹j = id›] at hadvertise
      have hadvertise' : (s.shards id).state.config.advertise = true := hleaves.config ▸ hadvertise
      rcases hleaves.joined client credential ticket hjoined with hold | hnew
      · exact h.never id hadvertise' client credential ticket hold hsession
      · exact hadmits credential ticket hnew hadvertise' hsession
    · rw [if_neg ‹_›] at hadvertise
      exact h.never j hadvertise client credential ticket hjoined hsession
  · rw [setShard_shards] at htask ⊢
    split at htask
    · rw [if_pos ‹j = id›]
      intro reply hreply
      cases hreply
    · rw [if_neg ‹_›]
      exact h.asked j credential admittedMs htask htoken
  · by_cases hused : (s.setShard id (Process.launch (shardBehaviour env) progress)).TicketUsed token
    · exact Or.inl hused
    · refine Or.inr ?_
      rcases h.apart with ⟨j, client, credential, ticket, hjoined, hkind, htoken⟩ | hapart
      · refine absurd ⟨j, client, credential, ticket, ?_, hkind, htoken⟩ hused
        rw [setShard_shards]
        split
        · rw [‹j = id›] at hjoined
          exact hleaves.trace _ hjoined
        · exact hjoined
      · refine ⟨hapart.presence, fun j hadvertise client player hplayer => ?_, hapart.matchTasks,
          hapart.matchReplies⟩
        rw [setShard_shards] at hadvertise hplayer
        split at hplayer
        · rw [if_pos ‹j = id›] at hadvertise
          have hadvertise' : (s.shards id).state.config.advertise = true :=
            hleaves.config ▸ hadvertise
          rcases hleaves.players client player hplayer with
            ⟨old, hold, htoken⟩ | ⟨newcomer, credential, ticket, hnew, htoken, hjoined⟩
          · rw [htoken]
            exact hapart.players id hadvertise' client old hold
          · rw [htoken]
            cases hkind : credential.kind with
            | session => exact hadmits credential ticket hnew hadvertise' hkind
            | migration =>
              intro heq
              refine hused ⟨id, newcomer, credential, ticket, ?_, hkind, heq⟩
              rw [setShard_shards, if_pos rfl]
              exact hjoined
        · rw [if_neg ‹_›] at hadvertise
          exact hapart.players j hadvertise client player hplayer

end

variable [LT R] [Add R] [Mul R] [Neg R] [DecidableLT R] [OfScientific R] (env : ShardEnv R A)

theorem kept_step {token : Nat} (htoken : token ≠ 0) {s : Fleet R A}
    (hsound : ∀ id, Sound id (s.shards id)) (hsent : s.MatchSent) {a : FleetAction A}
    (hok : s.CheckedBeforeUse token a) (h : s.Kept token) :
    (s.step env a).DrawnForSession token ∨ (s.step env a).Kept token := by
  by_cases hdrawn : (s.step env a).DrawnForSession token
  · exact Or.inl hdrawn
  refine Or.inr ?_
  have hstep := s.step_spec env a
  generalize s.step env a = s' at hstep hdrawn
  cases hstep with
  | stay => exact h
  | @handled id action progress hidle hhandle =>
    refine h.launch env (outcome_handle env (hsound id).tidy hhandle).leaves ?_
    rintro credential ticket ⟨-, ⟨hkind, -⟩ | ⟨-, -, hlone⟩⟩ hadvertise hsession
    · cases hkind.symm.trans hsession
    · cases hlone.symm.trans hadvertise
  | @executed id task c htask hnext hexec =>
    have hmem : c ∈ (s.shards id).state.commands task := by
      rw [← (hsound id).sent task htask]
      exact List.mem_of_getElem? hnext
    refine h.of_states (s.setShard_state rfl) (fun j credential admittedMs hj heq => ?_)
      fun hapart => ?_
    · dsimp only at hj ⊢
      rw [setShard_shards] at hj ⊢
      split at hj
      · rw [if_pos ‹j = id›]
        intro reply hreply
        rcases List.mem_append.mp hreply with hreply | hreply
        · exact h.asked id credential admittedMs hj heq reply hreply
        · -- the record is read before anybody has come in with the ticket
          cases List.mem_singleton.mp hreply
          have hapart := h.apart.resolve_left (hok credential admittedMs hj heq)
          exact hapart.presence.reply c
      · rw [if_neg ‹_›]
        exact h.asked j credential admittedMs hj heq
    · refine ⟨hapart.presence.exec (WorldServer.commands_avoid ((hsound id).awaits task htask)
        (hapart.players id ((hsound id).advertises task htask)) hmem), fun j => ?_,
        hapart.matchTasks, hapart.matchReplies⟩
      dsimp only
      rw [s.setShard_state ((s.shards id).replied_state _)]
      exact hapart.players j
  | @resent id task now htask =>
    refine h.of_states (s.setShard_state rfl) (fun j credential admittedMs hj heq => ?_)
      fun hapart => ⟨hapart.presence, fun j => ?_, hapart.matchTasks, hapart.matchReplies⟩
    · rw [setShard_shards] at hj ⊢
      split at hj
      · rw [if_pos ‹j = id›]
        intro reply hreply
        cases hreply
      · rw [if_neg ‹_›]
        exact h.asked j credential admittedMs hj heq
    · rw [s.setShard_state (s.shards id).resent_state]
      exact hapart.players j
  | @resumed id task _ now replies htask ha hanswer =>
    have hawaits := (hsound id).awaits task htask
    have houtcome := WorldServer.outcome_resume env (hsound id).tidy
      ((hsound id).advertises task htask) now replies hawaits
    refine h.launch env (((s.shards id).state.hears_heard replies task).leaves houtcome.leaves) ?_
    rintro credential ticket ⟨hcredential, ⟨-, -, record, hread, hrecord, -⟩ | ⟨hkind, -⟩⟩ - hsession
    · intro heq
      cases task with
      | admitSession offered admittedMs =>
        cases hcredential
        have hreplies := answered_avoids (h.asked id credential admittedMs htask heq) hanswer
        exact readPresence_avoids htoken hreplies hread (hrecord.trans heq)
      | admitTicket offered admittedMs =>
        cases hcredential
        cases hsession.symm.trans hawaits
      | touch => cases hcredential
      | handoff => cases hcredential
      | discard => cases hcredential
      | heartbeat => cases hcredential
    · cases hkind.symm.trans hsession
  | @matchStarted m _ progress hidle ha =>
    refine h.of_states (fun j => rfl) h.asked fun hapart =>
      hapart.setMatchmaker hapart.presence (fun task htask => ?_) fun reply hreply => by cases hreply
    rcases ha with ⟨player, live, -, rfl⟩ | ⟨player, -, rfl⟩
    · rw [Process.launch, Matchmaker.assign] at htask
      split at htask
      · cases htask
      · cases htask
        trivial
    · cases htask
      trivial
  | @matchExecuted m task c htask hnext hexec =>
    refine h.of_states (fun j => rfl) h.asked fun hapart => ?_
    have hmem : c ∈ (s.matchmakers m).state.commands task := by
      rw [← hsent m task htask]
      exact List.mem_of_getElem? hnext
    refine hapart.setMatchmaker (hapart.presence.exec
      (Matchmaker.commands_avoid (hapart.matchTasks m task htask) hmem)) (hapart.matchTasks m)
      fun reply hreply => ?_
    rcases List.mem_append.mp hreply with hreply | hreply
    · exact hapart.matchReplies m reply hreply
    · cases List.mem_singleton.mp hreply
      exact hapart.presence.reply c
  | @matchResent m task now htask =>
    exact h.of_states (fun j => rfl) h.asked fun hapart =>
      hapart.setMatchmaker hapart.presence (hapart.matchTasks m) fun reply hreply => by cases hreply
  | @matchResumed m task _ now replies htask ha hanswer =>
    refine h.of_states (fun j => rfl) h.asked fun hapart => ?_
    have hdraws : (s.matchmakers m).state.Draws token replies _ :=
      (s.matchmakers m).state.draws_resume now task
    have hreplies := answered_avoids (hapart.matchReplies m) hanswer
    refine hapart.setMatchmaker hapart.presence
      (hdraws.avoids htoken hreplies fun n hn heq => hdrawn ⟨m, n, ?_⟩)
      fun reply hreply => by cases hreply
    rw [setMatchmaker_matchmakers, if_pos rfl]
    refine ⟨hn, ?_⟩
    rw [← heq, Process.launch, Matchmaker.tokenAt, Matchmaker.tokenAt, hdraws.rng]
  | presenceExpired player =>
    refine h.of_states (fun j => rfl) h.asked fun hapart =>
      ⟨fun other hash hhash => ?_, hapart.players, hapart.matchTasks, hapart.matchReplies⟩
    exact hapart.presence other hash (Table.lookup_erase_some hhash).2
  | ticketExpired expired =>
    exact h.of_states (fun j => rfl) h.asked fun hapart =>
      ⟨hapart.presence, hapart.players, hapart.matchTasks, hapart.matchReplies⟩

/-- A matchmaker keeps its generator, and has never drawn less. -/
theorem matchmaker_step (s : Fleet R A) (a : FleetAction A) (m : Nat) :
    ((s.step env a).matchmakers m).state.rng = (s.matchmakers m).state.rng ∧
      (s.matchmakers m).state.draws ≤ ((s.step env a).matchmakers m).state.draws := by
  have hstep := s.step_spec env a
  generalize s.step env a = s' at hstep
  have hset : ∀ {n : Nat} {p : MatchProcess}, p.state.rng = (s.matchmakers n).state.rng ∧
        (s.matchmakers n).state.draws ≤ p.state.draws →
      ((s.setMatchmaker n p).matchmakers m).state.rng = (s.matchmakers m).state.rng ∧
        (s.matchmakers m).state.draws ≤ ((s.setMatchmaker n p).matchmakers m).state.draws := by
    intro n p hp
    rw [setMatchmaker_matchmakers]
    split
    · rw [‹m = n›]
      exact hp
    · exact ⟨rfl, Nat.le_refl _⟩
  cases hstep with
  | stay => exact ⟨rfl, Nat.le_refl _⟩
  | handled => exact ⟨rfl, Nat.le_refl _⟩
  | executed => exact ⟨rfl, Nat.le_refl _⟩
  | resent => exact ⟨rfl, Nat.le_refl _⟩
  | resumed => exact ⟨rfl, Nat.le_refl _⟩
  | @matchStarted n _ progress hidle ha =>
    refine hset ?_
    rcases ha with ⟨player, live, -, rfl⟩ | ⟨player, -, rfl⟩
    · rw [Process.launch, Matchmaker.assign]
      split <;> exact ⟨rfl, Nat.le_refl _⟩
    · exact ⟨rfl, Nat.le_refl _⟩
  | matchExecuted => exact hset ⟨rfl, Nat.le_refl _⟩
  | matchResent => exact hset ⟨rfl, Nat.le_refl _⟩
  | @matchResumed n task _ now replies htask ha hanswer =>
    have hdraws : (s.matchmakers n).state.Draws 0 replies _ :=
      (s.matchmakers n).state.draws_resume now task
    exact hset ⟨hdraws.rng, hdraws.draws⟩
  | presenceExpired => exact ⟨rfl, Nat.le_refl _⟩
  | ticketExpired => exact ⟨rfl, Nat.le_refl _⟩

theorem drawnForSession_step {token : Nat} {s : Fleet R A} (h : s.DrawnForSession token)
    (a : FleetAction A) : (s.step env a).DrawnForSession token := by
  obtain ⟨m, n, hn, heq⟩ := h
  obtain ⟨hrng, hdraws⟩ := s.matchmaker_step env a m
  refine ⟨m, n, Nat.lt_of_lt_of_le hn hdraws, ?_⟩
  rw [← heq, Matchmaker.tokenAt, Matchmaker.tokenAt, hrng]

/-- In every run, a token that some shard drew for a ticket and no matchmaker drew for a
session is never accepted for a session, on any shard that advertises and for any player,
as long as it is checked for one only while nobody has come in with the ticket. -/
theorem ticket_token_opens_no_session {token : Nat} {s : Fleet R A} (hfresh : s.Fresh)
    {actions : List (FleetAction A)}
    (hticket : (Run.run (step env) s actions).DrawnForTicket token)
    (hsession : ¬ (Run.run (step env) s actions).DrawnForSession token)
    (hok : Run.Along (step env) (CheckedBeforeUse token) s actions) :
    ∀ id, ((Run.run (step env) s actions).shards id).state.config.advertise = true →
      ∀ client credential ticket, .joined client credential ticket ∈
          ((Run.run (step env) s actions).shards id).state.trace →
        credential.kind = .session → credential.token ≠ token := by
  have htoken : token ≠ 0 := by
    obtain ⟨id, n, -, rfl⟩ := hticket
    unfold ShardCoordinator.tokenAt
    split
    · exact Nat.one_ne_zero
    · assumption
  have hrun := Run.invariant
    (fun s : Fleet R A => (∀ id, Sound id (s.shards id)) ∧ s.MatchSent ∧
      (s.DrawnForSession token ∨ s.Kept token))
    (fun s a hok h => ⟨sound_step env h.1 a, matchSent_step env h.2.1 a,
      h.2.2.elim (fun hdrawn => Or.inl (drawnForSession_step env hdrawn a))
        (kept_step env htoken h.1 h.2.1 hok)⟩)
    ⟨hfresh.sound, hfresh.matchSent, Or.inr (hfresh.kept token)⟩ hok
  exact (hrun.2.2.resolve_left hsession).never

theorem not_drawnForSession_run {token : Nat} {s : Fleet R A}
    (h : ∀ m n, (s.matchmakers m).state.tokenAt n ≠ token) (actions : List (FleetAction A)) :
    ¬ (Run.run (step env) s actions).DrawnForSession token := by
  have hrun := Run.invariant_always
    (fun t : Fleet R A => ∀ m n, (t.matchmakers m).state.tokenAt n ≠ token)
    (fun t a ht m n => by
      rw [Matchmaker.tokenAt, (t.matchmaker_step env a m).1]
      exact ht m n) h actions
  rintro ⟨m, n, -, heq⟩
  exact hrun m n heq

/-- No session is being admitted under token 7. -/
def otherToken : Option Task → Bool
  | some (.admitSession credential _) => credential.token != 7
  | _ => true

def checksOther (s : Fleet ℚ Unit) : FleetAction Unit → Bool
  | .shardExec id => otherToken (s.shards id).task
  | _ => true

/-- The handoff from "a" to "b", whose ticket has token 7. -/
theorem ticket_token_opens_no_session_crossing :
    (Run.run (step .eastward) quiet (arrival ++ departure ++ landing)).DrawnForTicket 7 ∧
    ∀ id, ((Run.run (step .eastward) quiet (arrival ++ departure ++ landing)).shards
        id).state.config.advertise = true →
      ∀ client credential ticket, .joined client credential ticket ∈
          ((Run.run (step .eastward) quiet (arrival ++ departure ++ landing)).shards
            id).state.trace →
        credential.kind = .session → credential.token ≠ 7 := by
  have hdrawn : (Run.run (step .eastward) quiet
      (arrival ++ departure ++ landing)).DrawnForTicket 7 :=
    ⟨[97], 0, by decide +kernel, by decide +kernel⟩
  refine ⟨hdrawn, ticket_token_opens_no_session .eastward fresh_quiet hdrawn
    (not_drawnForSession_run .eastward (fun m n => ?_) _) ?_⟩
  · exact show (5 : Nat) ≠ 7 by decide
  · -- only the session of the arrival is checked, and its token is another one
    have hother : Run.Along (step .eastward) (fun (s : Fleet ℚ Unit) a => s.checksOther a = true)
        quiet (arrival ++ departure ++ landing) := by
      decide +kernel
    refine Run.along_mono (fun s a h => ?_) hother
    cases a with
    | shardExec id =>
      intro credential admittedMs htask htoken
      simp [checksOther, htask, otherToken, htoken] at h
    | _ => trivial

/-- Player "p" comes to "b" with the ticket, and its token is then offered for a session. -/
def replay : List (FleetAction Unit) :=
  arrival ++ departure ++ landing ++
    [.shard [98] (.connect (some { token := 7, playerId := [112] }) 0), .shardExec [98],
      .shardAnswer [98] 0]

/-- The ticket's token has become the session token of the record, and is accepted. -/
theorem ticket_token_opens_session :
    (Run.run (step .eastward) quiet replay).DrawnForTicket 7 ∧
    ¬ (Run.run (step .eastward) quiet replay).DrawnForSession 7 ∧
    ((Run.run (step .eastward) quiet replay).shards [98]).state.config.advertise = true ∧
    .joined 2 { token := 7, playerId := [112] } none ∈
      ((Run.run (step .eastward) quiet replay).shards [98]).state.trace := by
  refine ⟨⟨[97], 0, ?_, ?_⟩, not_drawnForSession_run .eastward (fun m n => ?_) _, ?_, ?_⟩
  · decide +kernel
  · decide +kernel
  · exact show (5 : Nat) ≠ 7 by decide
  · decide +kernel
  · decide +kernel

end Fleet
end Morton.App
