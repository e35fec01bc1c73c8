import Morton.App.FleetSpec

/-! On how many shards a player is. A shard keeps a player that is resident, and one it has
already found its own record of; the record in Redis names that shard, or is being handed
over by it. -/
namespace Morton.App
open Proto Sim Cluster

namespace WorldServer
variable {R A : Type}

/-- The shard has the player, and has not redirected it. -/
def Resident (player : Bytes) (w : WorldServer R A) : Prop :=
  ∃ client entry, w.players.lookup client = some entry ∧ entry.playerId = player ∧
    entry.redirecting = false

theorem Continues.resident {w w' : WorldServer R A} (h : w.Continues w') {player : Bytes}
    (hresident : w'.Resident player) : w.Resident player := by
  obtain ⟨client, entry', hentry', hid', hstays'⟩ := hresident
  obtain ⟨entry, hentry, hid, -, hstays⟩ := h.players client entry' hentry'
  exact ⟨client, entry, hentry, hid.symm.trans hid', hstays.symm.trans hstays'⟩

/-- Who is resident after a handler was before, or has been admitted. -/
theorem Outcome.resident {w : WorldServer R A} {asks : ConnectCredential → Prop}
    {admits : ConnectCredential → Option MigrationTicket → Prop} {progress : Progress R A}
    (h : Outcome w asks admits progress) {player : Bytes} (hresident : progress.1.Resident player) :
    w.Resident player ∨ ∃ credential ticket, admits credential ticket ∧
      credential.playerId = player := by
  cases h with
  | idle h => exact Or.inl (h.resident hresident)
  | waits h => exact Or.inl (h.resident hresident)
  | @joins w' task credential ticket h hadmits htask =>
    obtain ⟨client, entry', hentry', hid', hstays'⟩ := hresident
    by_cases hclient : client = w.nextClient
    · obtain ⟨newcomer, hnewcomer, hid, -⟩ := h.newcomer
      rw [hclient, hnewcomer] at hentry'
      cases hentry'
      exact Or.inr ⟨credential, ticket, hadmits, hid.symm.trans hid'⟩
    · obtain ⟨-, entry, hentry, hid, -, hstays⟩ := h.others client entry' hentry' hclient
      exact Or.inl ⟨client, entry, hentry, hid.symm.trans hid', hstays.symm.trans hstays'⟩

theorem Hears.resident {w w' : WorldServer R A} {replies : Option (List RedisReply)} {task : Task}
    (h : w.Hears w' replies task) {player : Bytes} (hresident : w'.Resident player) :
    w.Resident player := by
  obtain ⟨client, entry', hentry', hid', hstays'⟩ := hresident
  obtain ⟨entry, hentry, hid, -, hstays⟩ := h.players client entry' hentry'
  exact ⟨client, entry, hentry, hid.symm.trans hid', hstays hstays'⟩

/-- A player that was told where to go is no longer resident. -/
theorem not_resident_redirect {w : WorldServer R A} (h : w.Tidy) {client : Nat} {plan : HandoffPlan}
    {stamped : MigrationTicket} (hhanding : w.Handing client plan stamped)
    (hfits : encodeMigrateRedirect
        { ticket := plan.token, region := plan.targetRegion, endpoint := plan.targetEndpoint
          shardId := plan.targetShard } kMaxReliableMessageSize ≠ []) :
    ¬ (w.redirect client plan).Resident stamped.playerId := by
  obtain ⟨entry, hentry, -, hid⟩ := hhanding.resident
  obtain ⟨hindex, hconnected⟩ := h.indexed client entry hentry
  rintro ⟨other, found, hfound, hsame, hstays⟩
  rw [redirect, hentry] at hfound
  simp only [hfits, hconnected, not_true_eq_false, or_self, if_false, Table.lookup_insert] at hfound
  split at hfound
  · cases hfound
    cases hstays
  · rename_i hother
    -- the id leads to one client only
    have hindex' := (h.indexed other found hfound).1
    rw [hsame, ← hid, hindex] at hindex'
    exact hother (Option.some.inj hindex').symm

end WorldServer

namespace Fleet
variable {R A : Type}

/-- The shard has read a record that lets the player in. -/
def Admitting (player : Bytes) (p : ShardProcess R A) : Prop :=
  ∃ credential admittedMs record,
    p.task = some (.admitSession credential admittedMs) ∧ credential.playerId = player ∧
    readPresence player (some p.flight.replies) = some record ∧
    record.sessionToken = credential.token ∧ record.shardId = p.state.config.shardId

def Keeps (player : Bytes) (p : ShardProcess R A) : Prop :=
  p.state.Resident player ∨ Admitting player p

/-- The shard waits for the outcome of a handoff of the player. -/
def HandsOver (player : Bytes) (p : ShardProcess R A) : Prop :=
  ∃ client plan stamped sentMs rest expired,
    p.task = some (.handoff client plan stamped sentMs rest expired) ∧ stamped.playerId = player

/-- The record names the shard, and no other shard is still handing the player over. -/
def Free (player id : Bytes) (s : Fleet R A) : Prop :=
  s.redis.shardOf player = some id ∧ ∀ j, j ≠ id → ¬ HandsOver player (s.shards j)

/-- An answer a shard can take. A handoff that fails has moved nothing, one that succeeds is
told to the player, and a ticket is taken only where the record leads. -/
def TakenInOrder (s : Fleet R A) (id : Bytes) (replies : Option (List RedisReply)) : Task → Prop
  | .handoff _ plan stamped _ _ _ =>
    if MigrationStore.judge replies = .published then
      encodeMigrateRedirect
        { ticket := plan.token, region := plan.targetRegion, endpoint := plan.targetEndpoint
          shardId := plan.targetShard } kMaxReliableMessageSize ≠ []
    else s.redis.shardOf stamped.playerId = some id
  | .admitTicket credential _ =>
    ∀ ticket, (s.shards id).state.redeemed credential.token replies = some ticket →
      ticket.playerId = credential.playerId → s.Free credential.playerId id
  | _ => True

/-- The steps after which no player is on two shards. -/
def InOrder (s : Fleet R A) : FleetAction A → Prop
  | .shard id action =>
    (s.shards id).task = none → ∀ credential ticket, action.offers = some credential →
      credential.kind = .migration →
      (s.shards id).state.redeemedTickets.lookup credential.token = some ticket →
      ticket.playerId = credential.playerId → s.Free credential.playerId id
  | .shardExec id =>
    ∀ credential admittedMs hash, (s.shards id).task = some (.admitSession credential admittedMs) →
      s.redis.presence.lookup credential.playerId = some hash → hash.shard = id →
      hash.session.getD 0 = credential.token → s.Free credential.playerId id
  | .shardLose id _ =>
    (s.shards id).flight.resent = true → ∀ task, (s.shards id).task = some task →
      s.TakenInOrder id none task
  | .shardAnswer id _ =>
    ∀ task, (s.shards id).task = some task →
      s.TakenInOrder id (some (s.shards id).flight.replies) task
  | .matchExec m =>
    match s.executes (.matchExec m) with
    | some (.setPresence player shard _ _ _) =>
      ∀ named, s.redis.shardOf player = some named → named = shard
    | some (.delPresence player) => ∀ id, ¬ Keeps player (s.shards id)
    | _ => True
  | .expirePresence player => ∀ id, ¬ Keeps player (s.shards id)
  | _ => True

/-- Who keeps a player is named in its record or is handing it over, and nobody else
keeps it. -/
structure Settled (s : Fleet R A) : Prop where
  named : ∀ player id, Keeps player (s.shards id) →
    s.redis.shardOf player = some id ∨ HandsOver player (s.shards id)
  alone : ∀ player i j, Keeps player (s.shards i) → Keeps player (s.shards j) → i = j

/-- Where the record is free for a shard, nobody else keeps the player. -/
theorem Settled.free {s : Fleet R A} (h : s.Settled) {player id : Bytes} (hfree : s.Free player id)
    {j : Bytes} (hj : Keeps player (s.shards j)) : j = id := by
  rcases h.named player j hj with hnamed | hhands
  · exact Option.some.inj (hnamed.symm.trans hfree.1)
  · by_contra hne
    exact hfree.2 j hne hhands

/-- One shard moves on. Whom it keeps afterwards it kept before, and is still named or
handing over; or the record is free for it. -/
theorem Settled.move {s : Fleet R A} (h : s.Settled) {id : Bytes} {p : ShardProcess R A}
    (hkeeps : ∀ player, Keeps player p → s.Free player id ∨
      Keeps player (s.shards id) ∧ (s.redis.shardOf player = some id ∨ HandsOver player p)) :
    (s.setShard id p).Settled := by
  have hself : (s.setShard id p).shards id = p := by rw [setShard_shards, if_pos rfl]
  have hother : ∀ {j}, j ≠ id → (s.setShard id p).shards j = s.shards j := fun hj => by
    rw [setShard_shards, if_neg hj]
  refine ⟨fun player j hj => ?_, fun player i j hi hj => ?_⟩
  · by_cases hid : j = id
    · rw [hid, hself] at hj ⊢
      rcases hkeeps player hj with hfree | ⟨-, hnamed⟩
      · exact Or.inl hfree.1
      · exact hnamed
    · rw [hother hid] at hj ⊢
      exact h.named player j hj
  · have honly : ∀ {j}, Keeps player p → j ≠ id → Keeps player (s.shards j) → False := by
      intro j hp hne hj
      rcases hkeeps player hp with hfree | ⟨hkept, -⟩
      · exact hne (h.free hfree hj)
      · exact hne (h.alone player j id hj hkept)
    by_cases hi' : i = id
    · by_cases hj' : j = id
      · exact hi'.trans hj'.symm
      · rw [hi', hself] at hi
        rw [hother hj'] at hj
        exact (honly hi hj' hj).elim
    · by_cases hj' : j = id
      · rw [hj', hself] at hj
        rw [hother hi'] at hi
        exact (honly hj hi' hi).elim
      · rw [hother hi'] at hi
        rw [hother hj'] at hj
        exact h.alone player i j hi hj

/-- Redis moves on, the shards keep whom they keep. -/
theorem Settled.of_redis {s s' : Fleet R A} (h : s.Settled)
    (hkeeps : ∀ player id, Keeps player (s'.shards id) → Keeps player (s.shards id))
    (htask : ∀ id, (s'.shards id).task = (s.shards id).task)
    (hnamed : ∀ player id, Keeps player (s.shards id) → s.redis.shardOf player = some id →
      s'.redis.shardOf player = some id ∨ HandsOver player (s.shards id)) : s'.Settled := by
  refine ⟨fun player id hid => ?_, fun player i j hi hj =>
    h.alone player i j (hkeeps player i hi) (hkeeps player j hj)⟩
  have hhands : HandsOver player (s'.shards id) ↔ HandsOver player (s.shards id) := by
    simp only [HandsOver, htask]
  rw [hhands]
  rcases h.named player id (hkeeps player id hid) with hold | hhands
  · exact hnamed player id (hkeeps player id hid) hold
  · exact Or.inr hhands

theorem keeps_launch {b : Behaviour (WorldServer R A) Task RedisCommand RedisReply}
    {progress : WorldServer.Progress R A} {player : Bytes}
    (h : Keeps player (Process.launch b progress)) : progress.1.Resident player := by
  rcases h with h | ⟨credential, admittedMs, record, -, -, hread, -⟩
  · exact h
  · cases hread

/-- What a command of a shard may do to records: write that of a resident player, or move
that of the one it is handing over. -/
def Writes (w : WorldServer R A) (task : Task) : RedisCommand → Prop
  | .setPresence player shard _ _ _ => w.Resident player ∧ shard = w.config.shardId
  | .transfer player _ _ _ _ _ => ∃ client plan stamped sentMs rest expired,
    task = .handoff client plan stamped sentMs rest expired ∧ stamped.playerId = player
  | .claim _ _ _ _ _ _ => False
  | .delPresence _ => False
  | _ => True

theorem writes_setPresence {w : WorldServer R A} (task : Task) {record : PresenceRecord}
    (h : w.Hosts record) {ttl now : Nat} {c : RedisCommand}
    (hc : c ∈ setPresenceCommands record ttl now) : Writes w task c := by
  obtain ⟨client, entry, hentry, hstays, rfl⟩ := h
  simp only [setPresenceCommands, List.mem_cons, List.not_mem_nil, or_false] at hc
  rcases hc with rfl | rfl | rfl | rfl
  · exact ⟨⟨client, entry, hentry, rfl, hstays⟩, rfl⟩
  · trivial
  · trivial
  · trivial

theorem commands_writes {w : WorldServer R A} {task : Task} (hawaits : w.Awaits task)
    {c : RedisCommand} (hc : c ∈ w.commands task) : Writes w task c := by
  cases task with
  | admitSession credential admittedMs =>
    cases List.mem_singleton.mp hc
    trivial
  | admitTicket credential admittedMs =>
    cases List.mem_singleton.mp hc
    trivial
  | touch record sentMs => exact writes_setPresence _ hawaits hc
  | handoff client plan stamped sentMs rest expired =>
    simp only [WorldServer.commands, MigrationStore.publishCommands, List.mem_cons,
      List.not_mem_nil, or_false] at hc
    rcases hc with rfl | rfl
    · trivial
    · exact ⟨client, plan, stamped, sentMs, rest, expired, rfl, rfl⟩
  | discard token rest expired =>
    cases List.mem_singleton.mp hc
    trivial
  | heartbeat records heartbeatMs =>
    obtain ⟨record, hmem, hc⟩ := List.mem_flatMap.mp hc
    exact writes_setPresence _ (hawaits record hmem) hc

/-- A shard that waits for anything but a record writes only what it keeps. -/
theorem Settled.execute {s : Fleet R A} (hsound : ∀ id, Sound id (s.shards id)) (h : s.Settled)
    {id : Bytes} {task : Task} {c : RedisCommand} (htask : (s.shards id).task = some task)
    (hnext : (s.shards id).flight.next = some c) (hok : s.InOrder (.shardExec id)) :
    ({ s.setShard id ((s.shards id).replied (s.redis.exec c).2) with
        redis := (s.redis.exec c).1 } : Fleet R A).Settled := by
  have hmem : c ∈ (s.shards id).state.commands task := by
    rw [← (hsound id).sent task htask]
    exact List.mem_of_getElem? hnext
  by_cases hadmit : ∃ credential admittedMs, task = .admitSession credential admittedMs
  · obtain ⟨credential, admittedMs, rfl⟩ := hadmit
    cases List.mem_singleton.mp hmem
    refine h.move fun player hplayer => ?_
    rcases hplayer with hresident | ⟨credential', admittedMs', record, htask', rfl, hread, htoken, hid⟩
    · have hkept : Keeps player (s.shards id) := Or.inl hresident
      refine Or.inr ⟨hkept, (h.named player id hkept).imp_right ?_⟩
      rintro ⟨_, _, _, _, _, _, hhands, -⟩
      cases htask.symm.trans hhands
    · cases htask.symm.trans htask'
      -- the only reply is the record just read
      have hnone : (s.shards id).flight.replies = [] := by
        have hlt := (List.getElem?_eq_some_iff.mp hnext).1
        rw [(hsound id).sent _ htask, WorldServer.commands, List.length_singleton] at hlt
        exact List.length_eq_zero_iff.mp (Nat.lt_one_iff.mp hlt)
      rw [Process.replied_replies, hnone] at hread
      simp only [Redis.exec, List.nil_append, readPresence] at hread
      split at hread
      · rename_i hash rest hreply
        cases hread
        have hlookup : s.redis.presence.lookup credential.playerId = some hash := by
          injection (List.cons.inj (Option.some.inj hreply)).1
        refine Or.inl (hok credential admittedMs hash htask hlookup ?_ htoken)
        exact hid.trans (hsound id).named.1
      · cases hread
  · have hwrites := commands_writes ((hsound id).awaits task htask) hmem
    have hstate := s.setShard_state ((s.shards id).replied_state (s.redis.exec c).2)
    have htasks := s.setShard_task ((s.shards id).replied_task (s.redis.exec c).2)
    refine h.of_redis (fun player j hj => ?_) htasks fun player j hj hnamed => ?_
    · rcases hj with hresident | ⟨credential, admittedMs, record, hj, hrest⟩
      · exact Or.inl (hstate j ▸ hresident)
      · have htask' := (htasks j).symm.trans hj
        have hne : j ≠ id := by
          rintro rfl
          exact hadmit ⟨credential, admittedMs, Option.some.inj (htask.symm.trans htask')⟩
        dsimp only at hrest
        rw [setShard_shards, if_neg hne] at hrest
        exact Or.inr ⟨credential, admittedMs, record, htask', hrest⟩
    · rcases s.redis.presence_exec c player with
        hsame | ⟨shard, region, session, updated, rfl, hset⟩ |
        ⟨fromShard, toShard, region, updated, ttl, rfl, -, -⟩ |
        ⟨shard, region, session, updated, ttl, rfl, -, -⟩ | ⟨rfl, -⟩
      · refine Or.inl ?_
        rw [Redis.shardOf, hsame]
        exact hnamed
      · -- a touch or a heartbeat of a resident player finds the shard's own record
        obtain ⟨hresident, rfl⟩ := hwrites
        rw [h.alone player j id hj (Or.inl hresident)]
        refine Or.inl ?_
        rw [Redis.shardOf, hset, (hsound id).named.1]
        rfl
      · obtain ⟨client, plan, stamped, sentMs, rest, expired, rfl, rfl⟩ := hwrites
        have hhanding : (s.shards id).state.Handing client plan stamped :=
          (hsound id).awaits _ htask
        obtain ⟨entry, hentry, hstays, hid⟩ := hhanding.resident
        rw [h.alone _ j id hj (Or.inl ⟨client, entry, hentry, hid, hstays⟩)]
        exact Or.inr ⟨client, plan, stamped, sentMs, rest, expired, htask, rfl⟩
      · exact hwrites.elim
      · exact hwrites.elim

theorem Fresh.settled {s : Fleet R A} (h : s.Fresh) : s.Settled := by
  have hkeeps : ∀ player id, ¬ Keeps player (s.shards id) := by
    rintro player id (⟨client, entry, hentry, -⟩ | ⟨_, _, _, htask, -⟩)
    · rw [(h.empty id).1] at hentry
      cases hentry
    · cases (h.idle id).symm.trans htask
  exact ⟨fun player id hid => absurd hid (hkeeps player id),
    fun player i _ hi => absurd hi (hkeeps player i)⟩

section
variable [LT R] (env : ShardEnv R A)

/-- A handler that has its answer keeps whom it kept, but for the one it has handed over. -/
theorem Settled.resume {s : Fleet R A} (hsound : ∀ id, Sound id (s.shards id)) (h : s.Settled)
    {id : Bytes} {task : Task} (htask : (s.shards id).task = some task) (now : Nat)
    {replies : Option (List RedisReply)} (hanswer : Answered (s.shards id).flight replies)
    (hok : s.TakenInOrder id replies task) :
    (s.setShard id (Process.launch (shardBehaviour env)
      ((s.shards id).state.resume env now replies task))).Settled := by
  have hawaits := (hsound id).awaits task htask
  have houtcome := WorldServer.outcome_resume env (hsound id).tidy
    ((hsound id).advertises task htask) now replies hawaits
  have hhears := (s.shards id).state.hears_heard replies task
  refine h.move fun player hplayer => ?_
  rcases houtcome.resident (keeps_launch hplayer) with
    hresident | ⟨credential, ticket, ⟨hcredential, hadmits⟩, rfl⟩
  · have hkept : Keeps player (s.shards id) := Or.inl (hhears.resident hresident)
    refine Or.inr ⟨hkept, Or.inl ?_⟩
    rcases h.named player id hkept with hnamed | ⟨client, plan, stamped, _, _, _, hhands, rfl⟩
    · exact hnamed
    · cases htask.symm.trans hhands
      rw [TakenInOrder] at hok
      rw [WorldServer.heard] at hresident
      split at hok
      · rw [if_pos ‹_›] at hresident
        exact absurd hresident (WorldServer.not_resident_redirect (hsound id).tidy hawaits hok)
      · exact hok
  · rcases hadmits with ⟨hkind, -, record, hread, htoken, hshard⟩ | ⟨hkind, ticket, -, hheard, hsame⟩
    · cases task with
      | admitSession offered admittedMs =>
        cases hcredential
        cases hanswer with
        | givenUp => cases hread
        | replied =>
          have hkept : Keeps credential.playerId (s.shards id) :=
            Or.inr ⟨credential, admittedMs, record, htask, rfl, hread, htoken, hshard⟩
          refine Or.inr ⟨hkept, Or.inl ?_⟩
          rcases h.named _ id hkept with hnamed | ⟨_, _, _, _, _, _, hhands, -⟩
          · exact hnamed
          · cases htask.symm.trans hhands
      | admitTicket offered admittedMs =>
        cases hcredential
        cases hkind.symm.trans hawaits
      | touch => cases hcredential
      | handoff => cases hcredential
      | discard => cases hcredential
      | heartbeat => cases hcredential
    · cases task with
      | admitTicket offered admittedMs =>
        cases hcredential
        exact Or.inl (hok ticket hheard hsame)
      | admitSession offered admittedMs =>
        cases hcredential
        cases hkind.symm.trans hawaits
      | touch => cases hcredential
      | handoff => cases hcredential
      | discard => cases hcredential
      | heartbeat => cases hcredential

end

variable [LT R] [Add R] [Mul R] [Neg R] [DecidableLT R] [OfScientific R] (env : ShardEnv R A)

theorem settled_step {s : Fleet R A} (hsound : ∀ id, Sound id (s.shards id)) (hsent : s.MatchSent)
    (hadvertise : ∀ id, (s.shards id).state.config.advertise = true) (h : s.Settled)
    {a : FleetAction A} (hok : s.InOrder a) : (s.step env a).Settled := by
  have hstep := s.step_spec env a
  generalize s.step env a = s' at hstep
  cases hstep with
  | stay => exact h
  | @handled id action progress hidle hhandle =>
    refine h.move fun player hplayer => ?_
    have houtcome := outcome_handle env (hsound id).tidy hhandle
    rcases houtcome.resident (keeps_launch hplayer) with
      hresident | ⟨credential, ticket, ⟨hoffers, hadmits⟩, rfl⟩
    · refine Or.inr ⟨Or.inl hresident, Or.inl ?_⟩
      rcases h.named player id (Or.inl hresident) with hnamed | ⟨_, _, _, _, _, _, hhands, -⟩
      · exact hnamed
      · cases hidle.symm.trans hhands
    · rcases hadmits with ⟨hkind, cached, -, hcached, hsame⟩ | ⟨-, -, hlone⟩
      · exact Or.inl (hok hidle credential cached hoffers hkind hcached hsame)
      · cases hlone.symm.trans (hadvertise id)
  | executed htask hnext => exact h.execute hsound htask hnext hok
  | @resent id task now htask =>
    refine h.of_redis (fun player j hj => ?_) (s.setShard_task rfl) fun _ _ _ => Or.inl
    rw [setShard_shards] at hj
    split at hj
    · rcases hj with hresident | ⟨_, _, _, -, -, hread, -⟩
      · rw [‹j = id›]
        exact Or.inl hresident
      · cases hread
    · exact hj
  | @resumed id task _ now replies htask ha hanswer =>
    refine h.resume env hsound htask now hanswer ?_
    rcases ha with ⟨rfl, rfl⟩ | ⟨rfl, rfl⟩
    · cases hanswer with
      | givenUp hresent => exact hok hresent task htask
    · exact hok task htask
  | matchStarted => exact h.of_redis (fun _ _ => id) (fun _ => rfl) fun _ _ _ => Or.inl
  | @matchExecuted m task c htask hnext hexec =>
    have hmem : c ∈ (s.matchmakers m).state.commands task := by
      rw [← hsent m task htask]
      exact List.mem_of_getElem? hnext
    have hkind := Matchmaker.commands_ofShards hmem
    rw [InOrder, hexec] at hok
    refine h.of_redis (fun _ _ => id) (fun _ => rfl) fun player id hid hnamed => Or.inl ?_
    rcases s.redis.presence_exec c player with
      hsame | ⟨shard, region, session, updated, rfl, hset⟩ |
      ⟨fromShard, toShard, region, updated, ttl, rfl, -, -⟩ |
      ⟨shard, region, session, updated, ttl, rfl, hfree, hset⟩ | ⟨rfl, -⟩
    · rw [Redis.shardOf, hsame]
      exact hnamed
    · rw [Redis.shardOf, hset, hok id hnamed]
      rfl
    · cases hkind
    · rw [Redis.shardOf, hset, hfree id hnamed]
      rfl
    · exact absurd hid (hok id)
  | matchResent => exact h.of_redis (fun _ _ => id) (fun _ => rfl) fun _ _ _ => Or.inl
  | matchResumed => exact h.of_redis (fun _ _ => id) (fun _ => rfl) fun _ _ _ => Or.inl
  | presenceExpired player =>
    refine h.of_redis (fun _ _ => id) (fun _ => rfl) fun other id hid hnamed => Or.inl ?_
    rw [Redis.shardOf, Table.lookup_erase, if_neg]
    · exact hnamed
    · rintro rfl
      exact hok id hid
  | ticketExpired => exact h.of_redis (fun _ _ => id) (fun _ => rfl) fun _ _ _ => Or.inl

/-- In every run of advertising shards and matchmakers whose steps are all in order, no
player is resident on two shards at any time. -/
theorem single_residency {s : Fleet R A} (hfresh : s.Fresh)
    (hadvertise : ∀ id, (s.shards id).state.config.advertise = true)
    {actions : List (FleetAction A)} (hok : Run.Along (step env) InOrder s actions) :
    ∀ player i j, ((Run.run (step env) s actions).shards i).state.Resident player →
      ((Run.run (step env) s actions).shards j).state.Resident player → i = j := by
  have hrun := Run.invariant
    (fun s : Fleet R A => (∀ id, Sound id (s.shards id)) ∧ s.MatchSent ∧
      (∀ id, (s.shards id).state.config.advertise = true) ∧ s.Settled)
    (fun s a hok h => ⟨sound_step env h.1 a, matchSent_step env h.2.1 a,
      fun id => by rw [config_step env h.1]; exact h.2.2.1 id,
      settled_step env h.1 h.2.1 h.2.2.1 h.2.2.2 hok⟩)
    ⟨hfresh.sound, hfresh.matchSent, hadvertise, hfresh.settled⟩ hok
  exact fun player i j hi hj => hrun.2.2.2.alone player i j (Or.inl hi) (Or.inl hj)

theorem resident_of_entry {w : WorldServer ℚ Unit}
    (h : (w.players.lookup 1).map (fun entry => (entry.playerId, entry.redirecting)) =
      some ([112], false)) : w.Resident [112] := by
  obtain ⟨entry, hentry, heq⟩ := Option.map_eq_some_iff.mp h
  exact ⟨1, entry, hentry, congrArg Prod.fst heq, congrArg Prod.snd heq⟩

/-- Shard "a" hands "p" over to "b", where the matchmaker finds it and writes its record
back. Another player, "q", is assigned and its record deleted again. -/
def visit : List (FleetAction Unit) :=
  arrival ++ departure ++ landing ++
    [.assign 0 [112] twoMembers, .matchExec 0, .matchAnswer 0 0, .matchExec 0, .matchExec 0,
      .matchExec 0, .matchExec 0, .matchAnswer 0 0, .assign 0 [113] twoMembers, .matchExec 0,
      .matchAnswer 0 0, .matchExec 0, .matchAnswer 0 0, .release 0 [113], .matchExec 0,
      .matchAnswer 0 0, .matchExec 0, .matchExec 0, .matchAnswer 0 0]

def handsNobody (p : ShardProcess ℚ Unit) : Bool :=
  match p.task with
  | some (.handoff _ _ _ _ _ _) => false
  | _ => true

def keepsNobody (p : ShardProcess ℚ Unit) (player : Bytes) : Bool :=
  decide (∀ client ∈ p.state.players.keys, (p.state.players.lookup client).all fun entry =>
    entry.playerId != player || entry.redirecting) &&
  match p.task with
  | some (.admitSession _ _) => false
  | _ => true

/-- `Free`, where only "a" and "b" ever wait for anything. -/
def freeFor (s : Fleet ℚ Unit) (player id : Bytes) : Bool :=
  s.redis.shardOf player == some id &&
    [[97], [98]].all fun j => j == id || handsNobody (s.shards j)

def orderly (s : Fleet ℚ Unit) : FleetAction Unit → Bool
  | .shard id action => action.offers.all fun credential =>
    credential.kind == .session ||
      ((s.shards id).state.redeemedTickets.lookup credential.token).isNone
  | .shardExec id =>
    match (s.shards id).task with
    | some (.admitSession credential _) => s.freeFor credential.playerId id
    | _ => true
  | .shardAnswer id _ =>
    match (s.shards id).task with
    | some (.handoff _ plan _ _ _ _) =>
      MigrationStore.judge (some (s.shards id).flight.replies) == .published &&
        encodeMigrateRedirect
          { ticket := plan.token, region := plan.targetRegion, endpoint := plan.targetEndpoint
            shardId := plan.targetShard } kMaxReliableMessageSize != []
    | some (.admitTicket credential _) => s.freeFor credential.playerId id
    | _ => true
  | .matchExec m =>
    match s.executes (.matchExec m) with
    | some (.setPresence player shard _ _ _) => (s.redis.shardOf player).all (· == shard)
    | some (.delPresence player) => [[97], [98]].all fun j => keepsNobody (s.shards j) player
    | _ => true
  | .shardLose _ _ => false
  | .expirePresence _ => false
  | _ => true

/-- Only shards "a" and "b" have done anything. -/
def OnlyTwo (s : Fleet ℚ Unit) : Prop :=
  ∀ j, j ≠ [97] → j ≠ [98] → s.shards j = quiet.shards j

theorem onlyTwo_cases {s : Fleet ℚ Unit} (h : s.OnlyTwo) (j : Bytes) :
    j ∈ [[97], [98]] ∨ s.shards j = quiet.shards j := by
  by_cases ha : j = [97]
  · exact Or.inl (by simp [ha])
  · by_cases hb : j = [98]
    · exact Or.inl (by simp [hb])
    · exact Or.inr (h j ha hb)

theorem free_of_freeFor {s : Fleet ℚ Unit} (h : s.OnlyTwo) {player id : Bytes}
    (hfree : s.freeFor player id = true) : s.Free player id := by
  rw [freeFor, Bool.and_eq_true, beq_iff_eq, List.all_eq_true] at hfree
  refine ⟨hfree.1, ?_⟩
  rintro j hne ⟨_, _, _, _, _, _, htask, -⟩
  rcases onlyTwo_cases h j with hj | hj
  · rcases (Bool.or_eq_true _ _).mp (hfree.2 j hj) with heq | hhands
    · exact hne (beq_iff_eq.mp heq)
    · rw [handsNobody, htask] at hhands
      cases hhands
  · rw [hj] at htask
    cases htask

theorem not_keeps_of_keepsNobody {s : Fleet ℚ Unit} (h : s.OnlyTwo) {player : Bytes}
    (hnobody : ([[97], [98]].all fun j => keepsNobody (s.shards j) player) = true) (id : Bytes) :
    ¬ Keeps player (s.shards id) := by
  rcases onlyTwo_cases h id with hid | hid
  · have hid' := List.all_eq_true.mp hnobody id hid
    rw [keepsNobody, Bool.and_eq_true] at hid'
    obtain ⟨hplayers, htask⟩ := hid'
    rintro (⟨client, entry, hentry, heq, hstays⟩ | ⟨_, _, _, hadmits, -⟩)
    · have hentry' := of_decide_eq_true hplayers client (Table.mem_keys_iff.mpr ⟨entry, hentry⟩)
      rw [hentry] at hentry'
      simp [heq, hstays] at hentry'
    · rw [hadmits] at htask
      cases htask
  · rw [hid]
    rintro (⟨client, entry, hentry, -⟩ | ⟨_, _, _, hadmits, -⟩)
    · cases hentry
    · cases hadmits

theorem inOrder_of_orderly {s : Fleet ℚ Unit} (h : s.OnlyTwo) {a : FleetAction Unit}
    (horderly : s.orderly a = true) : s.InOrder a := by
  cases a with
  | shard id action =>
    intro _ credential ticket hoffers hkind hcached _
    simp only [orderly, hoffers, Option.all_some, hkind, hcached] at horderly
    cases horderly
  | shardExec id =>
    intro credential admittedMs hash htask _ _ _
    simp only [orderly, htask] at horderly
    exact free_of_freeFor h horderly
  | shardAnswer id now =>
    intro task htask
    rw [orderly, htask] at horderly
    cases task with
    | handoff client plan stamped sentMs rest expired =>
      rw [Bool.and_eq_true, beq_iff_eq, bne_iff_ne] at horderly
      rw [TakenInOrder, if_pos horderly.1]
      exact horderly.2
    | admitTicket credential admittedMs => exact fun _ _ _ => free_of_freeFor h horderly
    | _ => trivial
  | matchExec m =>
    rw [InOrder]
    simp only [orderly] at horderly
    split
    · rename_i player shard _ _ _ hexec
      intro named hnamed
      rw [hexec] at horderly
      simp only [hnamed, Option.all_some] at horderly
      exact beq_iff_eq.mp horderly
    · rename_i player hexec
      rw [hexec] at horderly
      exact not_keeps_of_keepsNobody h horderly
    · trivial
  | shardLose id now => cases horderly
  | expirePresence player => cases horderly
  | _ => trivial

/-- The visit is in order, and leaves "p" on "b". -/
theorem single_residency_visit :
    ((Run.run (step .eastward) quiet visit).shards [98]).state.Resident [112] ∧
    ∀ player i j, ((Run.run (step .eastward) quiet visit).shards i).state.Resident player →
      ((Run.run (step .eastward) quiet visit).shards j).state.Resident player → i = j := by
  refine ⟨resident_of_entry (by decide +kernel), ?_⟩
  refine single_residency .eastward fresh_quiet (fun _ => rfl) ?_
  have horderly : Run.Along (step .eastward) (fun (s : Fleet ℚ Unit) a =>
      ((shardId a).all fun id => id == [97] || id == [98]) = true ∧ s.orderly a = true)
      quiet visit := by
    decide +kernel
  refine Run.along_of_invariant OnlyTwo (fun s a ha h => ⟨fun j hja hjb => ?_,
    inOrder_of_orderly h ha.2⟩) (fun _ _ _ => rfl) horderly
  rw [s.step_untouched .eastward]
  · exact h j hja hjb
  · intro hid
    have hlocal := ha.1
    simp [hid, hja, hjb] at hlocal

/-- The two replies of a handoff are lost after Redis has executed it: shard "a" goes on
with player "p", the matchmaker sends the player to "b", and "b" lets it in. -/
def estranged : List (FleetAction Unit) :=
  arrival ++
    [.shard [97] (.tick 0 [1] [1]), .shardExec [97], .shardExec [97], .shardLose [97] 0,
      .shardExec [97], .shardExec [97], .shardAnswer [97] 0,
      .assign 0 [112] twoMembers, .matchExec 0, .matchAnswer 0 0, .matchExec 0, .matchExec 0,
      .matchExec 0, .matchExec 0, .matchAnswer 0 0,
      .shard [98] (.connect (some { token := 5, playerId := [112] }) 0), .shardExec [98],
      .shardAnswer [98] 0]

theorem resident_twice :
    ((Run.run (step .eastward) quiet estranged).shards [97]).state.Resident [112] ∧
      ((Run.run (step .eastward) quiet estranged).shards [98]).state.Resident [112] := by
  refine ⟨resident_of_entry ?_, resident_of_entry ?_⟩
  · decide +kernel
  · decide +kernel

end Fleet
end Morton.App
