import Morton.Cluster.Discovery
import Morton.Cluster.Migration
import Morton.Cluster.RegistryCalls
import Morton.Cluster.ScriptTasks

/-! How the commands of the cluster's processes are spelt, and which tasks the operations of the
registry and of the ticket store perform. -/
namespace Morton.Cluster
open Proto Text RespReply

/-- How the commands on presence, rosters and tickets are spelt. The time that a command writes
is that of another reading of the clock. -/
inductive RedisCommand.Sends (r : ClusterRegistry) : RedisCommand → List Bytes → Prop
  | setTicket (token : Nat) (blob : Bytes) (ttl : Nat) :
    Sends r (.setTicket token blob ttl)
      [ascii "SET", r.ticketKey token, blob, ascii "PX", decimal ttl, ascii "NX"]
  | getDelTicket (token : Nat) : Sends r (.getDelTicket token) [ascii "GETDEL", r.ticketKey token]
  | delTicket (token : Nat) : Sends r (.delTicket token) [ascii "DEL", r.ticketKey token]
  | transfer (player fromShard toShard : Bytes) (region updated ttl now : Nat) :
    Sends r (.transfer player fromShard toShard region updated ttl)
      (r.transferArgs player fromShard toShard region ttl now)
  | claim (record : PresenceRecord) (updated ttl now : Nat) :
    Sends r (.claim record.playerId record.shardId record.region record.sessionToken updated ttl)
      [ascii "EVAL", kClaimScript, ascii "2", r.presenceKey record.playerId,
        r.rosterKey record.shardId, record.shardId, decimal record.region,
        decimal record.sessionToken, decimal now, decimal ttl, record.playerId]
  | setPresence (record : PresenceRecord) (updated now : Nat) :
    Sends r (.setPresence record.playerId record.shardId record.region record.sessionToken updated)
      [ascii "HSET", r.presenceKey record.playerId, ascii "shard", record.shardId, ascii "region",
        decimal record.region, ascii "session", decimal record.sessionToken, ascii "updated",
        decimal now]
  | expirePresence (player : Bytes) (ttl : Nat) :
    Sends r (.expirePresence player ttl) [ascii "PEXPIRE", r.presenceKey player, decimal ttl]
  | getPresence (player : Bytes) :
    Sends r (.getPresence player) [ascii "HGETALL", r.presenceKey player]
  | delPresence (player : Bytes) : Sends r (.delPresence player) [ascii "DEL", r.presenceKey player]
  | addRoster (shard player : Bytes) :
    Sends r (.addRoster shard player) [ascii "SADD", r.rosterKey shard, player]
  | remRoster (shard player : Bytes) :
    Sends r (.remRoster shard player) [ascii "SREM", r.rosterKey shard, player]
  | expireRoster (shard : Bytes) (ttl : Nat) :
    Sends r (.expireRoster shard ttl) [ascii "PEXPIRE", r.rosterKey shard, decimal ttl]

/-- The fields and values of a presence hash, in any order. -/
structure PresenceHash.SpeltAs (hash : PresenceHash) (elements : List RespReply) : Prop where
  some_field : elements ≠ []
  shard : field elements (ascii "shard") = hash.shard
  region : field elements (ascii "region") = decimal hash.region
  session : field elements (ascii "session") = hash.session.elim [] decimal
  updated : field elements (ascii "updated") = decimal hash.updated
  region_lt : hash.region < 2 ^ 32
  session_lt : ∀ token ∈ hash.session, token < 2 ^ 64
  updated_lt : hash.updated < 2 ^ 64

inductive RedisReply.Shows : RedisReply → RespReply → Prop
  | nil : Shows .nil .nil
  | ok : Shows .ok (.status (ascii "OK"))
  | integer (value : Nat) : Shows (.integer value) (.integer value)
  | string (value : Bytes) : Shows (.string value) (.string value)
  | missing : Shows (.hash none) (.array [])
  | hash {hash : PresenceHash} {elements : List RespReply} :
    hash.SpeltAs elements → Shows (.hash (some hash)) (.array elements)

/-- The wire to the part of Redis that processes share. -/
def redisWire (r : ClusterRegistry) : Wire Redis RedisCommand RedisReply :=
  { exec := Redis.exec, sends := RedisCommand.Sends r, shows := RedisReply.Shows }

/-- The kinds of replies a command gets. -/
def RedisCommand.Expects : RedisCommand → RedisReply → Prop
  | .setTicket _ _ _, reply => reply = .nil ∨ reply = .ok
  | .getDelTicket _, reply => reply = .nil ∨ ∃ blob, reply = .string blob
  | .claim _ _ _ _ _ _, reply => reply = .integer 1 ∨ ∃ owner, reply = .string owner
  | .getPresence _, reply => ∃ hash, reply = .hash hash
  | _, reply => ∃ value, reply = .integer value

theorem Redis.exec_expects (r : Redis) (c : RedisCommand) : c.Expects (r.exec c).2 := by
  cases c with
  | setTicket token blob ttl =>
    cases hheld : r.tickets.lookup token with
    | none => exact Or.inr (by simp only [Redis.exec, hheld])
    | some held => exact Or.inl (by simp only [Redis.exec, hheld])
  | getDelTicket token =>
    cases hheld : r.tickets.lookup token with
    | none => exact Or.inl (by simp only [Redis.exec, hheld])
    | some blob => exact Or.inr ⟨blob, by simp only [Redis.exec, hheld]⟩
  | delTicket token => exact ⟨_, rfl⟩
  | transfer player fromShard toShard region updated ttl =>
    show ∃ value, (r.transfer player fromShard toShard region updated).2 = .integer value
    unfold Redis.transfer
    split
    · exact ⟨0, rfl⟩
    · exact ⟨1, rfl⟩
  | claim player shard region session updated ttl =>
    show (r.claim player shard region session updated).2 = .integer 1 ∨
      ∃ owner, (r.claim player shard region session updated).2 = .string owner
    unfold Redis.claim
    split
    · split
      · exact Or.inr ⟨_, rfl⟩
      · exact Or.inl rfl
    · exact Or.inl rfl
  | setPresence player shard region session updated => exact ⟨_, rfl⟩
  | expirePresence player ttl => exact ⟨_, rfl⟩
  | getPresence player => exact ⟨_, rfl⟩
  | delPresence player => exact ⟨_, rfl⟩
  | addRoster shard player => exact ⟨_, rfl⟩
  | remRoster shard player => exact ⟨_, rfl⟩
  | expireRoster shard ttl => exact ⟨_, rfl⟩

theorem redisWire_answers {r : ClusterRegistry} {c : RedisCommand} {reply : RedisReply}
    (h : (redisWire r).Answers c reply) : c.Expects reply := by
  obtain ⟨server, rfl⟩ := h
  exact server.exec_expects c

theorem fieldU64_decimal {elements : List RespReply} {name : Bytes} {n : Nat}
    (h : field elements name = decimal n) (hn : n < 2 ^ 64) : fieldU64 elements name = n := by
  rw [fieldU64, h, if_neg (decimal_ne_nil n), strtoull_decimal hn]

theorem PresenceHash.SpeltAs.session_eq {hash : PresenceHash} {elements : List RespReply}
    (h : hash.SpeltAs elements) : fieldU64 elements (ascii "session") = hash.session.getD 0 := by
  have hspelt := h.session
  cases hsession : hash.session with
  | none =>
    rw [hsession] at hspelt
    rw [fieldU64, hspelt]
    rfl
  | some token =>
    rw [hsession] at hspelt
    exact fieldU64_decimal hspelt (h.session_lt token hsession)

namespace ClusterRegistry
open RedisScript
variable {r : ClusterRegistry} {σ τ α : Type} {b : Behaviour σ τ RedisCommand RedisReply}
  {outcome : Outcome σ τ} {s : σ} {task : τ}

/-- Looking through the replies changes nothing. -/
theorem performs_noErrors {ς κ ρ : Type} {wire : Wire ς κ ρ} {b : Behaviour σ τ κ ρ}
    {post : Outcome σ τ → List (List Bytes) → Bool → Prop} {queued : List (List Bytes)}
    (h : ∀ ok, post outcome queued ok) (commands : List (List Bytes)) (replies : List RespReply) :
    Performs wire b post outcome queued (noErrors commands replies) := by
  induction commands generalizing replies with
  | nil => exact h true
  | cons args commands ih =>
    cases replies with
    | nil => exact h true
    | cons reply replies =>
      show Performs wire b post outcome queued
        (if reply.isError then pure false else noErrors commands replies)
      split
      · exact h false
      · exact ih replies

/-- Replies of which none is an error are looked through to the end. -/
theorem performs_noErrors_heard {ς κ ρ : Type} {wire : Wire ς κ ρ} {b : Behaviour σ τ κ ρ}
    {post : Outcome σ τ → List (List Bytes) → Bool → Prop} {queued : List (List Bytes)}
    (h : post outcome queued true) (commands : List (List Bytes)) {replies : List RespReply}
    (hheard : ∀ reply ∈ replies, reply.isError = false) :
    Performs wire b post outcome queued (noErrors commands replies) := by
  induction commands generalizing replies with
  | nil => exact h
  | cons args commands ih =>
    cases replies with
    | nil => exact h
    | cons reply replies =>
      show Performs wire b post outcome queued
        (if reply.isError then pure false else noErrors commands replies)
      rw [hheard reply List.mem_cons_self, if_neg Bool.false_ne_true]
      exact ih fun other hother => hheard other (List.mem_cons_of_mem _ hother)

theorem getPresence_performs {player : Bytes}
    {post : Outcome σ τ → List (List Bytes) → Option PresenceRecord → Prop}
    (hcommands : b.commands s task = [.getPresence player])
    (hnext : ∀ replies, post (fun now => b.resume s now replies task) []
      (readPresence player replies)) :
    Performs (redisWire r) b post (fun _ => (s, some task)) [] (r.getPresence player) := by
  unfold getPresence
  rw [performs_bind]
  refine performs_command hcommands (RedisCommand.Sends.getPresence player) ?_
    fun error => hnext none
  intro reply shown hanswers hshows
  obtain ⟨hash, rfl⟩ := redisWire_answers hanswers
  have hpost := hnext (some [.hash hash])
  cases hshows with
  | missing => exact hpost
  | @hash hash elements hspelt =>
    have hany : (array elements).elements.isEmpty = false := by
      simpa [RespReply.elements] using hspelt.some_field
    rw [hany, if_neg Bool.false_ne_true]
    simp only [RespReply.elements]
    rw [hspelt.shard, fieldU64_decimal hspelt.region (hspelt.region_lt.trans (by decide)),
      hspelt.session_eq, fieldU64_decimal hspelt.updated hspelt.updated_lt,
      Nat.mod_eq_of_lt hspelt.region_lt]
    exact hpost

/-- A claim that got no answer has lost against nobody. -/
theorem claimPresence_performs {record : PresenceRecord} {ttl : Nat}
    {post : Outcome σ τ → List (List Bytes) → ClaimOutcome → Prop}
    (h : ∀ now, ∃ s task updated, outcome now = (s, some task) ∧
      b.commands s task = [.claim record.playerId record.shardId record.region
        record.sessionToken updated ttl] ∧
      ∀ replies, post (fun now => b.resume s now replies task) [] (readClaim replies)) :
    Performs (redisWire r) b post outcome [] (r.claimPresence record ttl) := by
  apply performs_wallMs
  intro now
  obtain ⟨s, task, updated, houtcome, hcommands, hnext⟩ := h now
  rw [houtcome, performs_bind]
  refine performs_command hcommands (RedisCommand.Sends.claim record updated ttl now) ?_
    fun error => hnext none
  intro reply shown hanswers hshows
  obtain rfl | ⟨owner, rfl⟩ := redisWire_answers hanswers
  · cases hshows
    exact hnext (some [.integer 1])
  · cases hshows
    exact hnext (some [.string owner])

theorem sends_setPresence (record : PresenceRecord) (ttl updated now : Nat) :
    List.Forall₂ (RedisCommand.Sends r) (setPresenceCommands record ttl updated)
      (r.setPresenceArgs record ttl now) :=
  .cons (.setPresence record updated now) <| .cons (.expirePresence record.playerId ttl) <|
    .cons (.addRoster record.shardId record.playerId) <|
      .cons (.expireRoster record.shardId ttl) .nil

/-- What was queued is flushed; nobody asks what became of it. -/
theorem flushPresence_performs {queued : List (List Bytes)}
    {post : Outcome σ τ → List (List Bytes) → Bool → Prop}
    (hsent : List.Forall₂ (RedisCommand.Sends r) (b.commands s task) queued)
    (hnext : ∀ replies done, post (fun now => b.resume s now replies task) [] done) :
    Performs (redisWire r) b post (fun _ => (s, some task)) queued (flushPresence queued) := by
  unfold flushPresence
  rw [performs_bind]
  refine performs_flush hsent (fun replies shown _ _ => ?_) fun error => hnext none false
  exact performs_noErrors (hnext (some replies)) queued shown

theorem setPresence_performs {record : PresenceRecord} {ttl : Nat}
    {post : Outcome σ τ → List (List Bytes) → Bool → Prop}
    (h : ∀ now, ∃ s task updated, outcome now = (s, some task) ∧
      b.commands s task = setPresenceCommands record ttl updated ∧
      ∀ replies done, post (fun now => b.resume s now replies task) [] done) :
    Performs (redisWire r) b post outcome [] (r.setPresence record ttl) := by
  unfold setPresence queueSetPresence
  rw [performs_bind]
  apply performs_wallMs
  intro now
  obtain ⟨s, task, updated, houtcome, hcommands, hnext⟩ := h now
  have hsent := sends_setPresence (r := r) record ttl updated now
  rw [← hcommands] at hsent
  rw [houtcome, performs_queueAll, List.nil_append]
  exact flushPresence_performs hsent hnext

theorem queueTouches_performs {ttl updated : Nat} {records : List PresenceRecord}
    {queued : List (List Bytes)} {post : Outcome σ τ → List (List Bytes) → List (List Bytes) → Prop}
    (h : ∀ args, List.Forall₂ (RedisCommand.Sends r)
        (records.flatMap fun record => setPresenceCommands record ttl updated) args →
      post (fun _ => (s, some task)) (queued ++ args) args) :
    Performs (redisWire r) b post (fun _ => (s, some task)) queued (r.queueTouches ttl records) := by
  induction records generalizing queued post with
  | nil =>
    have hpost := h [] .nil
    rw [List.append_nil] at hpost
    exact hpost
  | cons record records ih =>
    unfold queueTouches queueSetPresence
    rw [performs_bind]
    apply performs_wallMs
    intro now
    rw [performs_queueAll]
    change Performs _ _ _ _ _ (r.queueTouches ttl records >>= _)
    rw [performs_bind]
    apply ih
    intro args hargs
    have hall := h _ (List.rel_append (sends_setPresence record ttl updated now) hargs)
    rw [← List.append_assoc] at hall
    exact hall

/-- The touches of a server go out in one pipeline. -/
theorem touchPlayers_performs {ttl updated : Nat} {records : List PresenceRecord}
    {post : Outcome σ τ → List (List Bytes) → Bool → Prop}
    (hcommands : b.commands s task =
      records.flatMap fun record => setPresenceCommands record ttl updated)
    (hnext : ∀ replies done, post (fun now => b.resume s now replies task) [] done) :
    Performs (redisWire r) b post (fun _ => (s, some task)) [] (r.touchPlayers records ttl) := by
  unfold touchPlayers
  rw [performs_bind]
  apply queueTouches_performs
  intro args hargs
  rw [← hcommands] at hargs
  exact flushPresence_performs hargs hnext

/-- The record is read, and what is to be deleted depends on it. -/
theorem clearPresence_performs {player : Bytes}
    {post : Outcome σ τ → List (List Bytes) → Bool → Prop}
    (hcommands : b.commands s task = [.getPresence player])
    (hnext : ∀ replies, ∃ s' task',
      (fun now => b.resume s now replies task) = (fun _ => (s', some task')) ∧
      b.commands s' task' = clearPresenceCommands player (readPresence player replies) ∧
      ∀ replies' done, post (fun now => b.resume s' now replies' task') [] done) :
    Performs (redisWire r) b post (fun _ => (s, some task)) [] (r.clearPresence player) := by
  unfold clearPresence
  rw [performs_bind]
  apply getPresence_performs hcommands
  intro replies
  obtain ⟨s', task', hresume, hcommands', hdone⟩ := hnext replies
  rw [hresume]
  generalize readPresence player replies = record at hcommands'
  dsimp only
  rw [performs_bind]
  refine performs_pipeline ?_ (fun replies' shown _ _ => hdone (some replies') true)
    fun error => hdone none false
  rw [hcommands']
  cases record with
  | none => exact .cons (.delPresence player) .nil
  | some record =>
    dsimp only [clearPresenceCommands]
    by_cases hshard : record.shardId = []
    · rw [if_pos hshard, if_neg (not_not_intro hshard)]
      exact .cons (.delPresence player) .nil
    · rw [if_neg hshard, if_pos hshard]
      exact .cons (.remRoster record.shardId player) (.cons (.delPresence player) .nil)

theorem redeem_performs {token : Nat}
    {post : Outcome σ τ → List (List Bytes) → Option MigrationTicket → Prop}
    (hcommands : b.commands s task = [.getDelTicket token])
    (hnext : ∀ replies, post (fun now => b.resume s now replies task) []
      (MigrationStore.readRedeem token replies)) :
    Performs (redisWire r) b post (fun _ => (s, some task)) [] (r.redeem token) := by
  unfold redeem
  rw [performs_bind]
  refine performs_command hcommands (RedisCommand.Sends.getDelTicket token) ?_
    fun error => hnext none
  intro reply shown hanswers hshows
  obtain rfl | ⟨blob, rfl⟩ := redisWire_answers hanswers
  · cases hshows
    exact hnext (some [.nil])
  · cases hshows
    exact hnext (some [.string blob])

theorem discard_performs {token : Nat} {post : Outcome σ τ → List (List Bytes) → Bool → Prop}
    (hcommands : b.commands s task = [.delTicket token])
    (hnext : ∀ replies done, post (fun now => b.resume s now replies task) [] done) :
    Performs (redisWire r) b post (fun _ => (s, some task)) [] (r.discard token) := by
  unfold discard
  rw [performs_bind]
  exact performs_command hcommands (RedisCommand.Sends.delTicket token)
    (fun reply shown _ _ => hnext (some [reply]) _) fun error => hnext none _

/-- A pipeline that publishes, and what follows from how its replies are judged. -/
structure Publishes (b : Behaviour σ τ RedisCommand RedisReply) (s : σ) (task : τ)
    (stamped : MigrationTicket) (ttl presenceTtl : Nat)
    (post : Outcome σ τ → List (List Bytes) → Bool → Prop) : Prop where
  commands : ∃ now, b.commands s task =
    MigrationStore.publishCommands stamped (encodeMigrationTicket stamped) ttl presenceTtl now
  published : ∀ replies, MigrationStore.judge replies = .published →
    post (fun now => b.resume s now replies task) [] true
  discard : ∀ replies, MigrationStore.judge replies = .discard → ∃ s' task',
    (fun now => b.resume s now replies task) = (fun _ => (s', some task')) ∧
      b.commands s' task' = [.delTicket stamped.token] ∧
      ∀ replies', post (fun now => b.resume s' now replies' task') [] false
  failed : ∀ replies, MigrationStore.judge replies = .failed →
    post (fun now => b.resume s now replies task) [] false

/-- A ticket that does not fit is not sent. -/
theorem publishAndTransfer_performs {ticket : MigrationTicket} {ttl presenceTtl : Nat}
    {post : Outcome σ τ → List (List Bytes) → Bool → Prop}
    (hlarge : ∀ now, encodeMigrationTicket (MigrationStore.stamp ticket now) = [] →
      post (fun _ => outcome now) [] false)
    (hfits : ∀ now, encodeMigrationTicket (MigrationStore.stamp ticket now) ≠ [] →
      ∃ s task, outcome now = (s, some task) ∧
        Publishes b s task (MigrationStore.stamp ticket now) ttl presenceTtl post) :
    Performs (redisWire r) b post outcome [] (r.publishAndTransfer ticket ttl presenceTtl) := by
  unfold publishAndTransfer
  apply performs_wallMs
  intro stampedAt
  have hfits := hfits stampedAt
  have hlarge := hlarge stampedAt
  generalize MigrationStore.stamp ticket stampedAt = stamped at hfits hlarge
  dsimp only
  by_cases hempty : encodeMigrationTicket stamped = []
  · rw [if_pos hempty]
    exact hlarge hempty
  · obtain ⟨s, task, houtcome, hpublishes⟩ := hfits hempty
    obtain ⟨updated, hcommands⟩ := hpublishes.commands
    rw [if_neg hempty]
    apply performs_wallMs
    intro now
    rw [houtcome, performs_bind]
    refine performs_pipeline ?_ (fun replies shown hreplies hshown => ?_) fun error => ?_
    · rw [hcommands]
      exact .cons (.setTicket _ _ _) (.cons (.transfer _ _ _ _ _ _ _) .nil)
    · rw [hcommands] at hreplies
      obtain _ | ⟨hset, _ | ⟨htransfer, _ | _⟩⟩ := hreplies
      obtain _ | ⟨hfirst, _ | ⟨hsecond, _ | _⟩⟩ := hshown
      obtain ⟨value, rfl⟩ := redisWire_answers htransfer
      cases hsecond
      obtain rfl | rfl := redisWire_answers hset
      · cases hfirst
        exact hpublishes.failed (some [.nil, .integer value]) rfl
      · cases hfirst
        by_cases hone : value = 1
        · subst hone
          exact hpublishes.published (some [.ok, .integer 1]) rfl
        · have hjudged : MigrationStore.judge (some [.ok, .integer value]) = .discard := by
            simp [MigrationStore.judge, hone]
          obtain ⟨s', task', hresume, hcommands', hdone⟩ := hpublishes.discard _ hjudged
          have hlost : (RespReply.integer (value : ℤ)).isOne = false := by
            simpa [RespReply.isOne] using hone
          have hdiscard : Performs (redisWire r) b post (fun _ => (s', some task')) []
              (r.discard stamped.token >>= fun _ => pure false) := by
            rw [performs_bind]
            exact discard_performs hcommands' fun replies' _ => hdone replies'
          rw [hresume]
          dsimp only
          rw [hlost]
          exact hdiscard
    · exact hpublishes.failed none rfl

end ClusterRegistry

/-- How the commands on the directory of shards are spelt. -/
inductive DirectoryCommand.Sends (r : ClusterRegistry) : DirectoryCommand → List Bytes → Prop
  | setShard (shard : ShardInfo) (httpEndpoint tickP99Ms : Bytes) (now : Nat) :
    Sends r (.setShard shard)
      [ascii "HSET", r.shardKey shard.id, ascii "udp", shard.udpEndpoint, ascii "http",
        httpEndpoint, ascii "players", decimal shard.playerCount, ascii "capacity",
        decimal shard.capacity, ascii "tick_p99_ms", tickP99Ms, ascii "heartbeat", decimal now,
        ascii "draining", if shard.draining then ascii "1" else ascii "0"]
  | expireShard (id : Bytes) (ttl : Nat) :
    Sends r (.expireShard id ttl) [ascii "PEXPIRE", r.shardKey id, decimal ttl]
  | addMember (id : Bytes) : Sends r (.addMember id) [ascii "SADD", r.membersKey, id]
  | getMembers : Sends r .getMembers [ascii "SMEMBERS", r.membersKey]
  | getShard (id : Bytes) : Sends r (.getShard id) (r.hashArgs id)
  | remMember (id : Bytes) : Sends r (.remMember id) [ascii "SREM", r.membersKey, id]
  | delRoster (id : Bytes) : Sends r (.delRoster id) [ascii "DEL", r.rosterKey id]

/-- The fields and values of a shard's hash, in any order. -/
structure ShardInfo.SpeltAs (shard : ShardInfo) (elements : List RespReply) : Prop where
  some_field : elements ≠ []
  udpEndpoint : field elements (ascii "udp") = shard.udpEndpoint
  playerCount : field elements (ascii "players") = decimal shard.playerCount
  capacity : field elements (ascii "capacity") = decimal shard.capacity
  draining : field elements (ascii "draining") =
    if shard.draining then ascii "1" else ascii "0"
  playerCount_lt : shard.playerCount < 2 ^ 32
  capacity_lt : shard.capacity < 2 ^ 32

inductive DirectoryReply.Shows : DirectoryReply → RespReply → Prop
  | integer (value : Nat) : Shows (.integer value) (.integer value)
  | strings (values : List Bytes) : Shows (.strings values) (.array (values.map .string))
  | missing : Shows (.hash none) (.array [])
  | hash {shard : ShardInfo} {elements : List RespReply} :
    shard.SpeltAs elements → Shows (.hash (some shard)) (.array elements)

/-- The wire to the directory. -/
def directoryWire (r : ClusterRegistry) : Wire Directory DirectoryCommand DirectoryReply :=
  { exec := Directory.exec, sends := DirectoryCommand.Sends r, shows := DirectoryReply.Shows }

theorem ShardInfo.SpeltAs.parse {shard : ShardInfo} {elements : List RespReply}
    (h : shard.SpeltAs elements) (id : Bytes) : parseShard id elements = { shard with id } := by
  have hdraining : (field elements (ascii "draining") == ascii "1") = shard.draining := by
    rw [h.draining]
    cases shard.draining with
    | true => rfl
    | false => rfl
  rw [parseShard, hdraining, h.udpEndpoint,
    fieldU64_decimal h.playerCount (h.playerCount_lt.trans (by decide)),
    fieldU64_decimal h.capacity (h.capacity_lt.trans (by decide)),
    Nat.mod_eq_of_lt h.playerCount_lt, Nat.mod_eq_of_lt h.capacity_lt]

theorem DirectoryReply.heard {replies : List DirectoryReply} {shown : List RespReply}
    (h : List.Forall₂ DirectoryReply.Shows replies shown) : ∀ reply ∈ shown, reply.isError = false := by
  have hnone : List.Forall₂ (fun reply other => reply.isError = false ∧
      flip DirectoryReply.Shows reply other) shown replies := by
    refine h.flip.imp fun reply other hshows => ⟨?_, hshows⟩
    cases hshows with
    | integer value => rfl
    | strings values => rfl
    | missing => rfl
    | hash hspelt => rfl
  exact ((List.forall₂_and_left _ _).mp hnone).1

/-- The first row of what is sorted goes in front. -/
theorem sortOut_cons (id : Bytes) (ids : List Bytes) (hash : Option ShardInfo)
    (rows : List DirectoryReply) :
    sortOut (id :: ids) (.hash hash :: rows) =
      match hash with
      | some shard => ({ shard with id } :: (sortOut ids rows).1, (sortOut ids rows).2)
      | none => ((sortOut ids rows).1, id :: (sortOut ids rows).2) := by
  have happend : ∀ (rows : List (Bytes × DirectoryReply)) sorted, rows.foldl sortHash sorted =
      (sorted.1 ++ (rows.foldl sortHash ([], [])).1,
        sorted.2 ++ (rows.foldl sortHash ([], [])).2) := by
    intro rows
    induction rows with
    | nil => simp
    | cons row rows ih =>
      intro sorted
      rw [List.foldl_cons, List.foldl_cons, ih (sortHash sorted row), ih (sortHash ([], []) row)]
      unfold sortHash
      split <;> simp
  unfold sortOut
  rw [List.zip_cons_cons, List.foldl_cons, happend]
  cases hash with
  | some shard => rfl
  | none => rfl

namespace ClusterRegistry
open RedisScript
variable {r : ClusterRegistry}

/-- A heartbeat that is heard through counts as completed. -/
theorem heartbeatShard_performs {shard : ShardInfo} (hid : shard.id ≠ [])
    (httpEndpoint tickP99Ms : Bytes) (ttl before : Nat) :
    Performs (directoryWire r) heartbeatBehaviour
      (Ends fun completed beaten => completed = before + if beaten then 1 else 0)
      (fun _ => (before, some { shard, ttl })) []
      (r.heartbeatShard shard httpEndpoint tickP99Ms ttl) := by
  unfold heartbeatShard
  rw [if_neg hid]
  apply performs_wallMs
  intro now
  rw [performs_bind]
  refine performs_pipeline ?_ (fun replies shown hreplies hshown => ?_) fun error => ?_
  · exact .cons (.setShard shard _ _ now) (.cons (.expireShard _ _) (.cons (.addMember _) .nil))
  · exact performs_noErrors_heard ⟨rfl, fun _ => ⟨rfl, rfl⟩⟩ _ (DirectoryReply.heard hshown)
  · exact ⟨rfl, fun _ => ⟨rfl, rfl⟩⟩

/-- The hashes are sorted in the same way. -/
theorem sortHashes_performs {σ τ : Type} {b : Behaviour σ τ DirectoryCommand DirectoryReply}
    {outcome : Outcome σ τ} {post : Outcome σ τ → List (List Bytes) → List ShardInfo × List Bytes → Prop}
    {queued : List (List Bytes)} {ids : List Bytes} {rows : List DirectoryReply}
    {hashes : List RespReply}
    (hrows : List.Forall₂ (directoryWire r).Answers (ids.map .getShard) rows)
    (hshown : List.Forall₂ DirectoryReply.Shows rows hashes)
    (h : post outcome queued (sortOut ids rows)) :
    Performs (directoryWire r) b post outcome queued (r.sortHashes ids hashes) := by
  induction ids generalizing rows hashes post with
  | nil =>
    cases hrows
    exact h
  | cons id ids ih =>
    obtain _ | ⟨⟨directory, rfl⟩, hrows⟩ := hrows
    obtain _ | ⟨hfirst, hshown⟩ := hshown
    change post outcome queued
      (sortOut (id :: ids) (.hash (directory.shards.lookup id) :: _)) at h
    change DirectoryReply.Shows (.hash (directory.shards.lookup id)) _ at hfirst
    generalize directory.shards.lookup id = found at h hfirst
    rw [sortOut_cons] at h
    unfold sortHashes
    change Performs _ _ _ _ _ (r.sortHashes ids _ >>= _)
    rw [performs_bind]
    refine ih hrows hshown ?_
    cases hfirst with
    | missing => exact h
    | @hash shard elements hspelt =>
      have hany : (array elements).elements.isEmpty = false := by
        simpa [RespReply.elements] using hspelt.some_field
      dsimp only
      rw [hany, if_neg Bool.false_ne_true]
      simp only [RespReply.elements, hspelt.parse]
      exact h

/-- `live_shards` ends with these shards, however many it pruned. -/
def Found : Outcome (List ShardInfo) DiscoveryTask → List (List Bytes) →
    List ShardInfo × Nat → Prop :=
  Ends fun found result => found = result.1

theorem found_mk (live : List ShardInfo) (pruned : Nat) :
    Found (fun _ => (live, none)) [] (live, pruned) :=
  ⟨rfl, fun _ => ⟨rfl, rfl⟩⟩

/-- Where discovery goes on when it has the hashes of all members. -/
theorem resume_hashes (before : List ShardInfo) {ids : List Bytes} {rows : List DirectoryReply}
    (hlength : rows.length = ids.length) :
    (fun now => discoveryBehaviour.resume before now (some rows) (.hashes ids)) =
      fun _ => ((sortOut ids rows).1, if (sortOut ids rows).2.isEmpty then none
        else some (.prune (sortOut ids rows).1 (sortOut ids rows).2)) := by
  funext now
  simp only [discoveryBehaviour, hlength, ne_eq, not_true_eq_false, if_false]
  split <;> rfl

/-- The shards that were found do not depend on what becomes of the others. -/
theorem prune_performs (live : List ShardInfo) (dead : List Bytes) :
    Performs (directoryWire r) discoveryBehaviour Found
      (fun _ => (live, if dead.isEmpty then none else some (.prune live dead))) []
      (if dead.isEmpty then pure (live, 0)
        else do
          let _ ← pipeline (dead.flatMap fun id =>
            [[ascii "SREM", r.membersKey, id], [ascii "DEL", r.rosterKey id]])
          pure (live, dead.length)) := by
  cases hdead : dead.isEmpty with
  | true => exact found_mk live 0
  | false =>
    simp only [Bool.false_eq_true, if_false]
    rw [performs_bind]
    refine performs_pipeline ?_ (fun _ _ _ _ => found_mk live _) fun error => found_mk live _
    have hsame : List.Forall₂ (· = ·) dead dead := List.forall₂_same.mpr fun _ _ => rfl
    refine List.rel_flatMap hsame fun id _ heq => ?_
    subst heq
    exact .cons (.remMember id) (.cons (.delRoster id) .nil)

/-- What discovery found is what `live_shards` returns. -/
theorem liveShards_performs (before : List ShardInfo) :
    Performs (directoryWire r) discoveryBehaviour Found (fun _ => (before, some .members)) []
      r.liveShards := by
  unfold liveShards
  rw [performs_bind]
  refine performs_command rfl DirectoryCommand.Sends.getMembers ?_ fun error => found_mk [] 0
  rintro reply shown ⟨directory, rfl⟩ hshows
  change DirectoryReply.Shows (.strings directory.members) _ at hshows
  change Performs _ _ _ (fun now => discoveryBehaviour.resume before now
    (some [.strings directory.members]) .members) _ _
  generalize directory.members = ids at hshows
  cases hshows
  have hids : ((ids.map RespReply.string).map RespReply.str) = ids := by
    rw [List.map_map]
    exact List.map_id ids
  cases hany : ids.isEmpty with
  | true =>
    rw [List.isEmpty_iff.mp hany]
    exact found_mk [] 0
  | false =>
    have hsome : (array (ids.map RespReply.string)).elements.isEmpty = false := by
      simpa [RespReply.elements] using hany
    have hresume : (fun now => discoveryBehaviour.resume before now (some [.strings ids]) .members) =
        fun _ => ([], some (.hashes ids)) := by
      funext now
      simp only [discoveryBehaviour, hany, if_neg Bool.false_ne_true]
    rw [hsome, if_neg Bool.false_ne_true, hresume]
    simp only [RespReply.elements, hids]
    rw [performs_bind]
    refine performs_pipeline ?_ (fun rows hashes hrows hshown => ?_) fun error => found_mk [] 0
    · apply List.forall₂_map_left_iff.mpr
      apply List.forall₂_map_right_iff.mpr
      exact List.forall₂_same.mpr fun id _ => .getShard id
    have hlength : rows.length = ids.length := by
      rw [← hrows.length_eq]
      exact List.length_map _
    rw [resume_hashes [] hlength]
    dsimp only
    rw [← hshown.length_eq, hlength]
    simp only [Bool.not_true, bne_self_eq_false, Bool.or_self, Bool.false_eq_true, if_false]
    rw [performs_bind]
    exact sortHashes_performs hrows hshown (prune_performs _ _)

end ClusterRegistry
end Morton.Cluster
