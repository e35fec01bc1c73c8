import Morton.Cluster.Matchmaker
import Morton.Cluster.RedisSpec

/-! What a matchmaker at a task can rely on. What it has read of a player's record stays
true as long as no claim replaces the session of a record that names the same shard, and
no `DEL` meets a record that is good. -/
namespace Morton.Cluster
open Proto

/-- The shard and the session in a player's record; a missing session reads as zero. -/
def PresenceHash.seat (hash : PresenceHash) : Bytes × Nat := (hash.shard, hash.session.getD 0)

def Redis.seatOf (r : Redis) (player : Bytes) : Option (Bytes × Nat) :=
  (r.presence.lookup player).map PresenceHash.seat

/-- The player that an `assign` or a `release` is about. -/
def MatchTask.player : MatchTask → Bytes
  | .lookup player _ => player
  | .restore existing _ _ => existing.playerId
  | .clearLookup player _ => player
  | .clear player _ _ => player
  | .claim record _ _ => record.playerId
  | .relookup player _ => player

/-- The `DEL` is the last command of the pipeline. -/
theorem clearPresenceCommands_last (player : Bytes) (record : Option PresenceRecord) :
    (clearPresenceCommands player record).getLast? = some (.delPresence player) := by
  unfold clearPresenceCommands
  split
  · split <;> rfl
  · rfl

theorem clearPresenceCommands_ne_nil (player : Bytes) (record : Option PresenceRecord) :
    clearPresenceCommands player record ≠ [] := by
  intro h
  have hlast := clearPresenceCommands_last player record
  rw [h] at hlast
  cases hlast

/-- The player whose record a command may write. -/
def RedisCommand.writes : RedisCommand → Option Bytes
  | .transfer player _ _ _ _ _ => some player
  | .claim player _ _ _ _ _ => some player
  | .setPresence player _ _ _ _ => some player
  | .delPresence player => some player
  | _ => none

theorem Redis.seatOf_exec {r : Redis} {c : RedisCommand} {player : Bytes}
    (h : c.writes ≠ some player) : (r.exec c).1.seatOf player = r.seatOf player := by
  have hkept : (r.exec c).1.presence.lookup player = r.presence.lookup player := by
    rcases r.presence_exec c player with hsame | ⟨_, _, _, _, rfl, -⟩ |
      ⟨_, _, _, _, _, rfl, -⟩ | ⟨_, _, _, _, _, rfl, -⟩ | ⟨rfl, -⟩
    · exact hsame
    all_goals exact absurd rfl h
  rw [seatOf, hkept, seatOf]

namespace Matchmaker

/-- A matchmaker writes the record of the player it is busy with, and no other. -/
theorem commands_writes {m : Matchmaker} {task : MatchTask} {c : RedisCommand} {player : Bytes}
    (hc : c ∈ m.commands task) (h : c.writes = some player) : task.player = player := by
  cases task with
  | lookup q live => simp_all [commands, RedisCommand.writes]
  | restore existing owner now =>
    simp only [commands, setPresenceCommands, List.mem_cons, List.not_mem_nil, or_false] at hc
    rcases hc with rfl | rfl | rfl | rfl
    · exact Option.some.inj h
    all_goals cases h
  | clearLookup q live => simp_all [commands, RedisCommand.writes]
  | clear q record live =>
    simp only [commands, clearPresenceCommands] at hc
    split at hc
    · split at hc
      · simp only [List.mem_cons, List.not_mem_nil, or_false] at hc
        rcases hc with rfl | rfl
        · cases h
        · exact Option.some.inj h
      · simp_all [RedisCommand.writes, MatchTask.player]
    · simp_all [RedisCommand.writes, MatchTask.player]
  | claim record live now => simp_all [commands, RedisCommand.writes, MatchTask.player]
  | relookup q winner => simp_all [commands, RedisCommand.writes]

theorem claimFor_spec (m : Matchmaker) (player : Bytes) (live : List ShardInfo) (now : Nat) :
    (m.claimFor player live now).1.grants = m.grants ∧
    ∀ task, (m.claimFor player live now).2 = some task →
      ∃ chosen record, pickShard live = some chosen ∧ task = .claim record live now ∧
        record.playerId = player ∧ record.shardId = chosen.id := by
  unfold claimFor
  cases hpick : pickShard live with
  | none => exact ⟨rfl, fun task h => by cases h⟩
  | some chosen =>
    refine ⟨rfl, fun task h => ?_⟩
    cases h
    exact ⟨chosen, _, rfl, rfl, rfl, rfl⟩

/-- A task is followed by one for the same player, and grants to that player only. -/
theorem resume_player (m : Matchmaker) (now : Nat) (replies : Option (List RedisReply))
    (task : MatchTask) :
    (∀ next, (m.resume now replies task).2 = some next → next.player = task.player) ∧
    ∀ g ∈ (m.resume now replies task).1.grants, g ∈ m.grants ∨ g.playerId = task.player := by
  have hclaims : ∀ player live, (∀ next, (m.claimFor player live now).2 = some next →
      next.player = player) ∧ ∀ g ∈ (m.claimFor player live now).1.grants,
        g ∈ m.grants ∨ g.playerId = player := by
    intro player live
    obtain ⟨hgrants, hnext⟩ := m.claimFor_spec player live now
    refine ⟨fun next h => ?_, fun g hg => Or.inl (hgrants ▸ hg)⟩
    obtain ⟨chosen, record, -, rfl, hplayer, -⟩ := hnext next h
    exact hplayer
  have hgrant : ∀ record shard reconnect, ∀ g ∈ (m.grant record shard reconnect).grants,
      g ∈ m.grants ∨ g.playerId = record.playerId := by
    intro record shard reconnect g hg
    rcases List.mem_append.mp hg with hg | hg
    · exact Or.inl hg
    · rw [List.mem_singleton.mp hg]
      exact Or.inr rfl
  cases task with
  | lookup player live =>
    rw [resume]
    split
    · exact hclaims player live
    · rename_i existing hexisting
      have hplayer : existing.playerId = player := by
        rw [Option.filter_eq_some_iff] at hexisting
        have hread := hexisting.1
        unfold readPresence at hread
        split at hread
        · cases hread
          rfl
        · cases hread
      split
      · exact ⟨by rintro next ⟨⟩; exact hplayer, fun g hg => Or.inl hg⟩
      · exact ⟨by rintro next ⟨⟩; rfl, fun g hg => Or.inl hg⟩
  | restore existing owner _ => exact ⟨by rintro next ⟨⟩, hgrant existing owner true⟩
  | clearLookup player live => exact ⟨by rintro next ⟨⟩; rfl, fun g hg => Or.inl hg⟩
  | clear player record live =>
    cases live with
    | none => exact ⟨by rintro next ⟨⟩, fun g hg => Or.inl hg⟩
    | some live => exact hclaims player live
  | claim record live _ =>
    rw [resume]
    split
    · split
      · exact ⟨by rintro next ⟨⟩, hgrant record _ false⟩
      · exact ⟨by rintro next ⟨⟩, fun g hg => Or.inl hg⟩
    · split
      · exact ⟨by rintro next ⟨⟩, fun g hg => Or.inl hg⟩
      · exact ⟨by rintro next ⟨⟩; rfl, fun g hg => Or.inl hg⟩
  | relookup player winner =>
    exact ⟨by rintro next ⟨⟩, hgrant { (readPresence player replies).getD {} with
      playerId := player } winner true⟩

/-- `pick_shard` takes one of the live shards that accept players. -/
theorem pickShard_accepting {live : List ShardInfo} {chosen : ShardInfo}
    (h : pickShard live = some chosen) : chosen ∈ live ∧ chosen.accepting = true := by
  have hfold : ∀ (shards : List ShardInfo) (best : Option ShardInfo),
      shards.foldl pickBetter best = some chosen →
      best = some chosen ∨ chosen ∈ shards ∧ chosen.accepting = true := by
    intro shards
    induction shards with
    | nil => exact fun best h => Or.inl h
    | cons shard shards ih =>
      intro best h
      rcases ih _ h with hbest | ⟨hmem, haccepting⟩
      · unfold pickBetter at hbest
        split at hbest
        · exact Or.inl hbest
        · rename_i haccepting
          have htaken : some shard = some chosen →
              chosen ∈ shard :: shards ∧ chosen.accepting = true := by
            rintro ⟨⟩
            exact ⟨List.mem_cons_self, by simpa using haccepting⟩
          split at hbest
          · exact Or.inr (htaken hbest)
          · dsimp only at hbest
            split at hbest
            · exact Or.inr (htaken hbest)
            · split at hbest
              · exact Or.inr (htaken hbest)
              · exact Or.inl hbest
      · exact Or.inr ⟨List.mem_cons_of_mem _ hmem, haccepting⟩
  exact (hfold live none h).resolve_left (by simp)

theorem liveShard_id {live : List ShardInfo} {id : Bytes} {shard : ShardInfo}
    (h : liveShard live id = some shard) : shard.id = id := by
  simpa using List.find?_some h

end Matchmaker

/-- What a matchmaker needs of the first reply of its pipeline, once it is in. -/
def Heard (p : RedisReply → Prop) (replies : List RedisReply) : Prop :=
  ∀ reply, replies.head? = some reply → p reply

theorem Heard.mono {p q : RedisReply → Prop} {replies : List RedisReply}
    (h : Heard p replies) (hpq : ∀ reply, p reply → q reply) : Heard q replies :=
  fun reply hreply => hpq reply (h reply hreply)

theorem heard_nil (p : RedisReply → Prop) : Heard p [] := fun _ h => by cases h

/-- A pipeline of one command that has its reply. -/
theorem Heard.of_length {p : RedisReply → Prop} {replies : List RedisReply} (h : Heard p replies)
    (hlength : replies.length = 1) : ∃ reply, replies = [reply] ∧ p reply := by
  obtain ⟨reply, rfl⟩ := List.length_eq_one_iff.mp hlength
  exact ⟨reply, rfl, h reply rfl⟩

section
-- which shards are alive, and which of them are draining
variable (standing : Bytes → Option Bool)

/-- `live_shards` returned each live shard once. -/
structure Shows (live : List ShardInfo) : Prop where
  once : (live.map ShardInfo.id).Nodup
  exact : ∀ id, (Matchmaker.liveShard live id).map ShardInfo.draining = standing id

/-- The record names a live shard that is not draining. -/
def Holds (seat : Option (Bytes × Nat)) (shard : Bytes) (token : Nat) : Prop :=
  seat = some (shard, token) ∧ standing shard = some false

/-- The record names such a shard, or nobody. -/
def Settled (seat : Option (Bytes × Nat)) : Prop :=
  ∀ held ∈ seat, held.1 = [] ∨ standing held.1 = some false

/-- A good record stays as it is, and a bad one is not followed by a bad one. -/
def Advances (seat next : Option (Bytes × Nat)) : Prop :=
  next = seat ∨ (∀ shard token, ¬ Holds standing seat shard token) ∧ Settled standing next

/-- What a matchmaker at a task can rely on. -/
def Knows (seat : Option (Bytes × Nat)) (replies : List RedisReply) : MatchTask → Prop
  | .lookup _ live =>
    Shows standing live ∧ Heard (fun reply => ∃ found : Option PresenceHash,
      reply = .hash found ∧
      (∀ shard token, Holds standing (found.map PresenceHash.seat) shard token →
        seat = found.map PresenceHash.seat) ∧
      ((∀ hash, found = some hash → hash.shard = []) → Settled standing seat)) replies
  | .restore existing owner _ =>
    Holds standing seat existing.shardId existing.sessionToken ∧ owner.id = existing.shardId
  | .clearLookup _ live => ∃ shards, live = some shards ∧ Shows standing shards
  | .clear player record live =>
    (∃ shards, live = some shards ∧ Shows standing shards) ∧
      (replies.length = (clearPresenceCommands player record).length → Settled standing seat)
  | .claim record live _ =>
    Shows standing live ∧ standing record.shardId = some false ∧ Settled standing seat ∧
      Heard (fun reply =>
        (reply = .integer 1 ∧ Holds standing seat record.shardId record.sessionToken) ∨
        ∃ owner, reply = .string owner ∧
          (owner = [] ∨ ∃ token, Holds standing seat owner token)) replies
  | .relookup _ winner =>
    (∃ token, Holds standing seat winner.id token) ∧
      Heard (fun reply => ∃ found : Option PresenceHash,
        reply = .hash found ∧ found.map PresenceHash.seat = seat) replies

variable {standing}

theorem Holds.advances {seat next : Option (Bytes × Nat)} {shard : Bytes} {token : Nat}
    (h : Holds standing seat shard token) (hnext : Advances standing seat next) : next = seat :=
  hnext.resolve_right fun hbad => hbad.1 shard token h

theorem Settled.advances {seat next : Option (Bytes × Nat)} (h : Settled standing seat)
    (hnext : Advances standing seat next) : Settled standing next := by
  rcases hnext with rfl | ⟨-, hsettled⟩
  · exact h
  · exact hsettled

theorem Holds.settled {seat : Option (Bytes × Nat)} {shard : Bytes} {token : Nat}
    (h : Holds standing seat shard token) : Settled standing seat := by
  intro held hheld
  cases h.1.symm.trans hheld
  exact Or.inr h.2

/-- What a matchmaker knows stays true while the record advances. -/
theorem Knows.advances {seat next : Option (Bytes × Nat)} {replies : List RedisReply}
    {task : MatchTask} (h : Knows standing seat replies task)
    (hnext : Advances standing seat next) : Knows standing next replies task := by
  cases task with
  | lookup player live =>
    refine ⟨h.1, h.2.mono ?_⟩
    rintro reply ⟨found, hreply, hgood, hgone⟩
    refine ⟨found, hreply, fun shard token hholds => ?_, fun hnone => ?_⟩
    · have hseat := hgood shard token hholds
      rw [← hseat] at hholds
      exact (hholds.advances hnext).trans hseat
    · exact (hgone hnone).advances hnext
  | restore existing owner now =>
    refine ⟨?_, h.2⟩
    rw [h.1.advances hnext]
    exact h.1
  | clearLookup player live => exact h
  | clear player record live => exact ⟨h.1, fun hlength => (h.2 hlength).advances hnext⟩
  | claim record live now =>
    obtain ⟨hshows, hstanding, hsettled, hheard⟩ := h
    refine ⟨hshows, hstanding, hsettled.advances hnext, hheard.mono ?_⟩
    rintro reply (⟨hreply, hholds⟩ | ⟨owner, hreply, hempty | ⟨token, hholds⟩⟩)
    · rw [hholds.advances hnext]
      exact Or.inl ⟨hreply, hholds⟩
    · exact Or.inr ⟨owner, hreply, Or.inl hempty⟩
    · rw [hholds.advances hnext]
      exact Or.inr ⟨owner, hreply, Or.inr ⟨token, hholds⟩⟩
  | relookup player winner =>
    obtain ⟨⟨token, hholds⟩, hheard⟩ := h
    rw [hholds.advances hnext]
    exact ⟨⟨token, hholds⟩, hheard⟩

/-- A pipeline that is sent again starts without replies. -/
theorem Knows.resent {seat : Option (Bytes × Nat)} {replies : List RedisReply}
    {task : MatchTask} (h : Knows standing seat replies task) : Knows standing seat [] task := by
  cases task with
  | lookup player live => exact ⟨h.1, heard_nil _⟩
  | restore existing owner now => exact h
  | clearLookup player live => exact h
  | clear player record live =>
    refine ⟨h.1, fun hlength => ?_⟩
    exact absurd (List.length_eq_zero_iff.mp hlength.symm) (clearPresenceCommands_ne_nil _ _)
  | claim record live now => exact ⟨h.1, h.2.1, h.2.2.1, heard_nil _⟩
  | relookup player winner => exact ⟨h.1, heard_nil _⟩

theorem Shows.standing_eq {live : List ShardInfo} (h : Shows standing live) {id : Bytes}
    {shard : ShardInfo} (hshard : Matchmaker.liveShard live id = some shard) :
    standing id = some shard.draining := by
  rw [← h.exact id, hshard, Option.map_some]

theorem Shows.pickShard {live : List ShardInfo} (h : Shows standing live) {chosen : ShardInfo}
    (hpick : Matchmaker.pickShard live = some chosen) : standing chosen.id = some false := by
  obtain ⟨hmem, haccepting⟩ := Matchmaker.pickShard_accepting hpick
  have hlive : Matchmaker.liveShard live chosen.id = some chosen := by
    cases hfind : Matchmaker.liveShard live chosen.id with
    | none => simpa using List.find?_eq_none.mp hfind chosen hmem
    | some shard =>
      have hid := Matchmaker.liveShard_id hfind
      rw [List.inj_on_of_nodup_map h.once (List.mem_of_find?_eq_some hfind) hmem hid]
  rw [h.standing_eq hlive]
  simp only [ShardInfo.accepting, Bool.and_eq_true, Bool.not_eq_true'] at haccepting
  rw [haccepting.1]

variable (standing)

/-- A claim finds no other session for its own shard, and a `DEL` no good record. -/
def Gentle (r : Redis) : RedisCommand → Prop
  | .claim player shard _ session _ _ =>
    ∀ held ∈ r.seatOf player, held.1 = shard → held.2 = session
  | .delPresence player => ∀ held ∈ r.seatOf player, standing held.1 ≠ some false
  | _ => True

instance decidableGentle (r : Redis) : ∀ c, Decidable (Gentle standing r c)
  | .claim player shard _ session _ _ =>
    inferInstanceAs (Decidable (∀ held ∈ r.seatOf player, held.1 = shard → held.2 = session))
  | .delPresence player =>
    inferInstanceAs (Decidable (∀ held ∈ r.seatOf player, standing held.1 ≠ some false))
  | .setTicket _ _ _ => isTrue trivial
  | .getDelTicket _ => isTrue trivial
  | .delTicket _ => isTrue trivial
  | .transfer _ _ _ _ _ _ => isTrue trivial
  | .setPresence _ _ _ _ _ => isTrue trivial
  | .expirePresence _ _ => isTrue trivial
  | .getPresence _ => isTrue trivial
  | .addRoster _ _ => isTrue trivial
  | .remRoster _ _ => isTrue trivial
  | .expireRoster _ _ => isTrue trivial

/-- A pipeline can be given up: where the matchmaker goes on to claim, the record is not
bad, and it is not the one that reads the winner's session. -/
def Spares (seat : Option (Bytes × Nat)) : MatchTask → Prop
  | .lookup _ _ => Settled standing seat
  | .clear _ _ _ => Settled standing seat
  | .relookup _ _ => False
  | _ => True

instance decidableSpares (seat : Option (Bytes × Nat)) : ∀ task, Decidable (Spares standing seat task)
  | .lookup _ _ => inferInstanceAs (Decidable (∀ held ∈ seat, _ ∨ _))
  | .clear _ _ _ => inferInstanceAs (Decidable (∀ held ∈ seat, _ ∨ _))
  | .relookup _ _ => isFalse id
  | .restore _ _ _ => isTrue trivial
  | .clearLookup _ _ => isTrue trivial
  | .claim _ _ _ => isTrue trivial

/-- What the next task starts with, and that every grant to the player is what the record
says. -/
structure Ready (player : Bytes) (seat : Option (Bytes × Nat))
    (progress : Matchmaker × Option MatchTask) : Prop where
  knows : ∀ task, progress.2 = some task → task.player = player → Knows standing seat [] task
  holds : ∀ g ∈ progress.1.grants, g.playerId = player →
    Holds standing seat g.shardId g.sessionToken

variable {standing}

theorem ready_idle {m : Matchmaker} {player : Bytes} {seat : Option (Bytes × Nat)}
    (h : ∀ g ∈ m.grants, g.playerId = player → Holds standing seat g.shardId g.sessionToken) :
    Ready standing player seat (m, none) :=
  ⟨fun _ htask => (by cases htask), h⟩

theorem ready_grant {m : Matchmaker} {player : Bytes} {seat : Option (Bytes × Nat)}
    (h : ∀ g ∈ m.grants, g.playerId = player → Holds standing seat g.shardId g.sessionToken)
    {record : PresenceRecord} {shard : ShardInfo} (reconnect : Bool)
    (hholds : Holds standing seat shard.id record.sessionToken) :
    Ready standing player seat (m.grant record shard reconnect, none) := by
  refine ready_idle fun g hg hplayer => ?_
  rcases List.mem_append.mp hg with hold | hnew
  · exact h g hold hplayer
  · rw [List.mem_singleton.mp hnew]
    exact hholds

theorem ready_claimFor {m : Matchmaker} {player : Bytes} {seat : Option (Bytes × Nat)}
    (h : ∀ g ∈ m.grants, g.playerId = player → Holds standing seat g.shardId g.sessionToken)
    {live : List ShardInfo} (hshows : Shows standing live) (hsettled : Settled standing seat)
    (now : Nat) : Ready standing player seat (m.claimFor player live now) := by
  obtain ⟨hgrants, hnext⟩ := m.claimFor_spec player live now
  refine ⟨fun task htask _ => ?_, fun g hg => h g (hgrants ▸ hg)⟩
  obtain ⟨chosen, record, hpick, rfl, -, hshard⟩ := hnext task htask
  refine ⟨hshows, ?_, hsettled, heard_nil _⟩
  rw [hshard]
  exact hshows.pickShard hpick

theorem readPresence_hash (player : Bytes) (found : Option PresenceHash) :
    readPresence player (some [.hash found]) = found.map fun hash =>
      { playerId := player, shardId := hash.shard, region := hash.region,
        sessionToken := hash.session.getD 0, updatedMs := hash.updated } := by
  cases found <;> rfl

/-- A matchmaker that goes on knows what it needs next, and grants what the record says. -/
theorem Matchmaker.ready_resume (hnobody : standing [] = none) {m : Matchmaker}
    {seat : Option (Bytes × Nat)} {task : MatchTask} {replies : List RedisReply}
    {answer : Option (List RedisReply)} (hknows : Knows standing seat replies task)
    (hgrants : ∀ g ∈ m.grants, g.playerId = task.player →
      Holds standing seat g.shardId g.sessionToken)
    (hanswer : answer = none ∧ Spares standing seat task ∨
      answer = some replies ∧ replies.length = (m.commands task).length) (now : Nat) :
    Ready standing task.player seat (m.resume now answer task) := by
  cases task with
  | lookup player live =>
    rcases hanswer with ⟨rfl, hspares⟩ | ⟨rfl, hlength⟩
    · exact ready_claimFor hgrants hknows.1 hspares now
    · obtain ⟨reply, rfl, found, rfl, hgood, hgone⟩ := hknows.2.of_length hlength
      rw [resume, readPresence_hash]
      split
      · rename_i hnone
        refine ready_claimFor hgrants hknows.1 (hgone fun hash hhash => ?_) now
        subst hhash
        simpa [Option.filter] using hnone
      · rename_i existing hexisting
        obtain ⟨hread, -⟩ := Option.filter_eq_some_iff.mp hexisting
        obtain ⟨hash, rfl, rfl⟩ := Option.map_eq_some_iff.mp hread
        split
        · rename_i owner howner
          obtain ⟨hlive, hactive⟩ := Option.filter_eq_some_iff.mp howner
          have hstanding : standing hash.shard = some false := by
            rw [hknows.1.standing_eq hlive]
            simpa using hactive
          refine ⟨?_, hgrants⟩
          rintro task ⟨⟩ -
          refine ⟨⟨?_, hstanding⟩, liveShard_id hlive⟩
          exact hgood hash.shard _ ⟨rfl, hstanding⟩
        · refine ⟨?_, hgrants⟩
          rintro task ⟨⟩ -
          exact ⟨live, rfl, hknows.1⟩
  | restore existing owner _ =>
    refine ready_grant hgrants true ?_
    rw [hknows.2]
    exact hknows.1
  | clearLookup player live =>
    refine ⟨?_, hgrants⟩
    rintro task ⟨⟩ -
    refine ⟨hknows, fun hlength => ?_⟩
    exact absurd (List.length_eq_zero_iff.mp hlength.symm) (clearPresenceCommands_ne_nil _ _)
  | clear player record live =>
    obtain ⟨⟨shards, rfl, hshows⟩, hdone⟩ := hknows
    rcases hanswer with ⟨rfl, hspares⟩ | ⟨rfl, hlength⟩
    · exact ready_claimFor hgrants hshows hspares now
    · exact ready_claimFor hgrants hshows (hdone hlength) now
  | claim record live _ =>
    obtain ⟨hshows, hstanding, hsettled, hheard⟩ := hknows
    have hempty : liveShard live [] = none := by
      have h := hshows.exact []
      rw [hnobody] at h
      simpa using h
    rcases hanswer with ⟨rfl, -⟩ | ⟨rfl, hlength⟩
    · rw [resume]
      simp only [readClaim, hempty]
      exact ready_idle hgrants
    · obtain ⟨reply, rfl, ⟨rfl, hholds⟩ | ⟨owner, rfl, howner⟩⟩ := hheard.of_length hlength
      · rw [resume]
        simp only [readClaim]
        split
        · rename_i chosen hchosen
          refine ready_grant hgrants false ?_
          rw [liveShard_id hchosen]
          exact hholds
        · exact ready_idle hgrants
      · rw [resume]
        simp only [readClaim]
        split
        · exact ready_idle hgrants
        · rename_i winner hwinner
          refine ⟨?_, hgrants⟩
          rintro task ⟨⟩ -
          refine ⟨?_, heard_nil _⟩
          rw [liveShard_id hwinner]
          rcases howner with rfl | hholds
          · cases hempty.symm.trans hwinner
          · exact hholds
  | relookup player winner =>
    rcases hanswer with ⟨-, hspares⟩ | ⟨rfl, hlength⟩
    · exact hspares.elim
    · obtain ⟨⟨token, hholds⟩, hheard⟩ := hknows
      obtain ⟨reply, rfl, found, rfl, hfound⟩ := hheard.of_length hlength
      refine ready_grant hgrants true ?_
      rw [readPresence_hash]
      have hseat := hfound.trans hholds.1
      obtain ⟨hash, rfl, hpair⟩ := Option.map_eq_some_iff.mp hseat
      have htoken : hash.session.getD 0 = token := congrArg Prod.snd hpair
      simp only [Option.map_some, Option.getD_some, htoken]
      exact hholds

theorem Redis.seatOf_delPresence (r : Redis) (player : Bytes) :
    (r.exec (.delPresence player)).1.seatOf player = none := by
  simp [exec, seatOf]

theorem Redis.seatOf_setPresence (r : Redis) (player shard : Bytes) (region session now : Nat) :
    (r.exec (.setPresence player shard region session now)).1.seatOf player =
      some (shard, session) := by
  simp [exec, seatOf, PresenceHash.seat]

/-- A claim takes a record that names nobody or its own shard, and else returns the shard
that the record names. -/
theorem Redis.claim_cases (r : Redis) (player shard : Bytes) (region session now ttl : Nat) :
    ((∀ held token, r.seatOf player = some (held, token) → held = shard) ∧
      (r.exec (.claim player shard region session now ttl)).2 = .integer 1 ∧
      (r.exec (.claim player shard region session now ttl)).1.seatOf player =
        some (shard, session)) ∨
    ∃ held token, r.seatOf player = some (held, token) ∧ held ≠ shard ∧
      (r.exec (.claim player shard region session now ttl)).2 = .string held ∧
      (r.exec (.claim player shard region session now ttl)).1 = r := by
  have htake : (claim.take player shard region session now r).2 = .integer 1 ∧
      (claim.take player shard region session now r).1.seatOf player = some (shard, session) := by
    simp [claim.take, seatOf, PresenceHash.seat]
  simp only [exec, claim]
  cases hlookup : r.presence.lookup player with
  | none =>
    refine Or.inl ⟨fun held token h => ?_, htake⟩
    simp [seatOf, hlookup] at h
  | some hash =>
    have hseat : r.seatOf player = some (hash.shard, hash.session.getD 0) := by
      rw [seatOf, hlookup]
      rfl
    dsimp only
    by_cases hsame : hash.shard = shard
    · rw [if_neg (not_not.mpr hsame)]
      refine Or.inl ⟨fun held token h => ?_, htake⟩
      cases hseat.symm.trans h
      exact hsame
    · rw [if_pos hsame]
      exact Or.inr ⟨hash.shard, _, hseat, hsame, rfl, rfl⟩

/-- The next command of a pipeline of one. -/
theorem next_single {c d : RedisCommand} {replies : List RedisReply}
    (h : [d][replies.length]? = some c) : replies = [] ∧ c = d := by
  obtain ⟨hlt, hget⟩ := List.getElem?_eq_some_iff.mp h
  have hzero : replies.length = 0 := by simpa using hlt
  obtain rfl := List.length_eq_zero_iff.mp hzero
  exact ⟨rfl, hget.symm⟩

/-- Executing the next command of a matchmaker lets the record advance, and the matchmaker
learns what it needs. -/
theorem Matchmaker.knows_exec {m : Matchmaker} {r : Redis} {task : MatchTask}
    {replies : List RedisReply} {c : RedisCommand}
    (hknows : Knows standing (r.seatOf task.player) replies task)
    (hnext : (m.commands task)[replies.length]? = some c) (hgentle : Gentle standing r c) :
    Advances standing (r.seatOf task.player) ((r.exec c).1.seatOf task.player) ∧
      Knows standing ((r.exec c).1.seatOf task.player) (replies ++ [(r.exec c).2]) task := by
  cases task with
  | lookup player live =>
    obtain ⟨rfl, rfl⟩ := next_single hnext
    refine ⟨Or.inl rfl, hknows.1, ?_⟩
    rintro reply ⟨⟩
    refine ⟨_, rfl, fun _ _ _ => rfl, fun hgone held hheld => Or.inl ?_⟩
    obtain ⟨hash, hhash, rfl⟩ := Option.map_eq_some_iff.mp hheld
    exact hgone hash hhash
  | restore existing owner now =>
    -- the record is written back as it is
    have hkept : (r.exec c).1.seatOf existing.playerId = r.seatOf existing.playerId := by
      have hc : c ∈ m.commands (.restore existing owner now) := List.mem_of_getElem? hnext
      simp only [commands, setPresenceCommands, List.mem_cons, List.not_mem_nil, or_false] at hc
      rcases hc with rfl | rfl | rfl | rfl
      · rw [Redis.seatOf_setPresence]
        exact hknows.1.1.symm
      all_goals exact Redis.seatOf_exec (by simp [RedisCommand.writes])
    refine ⟨Or.inl hkept, ?_, hknows.2⟩
    exact ⟨hkept.trans hknows.1.1, hknows.1.2⟩
  | clearLookup player live =>
    obtain ⟨rfl, rfl⟩ := next_single hnext
    exact ⟨Or.inl rfl, hknows⟩
  | clear player record live =>
    have hadvances : Advances standing (r.seatOf player) ((r.exec c).1.seatOf player) := by
      by_cases hwrites : c = .delPresence player
      · subst hwrites
        refine Or.inr ⟨fun shard token h => hgentle (shard, token) h.1 h.2, ?_⟩
        rw [Redis.seatOf_delPresence]
        rintro held ⟨⟩
      · refine Or.inl (Redis.seatOf_exec fun h => hwrites ?_)
        have hc : c ∈ m.commands (.clear player record live) := List.mem_of_getElem? hnext
        simp only [commands, clearPresenceCommands] at hc
        split at hc
        · split at hc
          · simp only [List.mem_cons, List.not_mem_nil, or_false] at hc
            rcases hc with rfl | rfl
            · cases h
            · rfl
          · exact List.mem_singleton.mp hc
        · exact List.mem_singleton.mp hc
    refine ⟨hadvances, hknows.1, fun hlength => ?_⟩
    -- all replies are in, so the command was the `DEL`
    have hlast : c = .delPresence player := by
      have h := clearPresenceCommands_last player record
      rw [List.getLast?_eq_getElem?, ← hlength, List.length_append, List.length_singleton,
        Nat.add_sub_cancel] at h
      exact Option.some.inj (hnext.symm.trans h)
    rw [hlast, MatchTask.player, Redis.seatOf_delPresence]
    rintro held ⟨⟩
  | claim record live now =>
    obtain ⟨rfl, rfl⟩ := next_single hnext
    obtain ⟨hshows, hstanding, hsettled, -⟩ := hknows
    rcases r.claim_cases record.playerId record.shardId record.region record.sessionToken now
      m.sessionTtlMs with ⟨hfree, hreply, hseat⟩ | ⟨held, token, hseat, hne, hreply, hsame⟩
    · have hholds : Holds standing ((r.exec (.claim record.playerId record.shardId record.region
          record.sessionToken now m.sessionTtlMs)).1.seatOf record.playerId) record.shardId
          record.sessionToken := ⟨hseat, hstanding⟩
      refine ⟨?_, hshows, hstanding, hholds.settled, ?_⟩
      · cases hold : r.seatOf record.playerId with
        | none =>
          refine Or.inr ⟨fun _ _ h => ?_, hholds.settled⟩
          cases hold.symm.trans h.1
        | some seat =>
          obtain ⟨held, token⟩ := seat
          obtain rfl := hfree held token hold
          obtain rfl := hgentle (_, token) hold rfl
          exact Or.inl (hseat.trans hold.symm)
      · rintro reply hhead
        rw [List.nil_append, List.head?_cons, Option.some.injEq] at hhead
        exact Or.inl ⟨hhead.symm.trans hreply, hholds⟩
    · rw [hsame]
      refine ⟨Or.inl rfl, hshows, hstanding, hsettled, ?_⟩
      rintro reply hhead
      rw [List.nil_append, List.head?_cons, Option.some.injEq] at hhead
      refine Or.inr ⟨held, hhead.symm.trans hreply, ?_⟩
      rcases hsettled (held, token) hseat with hempty | hgood
      · exact Or.inl hempty
      · exact Or.inr ⟨token, hseat, hgood⟩
  | relookup player winner =>
    obtain ⟨rfl, rfl⟩ := next_single hnext
    refine ⟨Or.inl rfl, hknows.1, ?_⟩
    rintro reply ⟨⟩
    exact ⟨_, rfl, rfl⟩

end
end Morton.Cluster
