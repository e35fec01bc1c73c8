import Morton.Cluster.Migration

/-! When publishing a handoff is all or nothing. The pipeline touches one ticket key and
one presence record; each of its commands acts on them as if it ran once, however often
it is resent, but the reply to the first `SET` is lost with its attempt. -/
namespace Morton.Cluster
open Pipeline Proto

/-- Command number `k` of a pipeline was executed by some attempt. -/
def Transport.executed (t : Transport) (k : Nat) : Bool :=
  match t.first with
  | .refused => false
  | .replied => true
  | .broken n => decide (k < n) || match t.second with
    | .refused => false
    | .replied => true
    | .broken m => decide (k < m)

/-- The pipeline was answered, and no command of it was executed before that attempt. -/
def Transport.fresh (t : Transport) : Bool :=
  match t.first, t.second with
  | .replied, _ => true
  | .broken 0, .replied => true
  | _, _ => false

/-- An answered attempt has executed every command. -/
theorem Transport.executed_of_fresh (t : Transport) (h : t.fresh = true) (k : Nat) :
    t.executed k = true := by
  obtain ⟨first, second⟩ := t
  cases first with
  | replied => rfl
  | refused => cases second <;> cases h
  | broken n =>
    cases second with
    | replied => simp [Transport.executed]
    | _ => cases n <;> cases h

namespace MigrationStore

/-- The ticket key after `SET NX`. -/
def afterSet (blob : Bytes) (held : Option Bytes) : Option Bytes := held.or (some blob)

/-- The transfer script finds no record, or one that names the shard. -/
def takes (fromShard : Bytes) (record : Option PresenceHash) : Bool :=
  record.all fun hash => hash.shard == fromShard

/-- The presence record after the transfer script. -/
def afterTransfer (ticket : MigrationTicket) (now : Nat) (record : Option PresenceHash) :
    Option PresenceHash :=
  if takes ticket.fromShard record then
    some
      { shard := ticket.toShard
        region := ticket.region
        session := record.bind PresenceHash.session
        updated := now }
  else record

theorem afterSet_afterSet (blob : Bytes) (held : Option Bytes) :
    afterSet blob (afterSet blob held) = afterSet blob held := by
  cases held <;> rfl

theorem afterTransfer_afterTransfer (ticket : MigrationTicket) (now : Nat)
    (record : Option PresenceHash) :
    afterTransfer ticket now (afterTransfer ticket now record) = afterTransfer ticket now record := by
  by_cases h : takes ticket.fromShard record = true
  · have hafter : afterTransfer ticket now record = some
        { shard := ticket.toShard
          region := ticket.region
          session := record.bind PresenceHash.session
          updated := now } := if_pos h
    rw [hafter, afterTransfer]
    split <;> rfl
  · have hafter : afterTransfer ticket now record = record := if_neg h
    rw [hafter, hafter]

variable (ticket : MigrationTicket) (blob : Bytes) (ttl presenceTtl now : Nat)

theorem exec_setTicket (r : Redis) :
    (r.exec (.setTicket ticket.token blob ttl)).1.tickets.lookup ticket.token =
      afterSet blob (r.tickets.lookup ticket.token) ∧
    (r.exec (.setTicket ticket.token blob ttl)).1.presence = r.presence ∧
    (r.exec (.setTicket ticket.token blob ttl)).2 =
      if (r.tickets.lookup ticket.token).isNone then .ok else .nil := by
  cases h : r.tickets.lookup ticket.token with
  | none => simp [Redis.exec, h, afterSet]
  | some held => simp [Redis.exec, h, afterSet]

theorem heldElsewhere_eq (r : Redis) (player shard : Bytes) :
    r.heldElsewhere player shard = !takes shard (r.presence.lookup player) := by
  unfold Redis.heldElsewhere takes
  cases r.presence.lookup player <;> rfl

theorem exec_transfer (r : Redis) :
    let command := RedisCommand.transfer ticket.playerId ticket.fromShard ticket.toShard
      ticket.region now presenceTtl
    (r.exec command).1.presence.lookup ticket.playerId =
      afterTransfer ticket now (r.presence.lookup ticket.playerId) ∧
    (r.exec command).1.tickets = r.tickets ∧
    (r.exec command).2 = .integer
      (if takes ticket.fromShard (r.presence.lookup ticket.playerId) then 1 else 0) := by
  cases h : takes ticket.fromShard (r.presence.lookup ticket.playerId) with
  | false => simp [Redis.exec, Redis.transfer, heldElsewhere_eq, h, afterTransfer]
  | true => simp [Redis.exec, Redis.transfer, heldElsewhere_eq, h, afterTransfer]

/-- What an attempt leaves behind when it executes the first `n` commands. -/
theorem execAll_publish (r : Redis) (n : Nat) :
    let after := (execAll Redis.exec r
      ((publishCommands ticket blob ttl presenceTtl now).take n)).1
    after.tickets.lookup ticket.token =
        (if 0 < n then afterSet blob (r.tickets.lookup ticket.token)
          else r.tickets.lookup ticket.token) ∧
      after.presence.lookup ticket.playerId =
        if 1 < n then afterTransfer ticket now (r.presence.lookup ticket.playerId)
        else r.presence.lookup ticket.playerId := by
  obtain ⟨hset, hpresence, -⟩ := exec_setTicket ticket blob ttl r
  obtain ⟨hmove, htickets, -⟩ := exec_transfer ticket presenceTtl now
    (r.exec (.setTicket ticket.token blob ttl)).1
  rw [hpresence] at hmove
  match n with
  | 0 => exact ⟨rfl, rfl⟩
  | 1 => exact ⟨hset, by rw [← hpresence]; rfl⟩
  | n+2 =>
    have htake : (publishCommands ticket blob ttl presenceTtl now).take (n + 2) =
        publishCommands ticket blob ttl presenceTtl now := List.take_of_length_le (by simp [publishCommands])
    rw [htake, if_pos (by omega), if_pos (by omega)]
    refine ⟨?_, hmove⟩
    rw [← hset, ← htickets]
    rfl

theorem execAll_publish_replies (r : Redis) :
    (execAll Redis.exec r (publishCommands ticket blob ttl presenceTtl now)).2 =
      [if (r.tickets.lookup ticket.token).isNone then .ok else .nil,
        .integer (if takes ticket.fromShard (r.presence.lookup ticket.playerId) then 1 else 0)] := by
  obtain ⟨-, hpresence, hok⟩ := exec_setTicket ticket blob ttl r
  obtain ⟨-, -, hone⟩ := exec_transfer ticket presenceTtl now
    (r.exec (.setTicket ticket.token blob ttl)).1
  rw [hpresence] at hone
  simp only [publishCommands, execAll, hok, hone]

/-- The verdict on a pipeline none of whose replies was lost. -/
def verdict (held : Option Bytes) (record : Option PresenceHash) : Verdict :=
  if held.isSome then .failed
  else if takes ticket.fromShard record then .published else .discard

theorem judge_execAll (r : Redis) :
    judge (some (execAll Redis.exec r (publishCommands ticket blob ttl presenceTtl now)).2) =
      verdict ticket (r.tickets.lookup ticket.token) (r.presence.lookup ticket.playerId) := by
  rw [execAll_publish_replies]
  unfold verdict judge
  cases r.tickets.lookup ticket.token with
  | some held => rfl
  | none => cases takes ticket.fromShard (r.presence.lookup ticket.playerId) <;> rfl

/-- The effect of the whole flush on the two keys, and how its outcome is judged. -/
theorem flush_publish (transport : Transport) (r : Redis) :
    let outcome := redisFlush transport (publishCommands ticket blob ttl presenceTtl now) r
    outcome.1.tickets.lookup ticket.token =
        (if transport.executed 0 then afterSet blob (r.tickets.lookup ticket.token)
          else r.tickets.lookup ticket.token) ∧
      outcome.1.presence.lookup ticket.playerId =
        (if transport.executed 1 then afterTransfer ticket now (r.presence.lookup ticket.playerId)
          else r.presence.lookup ticket.playerId) ∧
      judge outcome.2 =
        if transport.fresh then
          verdict ticket (r.tickets.lookup ticket.token) (r.presence.lookup ticket.playerId)
        else .failed := by
  obtain ⟨first, second⟩ := transport
  have hfull : ∀ r : Redis, execAll Redis.exec r
      ((publishCommands ticket blob ttl presenceTtl now).take 2) =
      execAll Redis.exec r (publishCommands ticket blob ttl presenceTtl now) := fun r => rfl
  have hbase : ∀ t : Transport, redisFlush t (publishCommands ticket blob ttl presenceTtl now) r =
      sendLoop Redis.exec (publishCommands ticket blob ttl presenceTtl now) [t.first, t.second] r :=
    fun t => rfl
  rw [hbase]
  cases first with
  | refused => exact ⟨rfl, rfl, rfl⟩
  | replied =>
    have hkeys := execAll_publish ticket blob ttl presenceTtl now r 2
    rw [hfull] at hkeys
    exact ⟨hkeys.1, hkeys.2, judge_execAll ticket blob ttl presenceTtl now r⟩
  | broken n =>
    obtain ⟨ht, hp⟩ := execAll_publish ticket blob ttl presenceTtl now r n
    simp only [sendLoop]
    generalize (execAll Redis.exec r _).1 = r₁ at ht hp
    cases second with
    | refused =>
      simp only [sendLoop, ht, hp]
      exact ⟨by simp [Transport.executed], by simp [Transport.executed], by cases n <;> rfl⟩
    | broken m =>
      obtain ⟨ht', hp'⟩ := execAll_publish ticket blob ttl presenceTtl now r₁ m
      simp only [sendLoop]
      refine ⟨?_, ?_, by cases n <;> rfl⟩
      · rw [ht', ht]
        by_cases hn : 0 < n <;> by_cases hm : 0 < m <;>
          simp [Transport.executed, hn, hm, afterSet_afterSet]
      · rw [hp', hp]
        by_cases hn : 1 < n <;> by_cases hm : 1 < m <;>
          simp [Transport.executed, hn, hm, afterTransfer_afterTransfer]
    | replied =>
      have hkeys := execAll_publish ticket blob ttl presenceTtl now r₁ 2
      rw [hfull] at hkeys
      simp only [sendLoop]
      refine ⟨?_, ?_, ?_⟩
      · rw [hkeys.1, ht]
        by_cases hn : 0 < n <;> simp [Transport.executed, hn, afterSet_afterSet]
      · rw [hkeys.2, hp]
        by_cases hn : 1 < n <;> simp [Transport.executed, hn, afterTransfer_afterTransfer]
      · rw [judge_execAll, ht, hp]
        -- an earlier `SET` makes this one fail
        cases n with
        | zero => rfl
        | succ n => cases r.tickets.lookup ticket.token <;> rfl

/-- The pipeline is published whole, or nothing of it stays. -/
def AllOrNothing (before : Redis) (result : Bool × Redis) : Prop :=
  if result.1 then
    (∃ hash, result.2.presence.lookup ticket.playerId = some hash ∧ hash.shard = ticket.toShard) ∧
      (redeem ticket.token result.2).1 = some ticket
  else
    result.2.presence.lookup ticket.playerId = before.presence.lookup ticket.playerId ∧
      ((redeem ticket.token result.2).1.isSome →
        result.2.tickets.lookup ticket.token = before.tickets.lookup ticket.token)

/-- The inputs on which publishing is all or nothing. -/
def PublishSafe (pipeline cleanup : Transport) (before : Redis) : Prop :=
  encodeMigrationTicket ticket = [] ∨
  if pipeline.fresh ∧ before.tickets.lookup ticket.token = none then
    if takes ticket.fromShard (before.presence.lookup ticket.playerId) then ticket.playerId ≠ []
    else cleanup.executed 0 ∨ ticket.playerId = []
  else
    (pipeline.executed 0 → before.tickets.lookup ticket.token = none → ticket.playerId = []) ∧
      (pipeline.executed 1 → takes ticket.fromShard (before.presence.lookup ticket.playerId) →
        ∃ hash, before.presence.lookup ticket.playerId = some hash ∧ hash.shard = ticket.toShard ∧
          hash.region = ticket.region ∧ hash.updated = now)

theorem redeem_fst (token : Nat) (r : Redis) :
    (redeem token r).1 = (r.tickets.lookup token).bind fun blob =>
      (decodeMigrationTicket blob).filter fun t => t.token == token := by
  cases h : r.tickets.lookup token with
  | none => simp [redeem, redisFlush, flush, sendLoop, execAll, Redis.exec, h, readRedeem]
  | some blob => simp [redeem, redisFlush, flush, sendLoop, execAll, Redis.exec, h, readRedeem]

theorem flush_delTicket (token : Nat) (transport : Transport) (r : Redis) :
    (redisFlush transport [.delTicket token] r).1.presence = r.presence ∧
    (redisFlush transport [.delTicket token] r).1.tickets.lookup token =
      if transport.executed 0 then none else r.tickets.lookup token := by
  obtain ⟨first, second⟩ := transport
  cases first with
  | refused => exact ⟨rfl, rfl⟩
  | replied => simp [redisFlush, flush, sendLoop, execAll, Redis.exec, Transport.executed]
  | broken n =>
    cases n with
    | zero =>
      cases second with
      | refused => simp [redisFlush, flush, sendLoop, execAll, Transport.executed]
      | replied => simp [redisFlush, flush, sendLoop, execAll, Redis.exec, Transport.executed]
      | broken m =>
        cases m <;> simp [redisFlush, flush, sendLoop, execAll, Redis.exec, Transport.executed]
    | succ n =>
      cases second with
      | refused => simp [redisFlush, flush, sendLoop, execAll, Redis.exec, Transport.executed]
      | replied => simp [redisFlush, flush, sendLoop, execAll, Redis.exec, Transport.executed]
      | broken m =>
        cases m <;> simp [redisFlush, flush, sendLoop, execAll, Redis.exec, Transport.executed]

theorem inRange_stamp {ticket : MigrationTicket} (h : ticket.InRange) {now : Nat}
    (hnow : now < 2 ^ 64) : (stamp ticket now).InRange := by
  unfold stamp
  split
  · exact ⟨h.token, h.region, h.tick, h.sequence, hnow⟩
  · exact h

/-- The ticket the call stored is redeemed as it is, unless it names no player. -/
theorem redeem_stored {ticket : MigrationTicket} (hrange : ticket.InRange)
    (hfits : encodeMigrationTicket ticket ≠ []) {r : Redis}
    (hstored : r.tickets.lookup ticket.token = some (encodeMigrationTicket ticket)) :
    (redeem ticket.token r).1 = if ticket.playerId = [] then none else some ticket := by
  rw [redeem_fst, hstored, Option.bind_some, decodeMigrationTicket_encode hrange hfits]
  split
  · rfl
  · simp

/-- A transfer that takes leaves the record as it was only if it was already so. -/
theorem afterTransfer_eq_self_iff (ticket : MigrationTicket) (now : Nat)
    {record : Option PresenceHash} (htakes : takes ticket.fromShard record = true) :
    afterTransfer ticket now record = record ↔
      ∃ hash, record = some hash ∧ hash.shard = ticket.toShard ∧
        hash.region = ticket.region ∧ hash.updated = now := by
  rw [afterTransfer, if_pos htakes]
  cases record with
  | none => simp
  | some hash =>
    obtain ⟨shard, region, session, updated⟩ := hash
    simp only [Option.bind_some, Option.some.injEq, PresenceHash.mk.injEq, true_and]
    constructor
    · rintro ⟨rfl, rfl, rfl⟩
      exact ⟨_, rfl, rfl, rfl, rfl⟩
    · rintro ⟨hash, rfl, rfl, rfl, rfl⟩
      exact ⟨rfl, rfl, rfl⟩

/-- A call that reports failure with the keys as the pipeline left them. -/
theorem allOrNothing_failed_iff {ticket : MigrationTicket} (hrange : ticket.InRange)
    (hfits : encodeMigrationTicket ticket ≠ []) {now : Nat} {transport : Transport}
    {before after : Redis}
    (htickets : after.tickets.lookup ticket.token =
      if transport.executed 0 then
        afterSet (encodeMigrationTicket ticket) (before.tickets.lookup ticket.token)
      else before.tickets.lookup ticket.token)
    (hpresence : after.presence.lookup ticket.playerId =
      if transport.executed 1 then
        afterTransfer ticket now (before.presence.lookup ticket.playerId)
      else before.presence.lookup ticket.playerId) :
    AllOrNothing ticket before (false, after) ↔
      (transport.executed 0 → before.tickets.lookup ticket.token = none → ticket.playerId = []) ∧
      (transport.executed 1 → takes ticket.fromShard (before.presence.lookup ticket.playerId) →
        ∃ hash, before.presence.lookup ticket.playerId = some hash ∧ hash.shard = ticket.toShard ∧
          hash.region = ticket.region ∧ hash.updated = now) := by
  simp only [AllOrNothing, Bool.false_eq_true, if_false]
  rw [and_comm]
  refine and_congr ?_ ?_
  · cases hran : transport.executed 0 with
    | false =>
      rw [hran] at htickets
      simp [htickets]
    | true =>
      rw [hran, if_pos rfl] at htickets
      cases hheld : before.tickets.lookup ticket.token with
      | some held => simp [htickets, hheld, afterSet]
      | none =>
        rw [hheld] at htickets
        rw [redeem_stored hrange hfits htickets, htickets]
        by_cases hplayer : ticket.playerId = [] <;> simp [hplayer, afterSet]
  · rw [hpresence]
    cases hran : transport.executed 1 with
    | false => simp
    | true =>
      cases htakes : takes ticket.fromShard (before.presence.lookup ticket.playerId) with
      | false => simp [afterTransfer, htakes]
      | true => simp [afterTransfer_eq_self_iff ticket now htakes]

/-- Exactly when a handoff is published whole or not at all, whatever the transport does
to the pipeline and to the clean-up. -/
theorem publishAndTransfer_allOrNothing_iff (ticket : MigrationTicket) (hrange : ticket.InRange)
    (ttl presenceTtl stampedAt queuedAt : Nat) (hnow : stampedAt < 2 ^ 64)
    (pipeline cleanup : Transport) (before : Redis) :
    AllOrNothing (stamp ticket stampedAt) before
      (publishAndTransfer ticket ttl presenceTtl stampedAt queuedAt pipeline cleanup before) ↔
    PublishSafe (stamp ticket stampedAt) queuedAt pipeline cleanup before := by
  have hrange := inRange_stamp hrange hnow
  unfold publishAndTransfer
  generalize stamp ticket stampedAt = stamped at hrange ⊢
  dsimp only
  by_cases hfits : encodeMigrationTicket stamped = []
  · simp [hfits, AllOrNothing, PublishSafe]
  rw [if_neg (by simpa using hfits), PublishSafe, or_iff_right hfits]
  obtain ⟨htickets, hpresence, hjudge⟩ := flush_publish stamped (encodeMigrationTicket stamped) ttl
    presenceTtl queuedAt pipeline before
  generalize redisFlush pipeline _ before = outcome at htickets hpresence hjudge ⊢
  obtain ⟨after, replies⟩ := outcome
  dsimp only at htickets hpresence hjudge ⊢
  rw [hjudge]
  have hfailed := allOrNothing_failed_iff hrange hfits htickets hpresence
  cases hfresh : pipeline.fresh with
  | false => simpa using hfailed
  | true =>
    cases hheld : before.tickets.lookup stamped.token with
    | some held => simpa [verdict, hheld] using hfailed
    | none =>
      have hran := pipeline.executed_of_fresh hfresh
      rw [hran, if_pos rfl, hheld] at htickets
      rw [hran, if_pos rfl] at hpresence
      cases htakes : takes stamped.fromShard (before.presence.lookup stamped.playerId) with
      | true =>
        have hverdict : verdict stamped none (before.presence.lookup stamped.playerId) =
            .published := by simp [verdict, htakes]
        rw [if_pos rfl, hverdict]
        simp only [AllOrNothing, redeem_stored hrange hfits htickets]
        rw [hpresence, afterTransfer, if_pos htakes]
        by_cases hplayer : stamped.playerId = [] <;> simp [hplayer]
      | false =>
        obtain ⟨hkept, hdel⟩ := flush_delTicket stamped.token cleanup after
        have hverdict : verdict stamped none (before.presence.lookup stamped.playerId) =
            .discard := by simp [verdict, htakes]
        rw [if_pos rfl, hverdict]
        have hsame : afterTransfer stamped queuedAt (before.presence.lookup stamped.playerId) =
            before.presence.lookup stamped.playerId := if_neg (by simp [htakes])
        simp only [AllOrNothing]
        generalize (redisFlush cleanup _ after).1 = cleaned at hkept hdel
        rw [hkept, hpresence, hsame]
        cases hclean : cleanup.executed 0 with
        | true =>
          rw [hclean, if_pos rfl] at hdel
          simp [redeem_fst, hdel, hheld]
        | false =>
          rw [hclean, if_neg (by decide), htickets] at hdel
          rw [redeem_stored hrange hfits hdel, hdel]
          by_cases hplayer : stamped.playerId = [] <;> simp [hplayer, hheld, afterSet]

/-- A player "p" held by shard "a", and a ticket that hands it to shard "b". -/
def heldByA : Redis :=
  { presence := (∅ : Table Bytes PresenceHash).insert [112]
      { shard := [97], region := 0, session := some 9, updated := 1 } }

def handToB : MigrationTicket :=
  { token := 7, playerId := [112], fromShard := [97], toShard := [98], region := 1, issuedMs := 5 }

theorem handToB_fits : encodeMigrationTicket handToB ≠ [] := by decide +kernel

theorem handToB_inRange : handToB.InRange :=
  ⟨by decide, by decide, by decide, by decide, by decide⟩

/-- Redis executes the pipeline, its replies are lost, and the resent `SET` finds the
ticket in place: the call returns false with presence moved and the ticket redeemable. -/
theorem publish_lost_reply : ¬ AllOrNothing (stamp handToB 5) heldByA
    (publishAndTransfer handToB 10000 15000 5 6 ⟨.broken 2, .replied⟩ {} heldByA) := by
  have hstamp : stamp handToB 5 = handToB := rfl
  obtain ⟨htickets, hpresence, hjudge⟩ := flush_publish handToB (encodeMigrationTicket handToB)
    10000 15000 6 ⟨.broken 2, .replied⟩ heldByA
  have hresult : publishAndTransfer handToB 10000 15000 5 6 ⟨.broken 2, .replied⟩ {} heldByA =
      (false, (redisFlush ⟨.broken 2, .replied⟩ (publishCommands handToB
        (encodeMigrationTicket handToB) 10000 15000 6) heldByA).1) := by
    simp only [publishAndTransfer, hstamp, List.isEmpty_eq_false_iff.mpr handToB_fits, hjudge]
    rfl
  rw [hresult, hstamp, allOrNothing_failed_iff handToB_inRange handToB_fits htickets hpresence]
  intro h
  exact absurd (h.1 rfl rfl) (by decide)

/-- With a healthy transport the handoff is published whole. -/
theorem publishAndTransfer_allOrNothing_healthy : AllOrNothing (stamp handToB 5) heldByA
    (publishAndTransfer handToB 10000 15000 5 6 {} {} heldByA) :=
  (publishAndTransfer_allOrNothing_iff handToB handToB_inRange 10000 15000 5 6 (by decide) {} {}
    heldByA).mpr (Or.inr (by decide))

end MigrationStore
end Morton.Cluster
