import Morton.Base.Run
import Morton.Cluster.Migration

/-! Redeeming tickets at several shards. `GETDEL` takes the ticket out of Redis before the
shard looks at its address, so a ticket is good for one attempt, whoever makes it. -/
namespace Morton.Cluster
open Pipeline Proto

inductive Acceptance
  | accepted (ticket : MigrationTicket)
  /-- The ticket is addressed to another shard. -/
  | misdirected (ticket : MigrationTicket)
  /-- There is no ticket, or none that can be read. -/
  | rejected
  deriving DecidableEq

/-- `accept_handoff` of a shard on the reply to `GETDEL`. -/
def readAccept (shard : Bytes) (token : Nat) (replies : Option (List RedisReply)) : Acceptance :=
  match MigrationStore.readRedeem token replies with
  | none => .rejected
  | some ticket => if ticket.toShard ≠ shard then .misdirected ticket else .accepted ticket

def acceptHandoff (shard : Bytes) (token : Nat) (transport : Transport) (r : Redis) :
    Acceptance × Redis :=
  let (r, replies) := redisFlush transport [.getDelTicket token] r
  (readAccept shard token replies, r)

/-- What happens to the tickets in Redis, one atomic command at a time. -/
inductive RedeemStep
  /-- A shard's `GETDEL` is executed and answered. -/
  | accept (shard : Bytes) (token : Nat)
  /-- A `GETDEL` is executed, and its answer lost with the connection. -/
  | lost (token : Nat)
  /-- The time to live of a ticket is over. -/
  | expire (token : Nat)

structure Attempted where
  shard : Bytes
  token : Nat
  outcome : Acceptance
  deriving DecidableEq

namespace RedeemStep

def step (r : Redis) : RedeemStep → Redis
  | .accept _ token => (r.exec (.getDelTicket token)).1
  | .lost token => (r.exec (.getDelTicket token)).1
  | .expire token => { r with tickets := r.tickets.erase token }

/-- What the shard of an answered `GETDEL` makes of it. -/
def shows (r : Redis) : RedeemStep → Option Attempted
  | .accept shard token =>
    some { shard, token, outcome := readAccept shard token (some [(r.exec (.getDelTicket token)).2]) }
  | _ => none

def token : RedeemStep → Nat
  | .accept _ token => token
  | .lost token => token
  | .expire token => token

end RedeemStep

/-- One attempt of a call, or two. -/
def attempts (shard : Bytes) (token : Nat) : List Attempt → List RedeemStep
  | [] => []
  | .refused :: _ => []
  | .broken 0 :: rest => attempts shard token rest
  | .broken (_+1) :: rest => .lost token :: attempts shard token rest
  | .replied :: _ => [.accept shard token]

theorem sendLoop_getDelTicket (shard : Bytes) (token : Nat) (ends : List Attempt) (r : Redis) :
    (sendLoop Redis.exec [.getDelTicket token] ends r).1 =
        Run.run RedeemStep.step r (attempts shard token ends) ∧
      Run.log RedeemStep.step RedeemStep.shows r (attempts shard token ends) =
        (sendLoop Redis.exec [.getDelTicket token] ends r).2.toList.map fun replies =>
          { shard, token, outcome := readAccept shard token (some replies) } := by
  induction ends generalizing r with
  | nil => exact ⟨rfl, rfl⟩
  | cons first rest ih =>
    cases first with
    | refused => exact ⟨rfl, rfl⟩
    | broken executed =>
      cases executed with
      | zero => exact ih r
      | succ executed =>
        have htake : [RedisCommand.getDelTicket token].take (executed + 1) =
            [.getDelTicket token] := by simp
        rw [sendLoop, htake]
        exact ih (r.exec (.getDelTicket token)).1
    | replied => exact ⟨rfl, rfl⟩

/-- A call is made of these steps; without an answer it rejects. -/
theorem acceptHandoff_run (shard : Bytes) (token : Nat) (transport : Transport) (r : Redis) :
    let steps := attempts shard token [transport.first, transport.second]
    (acceptHandoff shard token transport r).2 = Run.run RedeemStep.step r steps ∧
      (Run.log RedeemStep.step RedeemStep.shows r steps =
          [{ shard, token, outcome := (acceptHandoff shard token transport r).1 }] ∨
        (Run.log RedeemStep.step RedeemStep.shows r steps = [] ∧
          (acceptHandoff shard token transport r).1 = .rejected)) := by
  intro steps
  obtain ⟨hstate, hlog⟩ := sendLoop_getDelTicket shard token [transport.first, transport.second] r
  refine ⟨hstate, ?_⟩
  have hcall : (acceptHandoff shard token transport r).1 = readAccept shard token
      (sendLoop Redis.exec [.getDelTicket token] [transport.first, transport.second] r).2 := rfl
  rw [hcall, hlog]
  cases (sendLoop Redis.exec [.getDelTicket token] [transport.first, transport.second] r).2 with
  | none => exact Or.inr ⟨rfl, rfl⟩
  | some replies => exact Or.inl rfl

/-- No step brings a ticket back, and the one of the step's token is gone. -/
theorem lookup_step (r : Redis) (s : RedeemStep) (token : Nat) :
    (s.step r).tickets.lookup token = if token = s.token then none else r.tickets.lookup token := by
  have hexec : ∀ other, (r.exec (.getDelTicket other)).1.tickets.lookup token =
      if token = other then none else r.tickets.lookup token := by
    intro other
    unfold Redis.exec
    dsimp only
    split
    · rw [Table.lookup_erase]
    next hnone =>
      split
      next heq => rw [heq, hnone]
      · rfl
  cases s with
  | accept shard other => exact hexec other
  | lost other => exact hexec other
  | expire other => exact Table.lookup_erase _ _ _

/-- Whoever is not rejected found the ticket in Redis. -/
theorem found_of_shows {r : Redis} {s : RedeemStep} {attempt : Attempted}
    (h : s.shows r = some attempt) (hfound : attempt.outcome ≠ .rejected) :
    attempt.token = s.token ∧ (r.tickets.lookup attempt.token).isSome := by
  cases s with
  | lost => cases h
  | expire => cases h
  | accept shard token =>
    cases h
    refine ⟨rfl, ?_⟩
    cases hlookup : r.tickets.lookup token with
    | some blob => rfl
    | none =>
      apply absurd _ hfound
      simp [Redis.exec, hlookup, readAccept, MigrationStore.readRedeem]

/-- The address is checked, and so is the token. -/
theorem readAccept_accepted {shard : Bytes} {token : Nat} {replies : Option (List RedisReply)}
    {ticket : MigrationTicket} (h : readAccept shard token replies = .accepted ticket) :
    ticket.token = token ∧ ticket.toShard = shard := by
  unfold readAccept at h
  split at h
  · cases h
  next found hread =>
    split at h
    · cases h
    next hshard =>
      cases h
      rw [ne_eq, Classical.not_not] at hshard
      refine ⟨?_, hshard⟩
      unfold MigrationStore.readRedeem at hread
      split at hread
      · exact eq_of_beq (Option.filter_eq_some_iff.mp hread).2
      · cases hread

/-- The attempts in a run. -/
def attempted (r : Redis) (steps : List RedeemStep) : List Attempted :=
  Run.log RedeemStep.step RedeemStep.shows r steps

/-- An attempt at the token that is not turned away empty-handed. -/
def Attempted.Takes (token : Nat) (attempt : Attempted) : Prop :=
  attempt.token = token ∧ attempt.outcome ≠ .rejected

instance (token : Nat) (attempt : Attempted) : Decidable (attempt.Takes token) :=
  inferInstanceAs (Decidable (_ ∧ _))

/-- Only a ticket that is there can be taken, and only once. -/
theorem takes_le (r : Redis) (steps : List RedeemStep) (token : Nat) :
    (attempted r steps).countP (fun attempt => decide (attempt.Takes token)) ≤
      if (r.tickets.lookup token).isSome then 1 else 0 := by
  unfold attempted
  induction steps generalizing r with
  | nil => exact Nat.zero_le _
  | cons s steps ih =>
    have hrest := ih (s.step r)
    rw [lookup_step] at hrest
    rw [Run.log, List.countP_append]
    cases hshows : s.shows r with
    | none =>
      rw [Option.toList_none, List.countP_nil, Nat.zero_add]
      apply hrest.trans
      split
      · exact Nat.zero_le _
      · exact le_rfl
    | some attempt =>
      rw [Option.toList_some, List.countP_singleton]
      by_cases htakes : attempt.Takes token
      · obtain ⟨htoken, hfound⟩ := htakes
        obtain ⟨hstep, hthere⟩ := found_of_shows hshows hfound
        rw [htoken] at hstep hthere
        rw [if_pos hstep] at hrest
        rw [if_pos hthere, if_pos (decide_eq_true ⟨htoken, hfound⟩)]
        exact Nat.add_le_add_left hrest 1
      · rw [if_neg (by simpa using htakes), Nat.zero_add]
        apply hrest.trans
        split
        · exact Nat.zero_le _
        · exact le_rfl

theorem lookup_run {r : Redis} {token : Nat} (h : r.tickets.lookup token = none)
    (steps : List RedeemStep) :
    (Run.run RedeemStep.step r steps).tickets.lookup token = none := by
  apply Run.invariant_always (fun r : Redis => r.tickets.lookup token = none) _ h
  intro r s hnone
  rw [lookup_step, hnone, ite_self]

/-- Once taken, the ticket is gone. -/
theorem lookup_of_takes {r : Redis} {steps : List RedeemStep} {token : Nat} {attempt : Attempted}
    (hattempt : attempt ∈ attempted r steps) (h : attempt.Takes token) :
    (Run.run RedeemStep.step r steps).tickets.lookup token = none := by
  unfold attempted at hattempt
  induction steps generalizing r with
  | nil => cases hattempt
  | cons s steps ih =>
    rw [Run.log, List.mem_append] at hattempt
    rw [Run.run_cons]
    cases hattempt with
    | inl hhere =>
      have hshows : s.shows r = some attempt := Option.mem_toList.mp hhere
      have hstep := (found_of_shows hshows h.2).1
      apply lookup_run
      rw [lookup_step, if_pos (h.1.symm.trans hstep)]
    | inr hlater => exact ih hlater

theorem eq_of_countP_le_one {α : Type} {p : α → Bool} {l : List α} (h : l.countP p ≤ 1) {a b : α}
    (ha : a ∈ l) (hb : b ∈ l) (hpa : p a = true) (hpb : p b = true) : a = b := by
  rw [List.countP_eq_length_filter] at h
  have ha' := List.mem_filter.mpr ⟨ha, hpa⟩
  have hb' := List.mem_filter.mpr ⟨hb, hpb⟩
  generalize l.filter p = kept at h ha' hb'
  cases kept with
  | nil => cases ha'
  | cons c kept =>
    cases kept with
    | nil =>
      rw [List.mem_singleton] at ha' hb'
      rw [ha', hb']
    | cons d kept => simp at h

/-- At most one attempt takes a ticket. It is accepted by the shard in its address, and an
attempt by any other shard leaves nothing for that one. -/
theorem ticket_taken_once (r : Redis) (steps : List RedeemStep) (token : Nat) :
    (attempted r steps).countP (fun attempt => decide (attempt.Takes token)) ≤ 1 ∧
    (∀ attempt ∈ attempted r steps, ∀ ticket, attempt.outcome = .accepted ticket →
      ticket.token = attempt.token ∧ ticket.toShard = attempt.shard) ∧
    ∀ attempt ∈ attempted r steps, attempt.token = token →
      ∀ ticket, attempt.outcome = .misdirected ticket →
        (Run.run RedeemStep.step r steps).tickets.lookup token = none ∧
        ∀ other ∈ attempted r steps, other.token = token →
          ∀ ticket', other.outcome ≠ .accepted ticket' := by
  have honce : (attempted r steps).countP (fun attempt => decide (attempt.Takes token)) ≤ 1 := by
    apply (takes_le r steps token).trans
    split
    · exact le_rfl
    · exact Nat.zero_le _
  refine ⟨honce, ?_, ?_⟩
  · intro attempt hattempt ticket houtcome
    obtain ⟨before, s, hshows⟩ := Run.exists_of_mem_log hattempt
    cases s with
    | lost => cases hshows
    | expire => cases hshows
    | accept shard other =>
      cases hshows
      exact readAccept_accepted houtcome
  · intro attempt hattempt htoken ticket houtcome
    have htakes : attempt.Takes token := ⟨htoken, by rw [houtcome]; exact Acceptance.noConfusion⟩
    refine ⟨lookup_of_takes hattempt htakes, ?_⟩
    intro other hother htoken' ticket' houtcome'
    have htakes' : other.Takes token := ⟨htoken', by rw [houtcome']; exact Acceptance.noConfusion⟩
    have hsame := eq_of_countP_le_one honce hattempt hother (decide_eq_true htakes)
      (decide_eq_true htakes')
    rw [hsame, houtcome'] at houtcome
    cases houtcome

/-- Redis with a ticket for shard "b". -/
def posted : Redis :=
  { tickets := (∅ : Table Nat Bytes).insert 7
      (encodeMigrationTicket { token := 7, playerId := [112], toShard := [98] }) }

/-- Shard "a" tries first. -/
theorem misdirected_ticket_destroyed :
    (attempted posted [.accept [97] 7, .accept [98] 7]).map Attempted.outcome =
      [.misdirected { token := 7, playerId := [112], toShard := [98] }, .rejected] ∧
    (attempted posted [.accept [98] 7]).map Attempted.outcome =
      [.accepted { token := 7, playerId := [112], toShard := [98] }] ∧
    (RedeemStep.step posted (.accept [97] 7)).tickets.lookup 7 = none := by
  decide +kernel

end Morton.Cluster
