import Morton.Cluster.Presence

/-! `MigrationStore`: publishing a ticket together with the presence transfer, and
redeeming it. -/
namespace Morton.Cluster
open Proto
namespace MigrationStore

/-- The ticket as it is stored. -/
def stamp (ticket : MigrationTicket) (now : Nat) : MigrationTicket :=
  if ticket.issuedMs = 0 then { ticket with issuedMs := now } else ticket

theorem stamp_same (ticket : MigrationTicket) (now : Nat) :
    (stamp ticket now).token = ticket.token ∧ (stamp ticket now).fromShard = ticket.fromShard ∧
      (stamp ticket now).playerId = ticket.playerId := by
  unfold stamp
  split <;> exact ⟨rfl, rfl, rfl⟩

def publishCommands (stamped : MigrationTicket) (blob : Bytes) (ttl presenceTtl now : Nat) :
    List RedisCommand :=
  [.setTicket stamped.token blob ttl,
    .transfer stamped.playerId stamped.fromShard stamped.toShard stamped.region now presenceTtl]

inductive Verdict
  | published
  /-- The transfer lost: the ticket is to be discarded. -/
  | discard
  | failed
  deriving DecidableEq

/-- How the two replies are judged. -/
def judge : Option (List RedisReply) → Verdict
  | some [first, second] =>
    if first ≠ .ok then .failed
    else if second ≠ .integer 1 then .discard
    else .published
  | _ => .failed

/-- `publish_and_transfer`. `stamped` and `queued` are the two readings of `wall_ms()`,
`pipeline` and `cleanup` what the transport does to the pipeline and to the `DEL`. -/
def publishAndTransfer (ticket : MigrationTicket) (ttl presenceTtl stampedAt queuedAt : Nat)
    (pipeline cleanup : Transport) (r : Redis) : Bool × Redis :=
  let stamped := stamp ticket stampedAt
  let blob := encodeMigrationTicket stamped
  if blob.isEmpty then (false, r)
  else
    let (r, replies) :=
      redisFlush pipeline (publishCommands stamped blob ttl presenceTtl queuedAt) r
    match judge replies with
    | .published => (true, r)
    | .discard => (false, (redisFlush cleanup [.delTicket stamped.token] r).1)
    | .failed => (false, r)

/-- `redeem` on the reply to `GETDEL`. -/
def readRedeem (token : Nat) : Option (List RedisReply) → Option MigrationTicket
  | some (.string blob :: _) => (decodeMigrationTicket blob).filter fun t => t.token == token
  | _ => none

/-- `redeem` while the transport holds. -/
def redeem (token : Nat) (r : Redis) : Option MigrationTicket × Redis :=
  let (r, replies) := redisFlush {} [.getDelTicket token] r
  (readRedeem token replies, r)

end MigrationStore
end Morton.Cluster
