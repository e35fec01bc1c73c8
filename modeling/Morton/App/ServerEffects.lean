import Morton.App.WorldServer

/-! What the handlers of a shard do to the parts that other processes can learn of: who is
resident under which token, which tickets are cached, what was told to whom. Every handler
but `join` only drops, redirects or keeps players. -/
namespace Morton.App
open Proto Sim Cluster

/-- Neither a redirect nor a join. -/
def Trace.quiet : Trace → Bool
  | .published _ => true
  | .denied _ => true
  | .redirected _ _ => false
  | .joined _ _ _ => false

/-- The credential a task admits, once Redis has answered. -/
def Task.credential : Task → Option ConnectCredential
  | .admitSession credential _ => some credential
  | .admitTicket credential _ => some credential
  | _ => none

def Task.handsOff : Task → Bool
  | .handoff _ _ _ _ _ _ => true
  | _ => false

namespace WorldServer
variable {R A : Type}

/-- The tables of a shard agree: no admission is open, clients are numbered in order, and
each player is the one its id leads to, on a live connection. -/
structure Tidy (w : WorldServer R A) : Prop where
  pending : w.pendingAdmits = ∅
  numbered : ∀ client player, w.players.lookup client = some player → client < w.nextClient
  indexed : ∀ client player, w.players.lookup client = some player →
    w.byPlayerId.lookup player.playerId = some client ∧ client ∈ w.connections

/-- `w'` comes from `w` and nobody joined or was redirected in between. -/
structure Continues (w w' : WorldServer R A) : Prop where
  tidy : w.Tidy → w'.Tidy
  config : w'.config = w.config
  identity : w'.coordinator.config = w.coordinator.config
  rng : w'.coordinator.rng = w.coordinator.rng
  draws : w.coordinator.draws ≤ w'.coordinator.draws
  players : ∀ client player', w'.players.lookup client = some player' →
    ∃ player, w.players.lookup client = some player ∧ player'.playerId = player.playerId ∧
      player'.sessionToken = player.sessionToken ∧ player'.redirecting = player.redirecting
  cached : ∀ token ticket, w'.redeemedTickets.lookup token = some ticket →
    w.redeemedTickets.lookup token = some ticket
  trace : ∃ more, w'.trace = w.trace ++ more ∧ ∀ t ∈ more, t.quiet = true

theorem Continues.refl (w : WorldServer R A) : w.Continues w where
  tidy := id
  config := rfl
  identity := rfl
  rng := rfl
  draws := Nat.le_refl _
  players _ player h := ⟨player, h, rfl, rfl, rfl⟩
  cached _ _ := id
  trace := ⟨[], by simp⟩

theorem Continues.trans {w w' w'' : WorldServer R A} (h : w.Continues w') (h' : w'.Continues w'') :
    w.Continues w'' where
  tidy := h'.tidy ∘ h.tidy
  config := h'.config.trans h.config
  identity := h'.identity.trans h.identity
  rng := h'.rng.trans h.rng
  draws := h.draws.trans h'.draws
  players client player'' hplayer'' := by
    obtain ⟨player', hplayer', hid', htoken', hredirecting'⟩ := h'.players client player'' hplayer''
    obtain ⟨player, hplayer, hid, htoken, hredirecting⟩ := h.players client player' hplayer'
    exact ⟨player, hplayer, hid'.trans hid, htoken'.trans htoken,
      hredirecting'.trans hredirecting⟩
  cached token ticket := h.cached token ticket ∘ h'.cached token ticket
  trace := by
    obtain ⟨more, hmore, hquiet⟩ := h.trace
    obtain ⟨more', hmore', hquiet'⟩ := h'.trace
    refine ⟨more ++ more', by rw [hmore', hmore, List.append_assoc], fun t ht => ?_⟩
    rcases List.mem_append.mp ht with ht | ht
    · exact hquiet t ht
    · exact hquiet' t ht

/-- Steps that touch none of the tables. -/
theorem Continues.of_tables {w w' : WorldServer R A} (hconfig : w'.config = w.config)
    (hcoordinator : w'.coordinator = w.coordinator) (hpending : w'.pendingAdmits = w.pendingAdmits)
    (hnext : w'.nextClient = w.nextClient) (hindex : w'.byPlayerId = w.byPlayerId)
    (hconnections : w'.connections = w.connections) (hplayers : w'.players = w.players)
    (hcached : ∀ token ticket, w'.redeemedTickets.lookup token = some ticket →
      w.redeemedTickets.lookup token = some ticket)
    (htrace : ∃ more, w'.trace = w.trace ++ more ∧ ∀ t ∈ more, t.quiet = true) :
    w.Continues w' where
  tidy h := by
    refine ⟨hpending.trans h.pending, ?_, ?_⟩
    · rw [hplayers, hnext]
      exact h.numbered
    · rw [hplayers, hindex, hconnections]
      exact h.indexed
  config := hconfig
  identity := by rw [hcoordinator]
  rng := by rw [hcoordinator]
  draws := by rw [hcoordinator]
  players _ player hplayer := ⟨player, hplayers ▸ hplayer, rfl, rfl, rfl⟩
  cached := hcached
  trace := htrace

theorem continues_deny (w : WorldServer R A) (reason : DenyReason) :
    w.Continues (w.deny reason).1 :=
  .of_tables rfl rfl rfl rfl rfl rfl rfl (fun _ _ => id) ⟨[.denied reason], rfl, by simp [Trace.quiet]⟩

theorem continues_publish (w : WorldServer R A) (p : Publication) :
    w.Continues { w with trace := w.trace ++ [.published p] } :=
  .of_tables rfl rfl rfl rfl rfl rfl rfl (fun _ _ => id) ⟨[.published p], rfl, by simp [Trace.quiet]⟩

/-- Rewriting a player under its name. -/
theorem continues_setPlayer {w : WorldServer R A} {client : Nat} {player player' : WorldPlayer R}
    (hplayer : w.players.lookup client = some player) (hid : player'.playerId = player.playerId)
    (htoken : player'.sessionToken = player.sessionToken)
    (hredirecting : player'.redirecting = player.redirecting) :
    w.Continues { w with players := w.players.insert client player' } where
  tidy h := by
    refine ⟨h.pending, fun c other hother => ?_, fun c other hother => ?_⟩
    · rw [Table.lookup_insert] at hother
      split at hother
      · exact ‹c = client› ▸ h.numbered client player hplayer
      · exact h.numbered c other hother
    · rw [Table.lookup_insert] at hother
      split at hother
      · cases hother
        rw [hid, ‹c = client›]
        exact h.indexed client player hplayer
      · exact h.indexed c other hother
  config := rfl
  identity := rfl
  rng := rfl
  draws := Nat.le_refl _
  players c other hother := by
    rw [Table.lookup_insert] at hother
    split at hother
    · cases hother
      exact ⟨player, ‹c = client› ▸ hplayer, hid, htoken, hredirecting⟩
    · exact ⟨other, hother, rfl, rfl, rfl⟩
  cached _ _ := id
  trace := ⟨[], by simp⟩

/-- A player leaves: its entry goes, and its id leads nowhere or to somebody else. -/
theorem continues_drop {w w' : WorldServer R A} {client : Nat} {player : WorldPlayer R}
    (hplayer : w.players.lookup client = some player)
    (hplayers : w'.players = w.players.erase client)
    (hindex : ∀ id, id ≠ player.playerId → w'.byPlayerId.lookup id = w.byPlayerId.lookup id)
    (hconnections : ∀ c, c ≠ client → c ∈ w.connections → c ∈ w'.connections)
    (hconfig : w'.config = w.config) (hcoordinator : w'.coordinator = w.coordinator)
    (hpending : w'.pendingAdmits = w.pendingAdmits) (hnext : w'.nextClient = w.nextClient)
    (hcached : w'.redeemedTickets = w.redeemedTickets) (htrace : w'.trace = w.trace) :
    w.Continues w' where
  tidy h := by
    refine ⟨hpending.trans h.pending, fun c other hother => ?_, fun c other hother => ?_⟩
    · rw [hplayers] at hother
      rw [hnext]
      exact h.numbered c other (Table.lookup_erase_some hother).2
    · rw [hplayers] at hother
      obtain ⟨hne, hother⟩ := Table.lookup_erase_some hother
      obtain ⟨hindexed, hconnected⟩ := h.indexed c other hother
      -- no second player goes by the id of the one that leaves
      have hid : other.playerId ≠ player.playerId := by
        intro hsame
        rw [hsame, (h.indexed client player hplayer).1] at hindexed
        exact hne (Option.some.inj hindexed).symm
      exact ⟨(hindex _ hid).trans hindexed, hconnections c hne hconnected⟩
  config := hconfig
  identity := by rw [hcoordinator]
  rng := by rw [hcoordinator]
  draws := by rw [hcoordinator]
  players c other hother := by
    rw [hplayers] at hother
    exact ⟨other, (Table.lookup_erase_some hother).2, rfl, rfl, rfl⟩
  cached _ _ h := hcached ▸ h
  trace := ⟨[], by simp [htrace]⟩

/-- A disconnected client is out of the tables. -/
theorem continues_disconnect (w : WorldServer R A) (client now : Nat) :
    w.Continues (w.disconnect client now) := by
  unfold disconnect
  split
  · cases hplayer : w.players.lookup client with
    | none =>
      simp only [onDisconnect, hplayer]
      refine ⟨fun h => ⟨h.pending, h.numbered, fun c other hother => ?_⟩, rfl, rfl, rfl, Nat.le_refl _,
        fun _ other hother => ⟨other, hother, rfl, rfl, rfl⟩, fun _ _ => id, ⟨[], by simp⟩⟩
      have hne : c ≠ client := by
        intro hsame
        rw [hsame] at hother
        cases hplayer.symm.trans hother
      exact ⟨(h.indexed c other hother).1, Finset.mem_erase.mpr ⟨hne, (h.indexed c other hother).2⟩⟩
    | some player =>
      simp only [onDisconnect, hplayer]
      refine continues_drop hplayer rfl (fun id hid => ?_)
        (fun c hne hc => Finset.mem_erase.mpr ⟨hne, hc⟩) rfl rfl rfl rfl rfl rfl
      dsimp only
      split
      · rw [Table.lookup_erase, if_neg hid]
      · rfl
  · exact Continues.refl w

theorem lookup_disconnect {w : WorldServer R A} {client : Nat} (hclient : client ∈ w.connections)
    (now : Nat) : (w.disconnect client now).players.lookup client = none := by
  rw [disconnect, if_pos hclient]
  cases hplayer : w.players.lookup client with
  | none => simp only [onDisconnect, hplayer]
  | some player => simp only [onDisconnect, hplayer, Finmap.lookup_erase]

theorem continues_replaceStale (w : WorldServer R A) (playerId : Bytes) (client now : Nat) :
    w.Continues (w.replaceStale playerId client now) := by
  unfold replaceStale
  split
  · split
    · exact w.continues_disconnect _ now
    · exact Continues.refl w
  · exact Continues.refl w

/-- Nobody but `client` goes by the id afterwards. -/
theorem replaceStale_alone {w : WorldServer R A} (h : w.Tidy) {playerId : Bytes} {client now : Nat}
    {c : Nat} {player : WorldPlayer R}
    (hplayer : (w.replaceStale playerId client now).players.lookup c = some player)
    (hid : player.playerId = playerId) : c = client := by
  obtain ⟨old, hold, hsame, -, -⟩ := (w.continues_replaceStale playerId client now).players c player
    hplayer
  obtain ⟨hindex, hconnected⟩ := h.indexed c old hold
  rw [← hsame, hid] at hindex
  by_contra hne
  rw [replaceStale, hindex] at hplayer
  simp only [ne_eq, hne, not_false_eq_true, if_true] at hplayer
  cases (lookup_disconnect hconnected now).symm.trans hplayer

theorem replaceStale_keeps (w : WorldServer R A) (playerId : Bytes) (client now : Nat) :
    (w.replaceStale playerId client now).nextClient = w.nextClient ∧
      (client ∈ w.connections → client ∈ (w.replaceStale playerId client now).connections) := by
  unfold replaceStale
  split
  · rename_i stale hstale
    split
    · rename_i hne
      unfold disconnect
      split
      · refine ⟨?_, fun hclient => Finset.mem_erase.mpr ⟨Ne.symm hne, ?_⟩⟩ <;>
          · unfold onDisconnect
            split <;> first | rfl | exact hclient
      · exact ⟨rfl, id⟩
    · exact ⟨rfl, id⟩
  · exact ⟨rfl, id⟩

theorem continues_dropExpired (w : WorldServer R A) (now client : Nat) :
    w.Continues (w.dropExpired now client) := by
  unfold dropExpired
  split
  · exact w.continues_disconnect client now
  · split
    · exact Continues.refl w
    · rename_i player hplayer
      refine continues_drop hplayer rfl (fun id hid => ?_) (fun _ _ hc => hc) rfl rfl rfl rfl rfl rfl
      rw [Table.lookup_erase, if_neg hid]

/-- A loop of such steps. -/
theorem continues_foldl {β : Type} (f : WorldServer R A → β → WorldServer R A)
    (hf : ∀ w b, Continues w (f w b)) (w : WorldServer R A) (bs : List β) :
    w.Continues (bs.foldl f w) := by
  induction bs generalizing w with
  | nil => exact Continues.refl w
  | cons b bs ih => exact (hf w b).trans (ih (f w b))

theorem continues_expire (w : WorldServer R A) (now : Nat) : w.Continues (w.expire now) := by
  refine .of_tables rfl rfl rfl rfl rfl rfl rfl (fun token ticket h => ?_) ⟨[], by simp [expire]⟩
  rw [expire, Table.lookup_sift, Option.filter_eq_some_iff] at h
  exact h.1

theorem continues_setCoordinator (w : WorldServer R A) {coordinator : ShardCoordinator}
    (hconfig : coordinator.config = w.coordinator.config)
    (hrng : coordinator.rng = w.coordinator.rng)
    (hdraws : w.coordinator.draws ≤ coordinator.draws) : w.Continues { w with coordinator } where
  tidy h := ⟨h.pending, h.numbered, h.indexed⟩
  config := rfl
  identity := hconfig
  rng := hrng
  draws := hdraws
  players _ player h := ⟨player, h, rfl, rfl, rfl⟩
  cached _ _ := id
  trace := ⟨[], by simp⟩

theorem continues_refresh (w : WorldServer R A) (members : List ShardInfo) :
    w.Continues { w with coordinator := w.coordinator.refresh members } := by
  refine w.continues_setCoordinator ?_ ?_ ?_ <;>
    · unfold ShardCoordinator.refresh
      split <;> simp [ShardCoordinator.recomputeOwnership]

/-- A redirect hands the token out and stops the player; nothing else changes. -/
theorem redirect_cases (w : WorldServer R A) (client : Nat) (plan : HandoffPlan) :
    w.redirect client plan = w ∨
    ∃ player, w.players.lookup client = some player ∧
      w.redirect client plan =
        { w with
          trace := w.trace ++ [.redirected client
            { ticket := plan.token, region := plan.targetRegion, endpoint := plan.targetEndpoint
              shardId := plan.targetShard }]
          players := w.players.insert client
            { player with
              redirecting := true
              redirectDeadline := (w.world.tick + w.config.redirectGraceTicks) % 2 ^ 32 } } := by
  unfold redirect
  dsimp only
  split
  · exact Or.inl rfl
  · rename_i player hplayer
    split
    · exact Or.inl rfl
    · exact Or.inr ⟨player, hplayer, rfl⟩

/-- The shard that `on_connect` finds: the client numbered and connected. -/
def numberClient (w : WorldServer R A) (playerId : Bytes) : WorldServer R A :=
  { w with
    nextClient := w.nextClient + 1
    pendingByPlayer := (w.pendingByPlayer.insert playerId w.nextClient).erase playerId
    connections := insert w.nextClient w.connections }

theorem tidy_numberClient {w : WorldServer R A} (h : w.Tidy) (playerId : Bytes) :
    (w.numberClient playerId).Tidy where
  pending := h.pending
  numbered c player hplayer := Nat.lt_succ_of_lt (h.numbered c player hplayer)
  indexed c player hplayer :=
    ⟨(h.indexed c player hplayer).1, Finset.mem_insert_of_mem (h.indexed c player hplayer).2⟩

/-- The record is of a player that stays on the shard. -/
def Hosts (w : WorldServer R A) (record : PresenceRecord) : Prop :=
  ∃ client player, w.players.lookup client = some player ∧ player.redirecting = false ∧
    record = w.record player

/-- `w'` is `w` after a join under the next client id; an older session is replaced. -/
structure Joins (w w' : WorldServer R A) (credential : ConnectCredential)
    (ticket : Option MigrationTicket) : Prop where
  tidy : w'.Tidy
  config : w'.config = w.config
  identity : w'.coordinator.config = w.coordinator.config
  rng : w'.coordinator.rng = w.coordinator.rng
  draws : w.coordinator.draws ≤ w'.coordinator.draws
  newcomer : ∃ player, w'.players.lookup w.nextClient = some player ∧
    player.playerId = credential.playerId ∧ player.sessionToken = credential.token ∧
    player.redirecting = false
  others : ∀ client player', w'.players.lookup client = some player' → client ≠ w.nextClient →
    player'.playerId ≠ credential.playerId ∧
    ∃ player, w.players.lookup client = some player ∧ player'.playerId = player.playerId ∧
      player'.sessionToken = player.sessionToken ∧ player'.redirecting = player.redirecting
  cached : ∀ token ticket, w'.redeemedTickets.lookup token = some ticket →
    w.redeemedTickets.lookup token = some ticket
  trace : ∃ more, w'.trace = w.trace ++ more ++ [.joined w.nextClient credential ticket] ∧
    ∀ t ∈ more, t.quiet = true

/-- A handoff under way: its token is the last one drawn, and its player is resident. -/
structure Handing (w : WorldServer R A) (client : Nat) (plan : HandoffPlan)
    (stamped : MigrationTicket) : Prop where
  drawn : 0 < w.coordinator.draws
  token : stamped.token = w.coordinator.tokenAt (w.coordinator.draws - 1)
  plan : plan.token = stamped.token
  source : stamped.fromShard = w.coordinator.config.id
  resident : ∃ player, w.players.lookup client = some player ∧ player.redirecting = false ∧
    player.playerId = stamped.playerId

/-- What holds of the shard while a handler waits at a task. -/
def Awaits (w : WorldServer R A) : Task → Prop
  | .admitSession credential _ => credential.kind = .session
  | .admitTicket credential _ => credential.kind = .migration
  | .touch record _ => w.Hosts record
  | .handoff client plan stamped _ _ _ => w.Handing client plan stamped
  | .discard _ _ _ => True
  | .heartbeat records _ => ∀ record ∈ records, w.Hosts record

/-- What a handler started in `w` can end in: `asks` are the credentials it may ask Redis
about, `admits` those it may let in and with which ticket. -/
inductive Outcome (w : WorldServer R A) (asks : ConnectCredential → Prop)
    (admits : ConnectCredential → Option MigrationTicket → Prop) : Progress R A → Prop
  | idle {w' : WorldServer R A} (h : w.Continues w') : Outcome w asks admits (w', none)
  | waits {w' : WorldServer R A} {task : Task} (h : w.Continues w')
      (hadvertise : w.config.advertise = true) (hawaits : w'.Awaits task)
      (hasks : ∀ credential, task.credential = some credential → asks credential)
      (hdraws : task.handsOff = true → w.coordinator.draws < w'.coordinator.draws) :
      Outcome w asks admits (w', some task)
  | joins {w' : WorldServer R A} {task : Option Task} {credential : ConnectCredential}
      {ticket : Option MigrationTicket} (h : w.Joins w' credential ticket)
      (hadmits : admits credential ticket)
      (htask : task = none ∨ w.config.advertise = true ∧ ∃ record now,
        task = some (.touch record now) ∧ w'.Hosts record) :
      Outcome w asks admits (w', task)

theorem hosts_heartbeatRecords {w : WorldServer R A} {roster : List Nat} {record : PresenceRecord}
    (h : record ∈ w.heartbeatRecords roster) : w.Hosts record := by
  obtain ⟨player, hplayer, hrecord⟩ := List.mem_filterMap.mp h
  obtain ⟨client, -, hlookup⟩ := List.mem_filterMap.mp hplayer
  split at hrecord
  · cases hrecord
  · rename_i hstays
    cases hrecord
    exact ⟨client, player, hlookup, by simpa using hstays, rfl⟩

theorem outcome_refreshCluster {w : WorldServer R A} (now : Nat) (roster : List Nat)
    {asks : ConnectCredential → Prop}
    {admits : ConnectCredential → Option MigrationTicket → Prop} :
    Outcome w asks admits (w.refreshCluster now roster) := by
  unfold refreshCluster
  split
  · exact .idle (.refl w)
  · rename_i hdue
    rw [not_or] at hdue
    refine .waits ?_ (by simpa using hdue.1) (fun record hrecord => ?_) (fun c hc => by cases hc)
      (fun hc => by cases hc)
    · exact .of_tables rfl rfl rfl rfl rfl rfl rfl (fun _ _ => id) ⟨[], by simp⟩
    · exact hosts_heartbeatRecords hrecord

/-- The ticket a reply to `accept_handoff` brings. -/
def redeemed (w : WorldServer R A) (token : Nat) (replies : Option (List RedisReply)) :
    Option MigrationTicket :=
  (MigrationStore.readRedeem token replies).filter fun ticket =>
    ticket.toShard == w.coordinator.config.id

/-- The shard once it has taken in the answer to a task, before the handler goes on. -/
def heard (w : WorldServer R A) (replies : Option (List RedisReply)) : Task → WorldServer R A
  | .admitTicket credential _ =>
    match w.redeemed credential.token replies with
    | none => w
    | some ticket => { w with redeemedTickets := w.redeemedTickets.insert credential.token ticket }
  | .handoff client plan _ _ _ _ =>
    if MigrationStore.judge replies = .published then w.redirect client plan else w
  | _ => w

/-- An answer moves nobody in: it caches a ticket, or stops a player that is handed over
and tells it the token. -/
structure Hears (w w' : WorldServer R A) (replies : Option (List RedisReply)) (task : Task) :
    Prop where
  tidy : w.Tidy → w'.Tidy
  config : w'.config = w.config
  coordinator : w'.coordinator = w.coordinator
  players : ∀ client player', w'.players.lookup client = some player' →
    ∃ player, w.players.lookup client = some player ∧ player'.playerId = player.playerId ∧
      player'.sessionToken = player.sessionToken ∧
      (player'.redirecting = false → player.redirecting = false)
  cached : ∀ token ticket, w'.redeemedTickets.lookup token = some ticket →
    w.redeemedTickets.lookup token = some ticket ∨
    ∃ credential admittedMs, task = .admitTicket credential admittedMs ∧
      token = credential.token ∧ w.redeemed token replies = some ticket
  trace : w'.trace = w.trace ∨
    ∃ client plan stamped sentMs rest expired event,
      task = .handoff client plan stamped sentMs rest expired ∧ event.ticket = plan.token ∧
      w'.trace = w.trace ++ [.redirected client event]

theorem Hears.refl (w : WorldServer R A) (replies : Option (List RedisReply)) (task : Task) :
    w.Hears w replies task where
  tidy := id
  config := rfl
  coordinator := rfl
  players _ player h := ⟨player, h, rfl, rfl, id⟩
  cached _ _ := Or.inl
  trace := Or.inl rfl

theorem hears_heard (w : WorldServer R A) (replies : Option (List RedisReply)) (task : Task) :
    w.Hears (w.heard replies task) replies task := by
  cases task with
  | admitTicket credential admittedMs =>
    simp only [heard]
    cases hredeemed : w.redeemed credential.token replies with
    | none => exact .refl w replies _
    | some ticket =>
      refine ⟨fun h => ⟨h.pending, h.numbered, h.indexed⟩, rfl, rfl,
        fun _ player h => ⟨player, h, rfl, rfl, id⟩, fun token cached hcached => ?_, Or.inl rfl⟩
      dsimp only at hcached
      rw [Table.lookup_insert] at hcached
      split at hcached
      · cases hcached
        rw [‹token = _›]
        exact Or.inr ⟨credential, admittedMs, rfl, rfl, hredeemed⟩
      · exact Or.inl hcached
  | handoff client plan stamped sentMs rest expired =>
    simp only [heard]
    split
    · rcases w.redirect_cases client plan with hsame | ⟨player, hplayer, hsame⟩
      · rw [hsame]
        exact .refl w replies _
      · rw [hsame]
        refine ⟨fun h => ⟨h.pending, fun c other hother => ?_, fun c other hother => ?_⟩, rfl, rfl,
          fun c other hother => ?_, fun _ _ => Or.inl,
          Or.inr ⟨client, plan, stamped, sentMs, rest, expired, _, rfl, rfl, rfl⟩⟩
        all_goals
          dsimp only at hother
          rw [Table.lookup_insert] at hother
          split at hother
        · exact ‹c = client› ▸ h.numbered client player hplayer
        · exact h.numbered c other hother
        · cases hother
          exact ‹c = client› ▸ h.indexed client player hplayer
        · exact h.indexed c other hother
        · cases hother
          exact ⟨player, ‹c = client› ▸ hplayer, rfl, rfl, fun hfalse => by cases hfalse⟩
        · exact ⟨other, hother, rfl, rfl, id⟩
    · exact .refl w replies _
  | admitSession credential admittedMs => exact .refl w replies _
  | touch record sentMs => exact .refl w replies _
  | discard token rest expired => exact .refl w replies _
  | heartbeat records heartbeatMs => exact .refl w replies _

/-- What a handler leaves, seen from the state in which it took in its answer: nothing told
is unsaid, and newcomers are those it may admit, under their own tokens. -/
structure Leaves (w : WorldServer R A) (admits : ConnectCredential → Option MigrationTicket → Prop)
    (w' : WorldServer R A) : Prop where
  config : w'.config = w.config
  trace : ∀ t ∈ w.trace, t ∈ w'.trace
  joined : ∀ client credential ticket, .joined client credential ticket ∈ w'.trace →
    .joined client credential ticket ∈ w.trace ∨ admits credential ticket
  players : ∀ client player', w'.players.lookup client = some player' →
    (∃ player, w.players.lookup client = some player ∧
      player'.sessionToken = player.sessionToken) ∨
    ∃ newcomer credential ticket, admits credential ticket ∧
      player'.sessionToken = credential.token ∧ .joined newcomer credential ticket ∈ w'.trace

theorem Continues.leaves {w w' : WorldServer R A} (h : w.Continues w')
    (admits : ConnectCredential → Option MigrationTicket → Prop) : w.Leaves admits w' := by
  obtain ⟨more, hmore, hquiet⟩ := h.trace
  refine ⟨h.config, fun t ht => hmore ▸ List.mem_append_left _ ht, fun c credential ticket ht => ?_,
    fun c player' hplayer' => ?_⟩
  · rw [hmore] at ht
    rcases List.mem_append.mp ht with ht | ht
    · exact Or.inl ht
    · cases hquiet _ ht
  · obtain ⟨player, hplayer, -, htoken, -⟩ := h.players c player' hplayer'
    exact Or.inl ⟨player, hplayer, htoken⟩

theorem Outcome.leaves {w : WorldServer R A} {asks : ConnectCredential → Prop}
    {admits : ConnectCredential → Option MigrationTicket → Prop} {progress : Progress R A}
    (h : Outcome w asks admits progress) : w.Leaves admits progress.1 := by
  cases h with
  | idle h => exact h.leaves admits
  | waits h => exact h.leaves admits
  | @joins w' task credential ticket h hadmits htask =>
    obtain ⟨more, hmore, hquiet⟩ := h.trace
    have hjoined : .joined w.nextClient credential ticket ∈ w'.trace := by
      rw [hmore]
      exact List.mem_append_right _ (List.mem_singleton_self _)
    refine ⟨h.config, fun t ht => ?_, fun c other ticket' ht => ?_, fun c player' hplayer' => ?_⟩
    · rw [hmore]
      exact List.mem_append_left _ (List.mem_append_left _ ht)
    · rw [hmore] at ht
      rcases List.mem_append.mp ht with ht | ht
      · rcases List.mem_append.mp ht with ht | ht
        · exact Or.inl ht
        · cases hquiet _ ht
      · cases List.mem_singleton.mp ht
        exact Or.inr hadmits
    · by_cases hc : c = w.nextClient
      · obtain ⟨player, hplayer, -, htoken, -⟩ := h.newcomer
        rw [hc, hplayer] at hplayer'
        cases hplayer'
        exact Or.inr ⟨_, credential, ticket, hadmits, htoken, hjoined⟩
      · obtain ⟨-, player, hplayer, -, htoken, -⟩ := h.others c player' hplayer' hc
        exact Or.inl ⟨player, hplayer, htoken⟩

theorem Outcome.coordinator {w : WorldServer R A} {asks : ConnectCredential → Prop}
    {admits : ConnectCredential → Option MigrationTicket → Prop} {progress : Progress R A}
    (h : Outcome w asks admits progress) :
    progress.1.coordinator.rng = w.coordinator.rng ∧
      w.coordinator.draws ≤ progress.1.coordinator.draws := by
  cases h with
  | idle h => exact ⟨h.rng, h.draws⟩
  | waits h => exact ⟨h.rng, h.draws⟩
  | joins h => exact ⟨h.rng, h.draws⟩

/-- The same from before the answer was taken in. -/
theorem Hears.leaves {w w' w'' : WorldServer R A} {replies : Option (List RedisReply)} {task : Task}
    {admits : ConnectCredential → Option MigrationTicket → Prop} (h : w.Hears w' replies task)
    (h' : w'.Leaves admits w'') : w.Leaves admits w'' where
  config := h'.config.trans h.config
  trace t ht := by
    refine h'.trace t ?_
    rcases h.trace with hsame | ⟨_, _, _, _, _, _, _, -, -, hsame⟩
    · rwa [hsame]
    · rw [hsame]
      exact List.mem_append_left _ ht
  joined client credential ticket ht := by
    refine (h'.joined client credential ticket ht).imp_left fun ht => ?_
    rcases h.trace with hsame | ⟨_, _, _, _, _, _, _, -, -, hsame⟩
    · rwa [hsame] at ht
    · rw [hsame] at ht
      rcases List.mem_append.mp ht with ht | ht
      · exact ht
      · cases List.mem_singleton.mp ht
  players client player'' hplayer'' := by
    refine (h'.players client player'' hplayer'').imp_left ?_
    rintro ⟨player', hplayer', htoken'⟩
    obtain ⟨player, hplayer, -, htoken, -⟩ := h.players client player' hplayer'
    exact ⟨player, hplayer, htoken'.trans htoken⟩

/-- Whom `admit` lets in on an answer of Redis. -/
def AdmitsHeard (w : WorldServer R A) (replies : Option (List RedisReply)) (task : Task)
    (credential : ConnectCredential) (ticket : Option MigrationTicket) : Prop :=
  task.credential = some credential ∧
    ((credential.kind = .session ∧ ticket = none ∧
        ∃ record, readPresence credential.playerId replies = some record ∧
          record.sessionToken = credential.token ∧ record.shardId = w.config.shardId) ∨
      (credential.kind = .migration ∧ ∃ heard, ticket = some heard ∧
        w.redeemed credential.token replies = some heard ∧
        heard.playerId = credential.playerId))

section
variable [LT R] (env : ShardEnv R A)

theorem continues_onPayload (w : WorldServer R A) (client : Nat)
    (packet : Option (InputPacket A)) : w.Continues (w.onPayload env client packet) := by
  unfold onPayload
  split
  · rename_i player packet hplayer
    split
    · exact Continues.refl w
    · dsimp only
      refine (continues_setPlayer hplayer ?_ ?_ ?_).trans
        (.of_tables rfl rfl rfl rfl rfl rfl rfl (fun _ _ => id) ⟨[], by simp⟩)
      all_goals split <;> rfl
  · exact Continues.refl w

/-- The loop ends, or stops at a handoff whose token it has drawn. -/
theorem checkMigrations_effect (now : Nat) (w : WorldServer R A) (rest expired : List Nat) :
    w.Continues (checkMigrations env now w rest expired).1 ∧
    ((checkMigrations env now w rest expired).2 = none ∨
      ∃ client plan stamped rest' expired',
        (checkMigrations env now w rest expired).2 =
          some (.handoff client plan stamped now rest' expired') ∧
        w.coordinator.draws < (checkMigrations env now w rest expired).1.coordinator.draws ∧
        (checkMigrations env now w rest expired).1.Handing client plan stamped) := by
  induction rest generalizing w expired with
  | nil => exact ⟨continues_foldl _ (fun w c => w.continues_dropExpired now c) w expired, Or.inl rfl⟩
  | cons client rest ih =>
    -- going on from a state that only continues `w`
    have hgo : ∀ {w' : WorldServer R A} (expired' : List Nat), w.Continues w' →
        w.Continues (checkMigrations env now w' rest expired').1 ∧
        ((checkMigrations env now w' rest expired').2 = none ∨
          ∃ client plan stamped rest' expired'',
            (checkMigrations env now w' rest expired').2 =
              some (.handoff client plan stamped now rest' expired'') ∧
            w.coordinator.draws <
              (checkMigrations env now w' rest expired').1.coordinator.draws ∧
            (checkMigrations env now w' rest expired').1.Handing client plan stamped) := by
      intro w' expired' hw'
      obtain ⟨hcontinues, htask⟩ := ih w' expired'
      refine ⟨hw'.trans hcontinues, htask.imp_right ?_⟩
      rintro ⟨client, plan, stamped, rest', expired'', heq, hdraws, hhanding⟩
      exact ⟨client, plan, stamped, rest', expired'', heq, Nat.lt_of_le_of_lt hw'.draws hdraws,
        hhanding⟩
    unfold checkMigrations
    split
    · exact hgo expired (Continues.refl w)
    · rename_i player hplayer
      split
      · exact hgo _ (Continues.refl w)
      · rename_i hstays
        split
        · exact hgo expired (Continues.refl w)
        · rename_i position velocity hposition
          split
          · exact hgo expired (Continues.refl w)
          · rename_i target htarget
            split
            · exact hgo expired (continues_setPlayer hplayer rfl rfl rfl)
            · have hplan := w.coordinator.planHandoff_cases player.playerId target position velocity
                w.world.tick player.lastInputSequence
              split
              · rename_i coordinator hnone
                have hsame : coordinator = w.coordinator := by
                  rcases hplan with h | ⟨_, _, h, -⟩
                  · exact congrArg Prod.fst (hnone.symm.trans h)
                  · cases hnone.symm.trans h
                subst hsame
                exact hgo expired (Continues.refl w)
              · rename_i coordinator plan ticket hsome
                rcases hplan with h | ⟨plan', ticket', h, hplan, htoken, hid, hfrom⟩
                · cases hsome.symm.trans h
                · cases hsome.symm.trans h
                  have hdrawn : w.Continues
                      { w with
                        coordinator := { w.coordinator with draws := w.coordinator.draws + 1 } } :=
                    w.continues_setCoordinator rfl rfl (Nat.le_succ _)
                  have hpublished := hdrawn.trans
                    (continues_publish _ (w.publication player client))
                  dsimp only
                  split
                  · exact hgo expired hpublished
                  · have hstamp := MigrationStore.stamp_same ticket now
                    refine ⟨hpublished, Or.inr ⟨client, plan, _, rest, expired, rfl,
                      Nat.lt_succ_self _, Nat.succ_pos _, ?_, ?_, ?_, player, hplayer, ?_, ?_⟩⟩
                    · rw [hstamp.1]
                      exact htoken
                    · rw [hstamp.1, hplan, htoken]
                    · rw [hstamp.2.1]
                      exact hfrom
                    · simpa using hstays
                    · rw [hstamp.2.2, hid]

/-- Admission ends with the new client joined; the admit record is consumed at once. -/
theorem finishAdmit_eq {w : WorldServer R A} (hpending : w.pendingAdmits = ∅)
    (credential : ConnectCredential) (ticket : Option MigrationTicket)
    (region admittedMs now : Nat) :
    w.finishAdmit env credential ticket region admittedMs now =
      ((w.numberClient credential.playerId).replaceStale credential.playerId w.nextClient now).join
        env w.nextClient
        { client := w.nextClient, credential, ticket
          region := w.admitRegion region
          expiresMs := admittedMs + kPendingAdmitTtlMs } now := by
  have herase : ∀ entry : PendingAdmit,
      ((∅ : Table Nat PendingAdmit).insert w.nextClient entry).erase w.nextClient = ∅ := by
    intro entry
    refine Finmap.ext_lookup fun c => ?_
    rw [Table.lookup_erase, Table.lookup_insert]
    split <;> rfl
  simp only [WorldServer.finishAdmit, accept, onConnect, Table.lookup_insert, if_true, hpending,
    herase, numberClient]

/-- Admission ends with a join, and with a touch of the newcomer's record where the shard
advertises. -/
theorem finishAdmit_joins {w : WorldServer R A} (h : w.Tidy) (credential : ConnectCredential)
    (ticket : Option MigrationTicket) (region admittedMs now : Nat) :
    w.Joins (w.finishAdmit env credential ticket region admittedMs now).1 credential ticket ∧
    ((w.finishAdmit env credential ticket region admittedMs now).2 = none ∨
      w.config.advertise = true ∧ ∃ record,
        (w.finishAdmit env credential ticket region admittedMs now).2 = some (.touch record now) ∧
        (w.finishAdmit env credential ticket region admittedMs now).1.Hosts record) := by
  rw [finishAdmit_eq env h.pending]
  have hnumbered := tidy_numberClient h credential.playerId
  have hstale := (w.numberClient credential.playerId).continues_replaceStale credential.playerId
    w.nextClient now
  have hkeeps := (w.numberClient credential.playerId).replaceStale_keeps credential.playerId
    w.nextClient now
  have halone : ∀ c player, ((w.numberClient credential.playerId).replaceStale credential.playerId
      w.nextClient now).players.lookup c = some player → player.playerId = credential.playerId →
      c = w.nextClient := fun c player => replaceStale_alone hnumbered
  generalize (w.numberClient credential.playerId).replaceStale credential.playerId w.nextClient now
    = stale at hstale hkeeps halone
  have htidy := hstale.tidy hnumbered
  have hnew : w.nextClient ∉ stale.players := by
    rw [← Finmap.lookup_eq_none]
    cases hlookup : stale.players.lookup w.nextClient with
    | none => rfl
    | some player =>
      obtain ⟨old, hold, -⟩ := hstale.players _ player hlookup
      exact absurd (h.numbered _ old hold) (Nat.lt_irrefl _)
  obtain ⟨more, hmore, hquiet⟩ := hstale.trace
  unfold join
  generalize startState env.spawnPoint stale _ now = start
  obtain ⟨position, velocity, sequence, region, resumed⟩ := start
  simp only [if_neg hnew]
  refine ⟨⟨⟨htidy.pending, fun c player hplayer => ?_, fun c player hplayer => ?_⟩, hstale.config,
    hstale.identity, hstale.rng, hstale.draws, ⟨_, Finmap.lookup_insert _, rfl, rfl, rfl⟩,
    fun c player hplayer hne => ?_, hstale.cached, ⟨more, ?_, hquiet⟩⟩, ?_⟩
  · rw [Table.lookup_insert] at hplayer
    split at hplayer
    · rw [‹c = _›, hkeeps.1]
      exact Nat.lt_succ_self _
    · exact htidy.numbered c player hplayer
  · rw [Table.lookup_insert] at hplayer
    split at hplayer
    · cases hplayer
      rw [‹c = _›]
      exact ⟨Finmap.lookup_insert _, hkeeps.2 (Finset.mem_insert_self _ _)⟩
    · have hid : player.playerId ≠ credential.playerId := fun hid => ‹¬c = _› (halone c player hplayer hid)
      obtain ⟨hindex, hconnected⟩ := htidy.indexed c player hplayer
      exact ⟨by rw [Table.lookup_insert, if_neg hid, hindex], hconnected⟩
  · rw [Table.lookup_insert, if_neg hne] at hplayer
    exact ⟨fun hid => hne (halone c player hplayer hid), hstale.players c player hplayer⟩
  · rw [hmore]
    rfl
  · have hconfig : stale.config.advertise = w.config.advertise := by rw [hstale.config]; rfl
    cases hadvertise : w.config.advertise with
    | false => exact Or.inl (if_neg (by simp [hconfig, hadvertise]))
    | true =>
      exact Or.inr ⟨rfl, _, if_pos (hconfig.trans hadvertise), w.nextClient, _,
        Finmap.lookup_insert _, rfl, rfl⟩

theorem outcome_finishAdmit {w : WorldServer R A} (h : w.Tidy) {asks : ConnectCredential → Prop}
    {admits : ConnectCredential → Option MigrationTicket → Prop} {credential : ConnectCredential}
    {ticket : Option MigrationTicket} (hadmits : admits credential ticket)
    (region admittedMs now : Nat) :
    Outcome w asks admits (w.finishAdmit env credential ticket region admittedMs now) := by
  obtain ⟨hjoins, htask⟩ := finishAdmit_joins env h credential ticket region admittedMs now
  refine .joins hjoins hadmits (htask.imp_right ?_)
  rintro ⟨hadvertise, record, htask, hhosts⟩
  exact ⟨hadvertise, record, now, htask, hhosts⟩

/-- Whom `admit` lets in without asking Redis: the bearer of a cached ticket, and, on a
shard that does not advertise, every session. -/
def AdmitsAlone (w : WorldServer R A) (offered : Option ConnectCredential)
    (credential : ConnectCredential) (ticket : Option MigrationTicket) : Prop :=
  offered = some credential ∧
    ((credential.kind = .migration ∧ ∃ cached, ticket = some cached ∧
        w.redeemedTickets.lookup credential.token = some cached ∧
        cached.playerId = credential.playerId) ∨
      (credential.kind = .session ∧ ticket = none ∧ w.config.advertise = false))

theorem outcome_admit {w : WorldServer R A} (h : w.Tidy) (offered : Option ConnectCredential)
    (now : Nat) :
    Outcome w (fun credential => offered = some credential) (w.AdmitsAlone offered)
      (w.admitClient env offered now) := by
  unfold admitClient
  cases offered with
  | none => exact .idle (w.continues_deny _)
  | some credential =>
    have hnone : ((w.pendingByPlayer.lookup credential.playerId).bind
        fun client => w.pendingAdmits.lookup client) = none := by
      rw [h.pending]
      cases w.pendingByPlayer.lookup credential.playerId <;> rfl
    simp only [hnone, Option.filter_none]
    split
    · exact .idle (w.continues_deny _)
    · split
      · rename_i hkind
        split
        · rename_i ticket hcached
          unfold admitTicketed
          split
          · exact .idle (w.continues_deny _)
          · rename_i hplayer
            refine outcome_finishAdmit env h ⟨rfl, Or.inl ⟨hkind, ticket, rfl, hcached, ?_⟩⟩ _ _ _
            simpa using hplayer
        · split
          · rename_i hadvertise
            exact .waits (.refl w) hadvertise hkind (fun c hc => hc) (fun hc => by cases hc)
          · exact .idle (w.continues_deny _)
      · rename_i hkind
        split
        · rename_i hadvertise
          exact .waits (.refl w) hadvertise hkind (fun c hc => hc) (fun hc => by cases hc)
        · rename_i hadvertise
          refine outcome_finishAdmit env h ⟨rfl, Or.inr ⟨hkind, rfl, ?_⟩⟩ _ _ _
          simpa using hadvertise

theorem outcome_checkMigrations {w w' : WorldServer R A} (h : w.Continues w')
    (hadvertise : w.config.advertise = true) (now : Nat) (rest expired : List Nat)
    {asks : ConnectCredential → Prop}
    {admits : ConnectCredential → Option MigrationTicket → Prop} :
    Outcome w asks admits (checkMigrations env now w' rest expired) := by
  obtain ⟨hcontinues, htask⟩ := checkMigrations_effect env now w' rest expired
  generalize checkMigrations env now w' rest expired = progress at hcontinues htask
  obtain ⟨w'', task⟩ := progress
  rcases htask with rfl | ⟨client, plan, stamped, rest', expired', rfl, hdraws, hhanding⟩
  · exact .idle (h.trans hcontinues)
  · exact .waits (h.trans hcontinues) hadvertise hhanding (fun c hc => by cases hc)
      fun _ => Nat.lt_of_le_of_lt h.draws hdraws

theorem outcome_resume {w : WorldServer R A} (h : w.Tidy) (hadvertise : w.config.advertise = true)
    (now : Nat) (replies : Option (List RedisReply)) {task : Task} (hawaits : w.Awaits task) :
    Outcome (w.heard replies task) (fun _ => False) (w.AdmitsHeard replies task)
      (w.resume env now replies task) := by
  cases task with
  | admitSession credential admittedMs =>
    simp only [resume, heard]
    split
    · exact .idle (w.continues_deny _)
    · rename_i record hrecord
      split
      · exact .idle (w.continues_deny _)
      · rename_i htoken
        split
        · exact .idle (w.continues_deny _)
        · rename_i hshard
          refine outcome_finishAdmit env h ⟨rfl, Or.inl ⟨hawaits, rfl, record, hrecord, ?_, ?_⟩⟩ _ _ _
          · simpa using htoken
          · simpa using hshard
  | admitTicket credential admittedMs =>
    simp only [resume, heard, redeemed]
    cases hticket : (MigrationStore.readRedeem credential.token replies).filter
        fun ticket => ticket.toShard == w.coordinator.config.id with
    | none => exact .idle (w.continues_deny _)
    | some ticket =>
      have htidy : ({ w with
          redeemedTickets := w.redeemedTickets.insert credential.token ticket } :
            WorldServer R A).Tidy :=
        ⟨h.pending, h.numbered, h.indexed⟩
      dsimp only
      unfold admitTicketed
      split
      · exact .idle (continues_deny _ _)
      · rename_i hplayer
        refine outcome_finishAdmit env htidy ⟨rfl, Or.inr ⟨hawaits, ticket, rfl, hticket, ?_⟩⟩ _ _ _
        simpa using hplayer
  | touch record sentMs => exact .idle (.refl w)
  | handoff client plan stamped sentMs rest expired =>
    have hredirect : (w.redirect client plan).config.advertise = true := by
      rcases w.redirect_cases client plan with hsame | ⟨player, -, hsame⟩
      · rw [hsame]
        exact hadvertise
      · rw [hsame]
        exact hadvertise
    simp only [resume, heard]
    cases hjudge : MigrationStore.judge replies with
    | published => exact outcome_checkMigrations env (.refl _) hredirect now rest expired
    | discard =>
      exact .waits (.refl w) hadvertise trivial (fun c hc => by cases hc) (fun hc => by cases hc)
    | failed => exact outcome_checkMigrations env (.refl w) hadvertise now rest expired
  | discard token rest expired =>
    exact outcome_checkMigrations env (.refl w) hadvertise now rest expired
  | heartbeat records heartbeatMs => exact .idle (w.continues_expire heartbeatMs)

variable [Add R] [Mul R] [Neg R] [DecidableLT R] [OfScientific R]

theorem continues_replicateTo (w : WorldServer R A) (client : Nat) :
    w.Continues (w.replicateTo env client) := by
  unfold replicateTo
  split
  · exact .refl w
  · rename_i player hplayer
    split
    · exact .refl w
    · exact (w.continues_publish _).trans (continues_setPlayer hplayer rfl rfl rfl)

theorem outcome_tick {w : WorldServer R A} (now : Nat) (clients roster : List Nat)
    {asks : ConnectCredential → Prop}
    {admits : ConnectCredential → Option MigrationTicket → Prop} :
    Outcome w asks admits (w.tick env now clients roster) := by
  have hstepped : w.Continues { w with world := w.world.step env.sim clients } :=
    .of_tables rfl rfl rfl rfl rfl rfl rfl (fun _ _ => id) ⟨[], by simp⟩
  have hreplicated := hstepped.trans
    (continues_foldl _ (fun w client => w.continues_replicateTo env client) _ roster)
  unfold tick
  dsimp only
  split
  · rename_i hadvertise
    rw [hreplicated.config] at hadvertise
    exact outcome_checkMigrations env hreplicated hadvertise now roster []
  · exact .idle hreplicated

end
end WorldServer
end Morton.App
