import Morton.App.Residency
import Morton.Base.Run

/-! How often a ticket is used. Wherever a ticket can be taken from is a place; there is one
such place at any time, and taking it moves it on. The shard that let the bearer in keeps
the ticket for a while, so it is the one place that gives it out again. -/
namespace Morton.App
open Proto Sim Cluster

/-- An `on_connect` that starts from the ticket with this token. -/
def Trace.installs (token : Nat) : Trace → Bool
  | .joined _ credential (some _) => credential.token == token
  | _ => false

namespace WorldServer
variable {R A : Type}

/-- The times the ticket was used. -/
def uses (token : Nat) (w : WorldServer R A) : Nat := w.trace.countP (Trace.installs token)

/-- A client has been sent off with the ticket. -/
def Issued (token : Nat) (w : WorldServer R A) : Prop :=
  ∃ client event, .redirected client event ∈ w.trace ∧ event.ticket = token

/-- The shard has had the ticket in its hands. -/
def Holds (token : Nat) (w : WorldServer R A) : Prop :=
  (∃ ticket, w.redeemedTickets.lookup token = some ticket) ∨ 0 < w.uses token

theorem countP_quiet (token : Nat) {more : List Trace} (h : ∀ t ∈ more, t.quiet = true) :
    more.countP (Trace.installs token) = 0 := by
  rw [List.countP_eq_zero]
  intro t ht
  cases t with
  | joined client credential ticket => cases h _ ht
  | published p => simp [Trace.installs]
  | redirected client event => simp [Trace.installs]
  | denied reason => simp [Trace.installs]

/-- What a handler does about tickets: it uses one at most, one it may admit, and caches
and hands out none. -/
structure Spends (token : Nat) (w : WorldServer R A)
    (admits : ConnectCredential → Option MigrationTicket → Prop) (w' : WorldServer R A) : Prop where
  issued : ∀ client event, .redirected client event ∈ w'.trace → .redirected client event ∈ w.trace
  cached : ∀ ticket, w'.redeemedTickets.lookup token = some ticket →
    w.redeemedTickets.lookup token = some ticket
  uses : w'.uses token = w.uses token ∨
    w'.uses token = w.uses token + 1 ∧ ∃ credential ticket, admits credential (some ticket) ∧
      credential.token = token

theorem Continues.spends {w w' : WorldServer R A} (h : w.Continues w') (token : Nat)
    (admits : ConnectCredential → Option MigrationTicket → Prop) : w.Spends token admits w' := by
  obtain ⟨more, hmore, hquiet⟩ := h.trace
  refine ⟨fun client event ht => ?_, h.cached token, Or.inl ?_⟩
  · rw [hmore] at ht
    rcases List.mem_append.mp ht with ht | ht
    · exact ht
    · cases hquiet _ ht
  · rw [WorldServer.uses, hmore, List.countP_append, countP_quiet token hquiet, Nat.add_zero]
    rfl

theorem Outcome.spends {w : WorldServer R A} {asks : ConnectCredential → Prop}
    {admits : ConnectCredential → Option MigrationTicket → Prop} {progress : Progress R A}
    (h : Outcome w asks admits progress) (token : Nat) : w.Spends token admits progress.1 := by
  cases h with
  | idle h => exact h.spends token admits
  | waits h => exact h.spends token admits
  | @joins w' task credential ticket h hadmits htask =>
    obtain ⟨more, hmore, hquiet⟩ := h.trace
    refine ⟨fun client event ht => ?_, h.cached token, ?_⟩
    · rw [hmore] at ht
      rcases List.mem_append.mp ht with ht | ht
      · rcases List.mem_append.mp ht with ht | ht
        · exact ht
        · cases hquiet _ ht
      · cases List.mem_singleton.mp ht
    · have hcount : w'.uses token = w.uses token +
          [Trace.joined w.nextClient credential ticket].countP (Trace.installs token) := by
        rw [WorldServer.uses, hmore, List.countP_append, List.countP_append,
          countP_quiet token hquiet, Nat.add_zero]
        rfl
      cases ticket with
      | none => exact Or.inl (by simpa [Trace.installs] using hcount)
      | some ticket =>
        by_cases htoken : credential.token = token
        · exact Or.inr ⟨by simpa [Trace.installs, htoken] using hcount, credential, ticket, hadmits,
            htoken⟩
        · exact Or.inl (by simpa [Trace.installs, htoken] using hcount)

theorem Hears.uses {w w' : WorldServer R A} {replies : Option (List RedisReply)} {task : Task}
    (h : w.Hears w' replies task) (token : Nat) : w'.uses token = w.uses token := by
  rcases h.trace with hsame | ⟨_, _, _, _, _, _, _, -, -, hsame⟩
  · rw [WorldServer.uses, hsame]
    rfl
  · rw [WorldServer.uses, hsame, List.countP_append]
    rfl

theorem redeemed_string {w : WorldServer R A} {token : Nat} {replies : Option (List RedisReply)}
    {ticket : MigrationTicket} (h : w.redeemed token replies = some ticket) :
    ∃ blob rest, replies = some (.string blob :: rest) := by
  have hread := (Option.filter_eq_some_iff.mp h).1
  unfold MigrationStore.readRedeem at hread
  split at hread
  · exact ⟨_, _, rfl⟩
  · cases hread

end WorldServer

namespace Fleet
variable {R A : Type}

/-- The shard waits for the ticket. -/
def Offering (token : Nat) (p : ShardProcess R A) : Prop :=
  ∃ credential admittedMs, p.task = some (.admitTicket credential admittedMs) ∧
    credential.token = token

/-- The ticket is on its way to the shard. -/
def Fetched (token : Nat) (p : ShardProcess R A) : Prop :=
  Offering token p ∧ ∃ blob, .string blob ∈ p.flight.replies

/-- The shard is publishing the ticket. -/
def Publishing (token : Nat) (p : ShardProcess R A) : Prop :=
  ∃ client plan stamped sentMs rest expired,
    p.task = some (.handoff client plan stamped sentMs rest expired) ∧ stamped.token = token

/-- The credential is the one of the ticket. -/
def Bears (token : Nat) (offered : Option ConnectCredential) : Prop :=
  ∃ credential, offered = some credential ∧ credential.kind = .migration ∧ credential.token = token

/-- What the handlers of a shard do about one ticket when `offered` is presented. -/
structure Treats (token : Nat) (offered : Option ConnectCredential) (p p' : ShardProcess R A) :
    Prop where
  fetched : ¬ Fetched token p'
  offering : Offering token p' → Bears token offered
  publishing : Publishing token p' → p.state.coordinator.draws < p'.state.coordinator.draws ∧
    p'.state.coordinator.tokenAt (p'.state.coordinator.draws - 1) = token
  rng : p'.state.coordinator.rng = p.state.coordinator.rng
  draws : p.state.coordinator.draws ≤ p'.state.coordinator.draws
  issued : p'.state.Issued token → p.state.Issued token ∨ Publishing token p
  still : p.state.Issued token → p'.state.Issued token
  cached : ∀ ticket, p'.state.redeemedTickets.lookup token = some ticket →
    p.state.redeemedTickets.lookup token = some ticket ∨ Fetched token p
  uses : p'.state.uses token = p.state.uses token ∨
    p'.state.uses token = p.state.uses token + 1 ∧ (Fetched token p ∨
      (∃ ticket, p.state.redeemedTickets.lookup token = some ticket) ∧ Bears token offered)

section
variable [LT R] (env : ShardEnv R A)

/-- A launched process waits for nothing yet; what it waits for comes from the outcome. -/
theorem treats_launch {token : Nat} {offered : Option ConnectCredential} {p : ShardProcess R A}
    {w : WorldServer R A} {replies : Option (List RedisReply)} {task : Task}
    (hhears : p.state.Hears w replies task)
    {asks : ConnectCredential → Prop}
    {admits : ConnectCredential → Option MigrationTicket → Prop}
    {progress : WorldServer.Progress R A} (houtcome : WorldServer.Outcome w asks admits progress)
    (hasks : ∀ credential, asks credential → offered = some credential)
    (hpublishing : ∀ client plan stamped sentMs rest expired,
      task = .handoff client plan stamped sentMs rest expired → plan.token = token →
        Publishing token p)
    (hfetched : ∀ ticket, w.redeemedTickets.lookup token = some ticket →
      p.state.redeemedTickets.lookup token = some ticket ∨ Fetched token p)
    (hadmits : ∀ credential ticket, admits credential (some ticket) → credential.token = token →
      Fetched token p ∨ (∃ ticket, p.state.redeemedTickets.lookup token = some ticket) ∧
        Bears token offered) :
    Treats token offered p (Process.launch (shardBehaviour env) progress) := by
  have hspends := houtcome.spends token
  have hleaves := hhears.leaves houtcome.leaves
  have hdraws : p.state.coordinator.draws = w.coordinator.draws := by rw [hhears.coordinator]
  have hrng : p.state.coordinator.rng = w.coordinator.rng := by rw [hhears.coordinator]
  have hcoordinator := houtcome.coordinator
  refine ⟨?_, ?_, ?_, hcoordinator.1.trans hrng.symm, hdraws ▸ hcoordinator.2, ?_, ?_, ?_, ?_⟩
  · rintro ⟨-, blob, hblob⟩
    cases hblob
  · rintro ⟨credential, admittedMs, htask, htoken⟩
    cases houtcome with
    | idle => cases htask
    | waits h hadvertise hawaits hask hdraws =>
      cases htask
      exact ⟨credential, hasks credential (hask credential rfl), hawaits, htoken⟩
    | joins h hadmits hnext =>
      rcases hnext with rfl | ⟨-, record, now, rfl, -⟩
      · cases htask
      · cases htask
  · rintro ⟨client, plan, stamped, sentMs, rest, expired, htask, htoken⟩
    cases houtcome with
    | idle => cases htask
    | waits h hadvertise hawaits hask hfresh =>
      cases htask
      exact ⟨hdraws ▸ hfresh rfl, hawaits.token.symm.trans htoken⟩
    | joins h hadmits hnext =>
      rcases hnext with rfl | ⟨-, record, now, rfl, -⟩
      · cases htask
      · cases htask
  · rintro ⟨client, event, hevent, htoken⟩
    have hw := hspends.issued client event hevent
    rcases hhears.trace with hsame | ⟨_, plan, stamped, _, _, _, told, htask, hplan, hsame⟩
    · rw [hsame] at hw
      exact Or.inl ⟨client, event, hw, htoken⟩
    · rw [hsame] at hw
      rcases List.mem_append.mp hw with hw | hw
      · exact Or.inl ⟨client, event, hw, htoken⟩
      · cases List.mem_singleton.mp hw
        exact Or.inr (hpublishing _ _ _ _ _ _ htask (hplan.symm.trans htoken))
  · rintro ⟨client, event, hevent, htoken⟩
    exact ⟨client, event, hleaves.trace _ hevent, htoken⟩
  · exact fun ticket hticket => hfetched ticket (hspends.cached ticket hticket)
  · rw [← hhears.uses token]
    rcases hspends.uses with hsame | ⟨hmore, credential, ticket, hadmit, htoken⟩
    · exact Or.inl hsame
    · exact Or.inr ⟨hmore, hadmits credential ticket hadmit htoken⟩

end

theorem commands_setTicket {w : WorldServer R A} {task : Task} {token ttl : Nat} {blob : Bytes}
    (h : .setTicket token blob ttl ∈ w.commands task) :
    ∃ client plan stamped sentMs rest expired,
      task = .handoff client plan stamped sentMs rest expired ∧ stamped.token = token := by
  cases task with
  | admitSession credential admittedMs => cases List.mem_singleton.mp h
  | admitTicket credential admittedMs => cases List.mem_singleton.mp h
  | touch record sentMs => simp [WorldServer.commands, setPresenceCommands] at h
  | handoff client plan stamped sentMs rest expired =>
    simp only [WorldServer.commands, MigrationStore.publishCommands, List.mem_cons,
      RedisCommand.setTicket.injEq, reduceCtorEq, List.not_mem_nil, or_false] at h
    exact ⟨client, plan, stamped, sentMs, rest, expired, rfl, h.1.symm⟩
  | discard token rest expired => cases List.mem_singleton.mp h
  | heartbeat records heartbeatMs => simp [WorldServer.commands, setPresenceCommands] at h

/-- Where a ticket can be taken from. -/
inductive Place
  | redis
  /-- The reply to a shard's `GETDEL` -/
  | flight (id : Bytes)
  | shard (id : Bytes)

def At (token : Nat) (s : Fleet R A) : Place → Prop
  | .redis => (s.redis.tickets.lookup token).isSome = true
  | .flight id => Fetched token (s.shards id)
  | .shard id => (s.shards id).state.Holds token

/-- Some client was sent off with the ticket. -/
def Issued (token : Nat) (s : Fleet R A) : Prop := ∃ id, (s.shards id).state.Issued token

/-- No two draws of the cluster's shards gave this token. -/
def DrawnOnce (token : Nat) (s : Fleet R A) : Prop :=
  ∀ i n j m, n < (s.shards i).state.coordinator.draws →
    (s.shards i).state.coordinator.tokenAt n = token →
    m < (s.shards j).state.coordinator.draws →
    (s.shards j).state.coordinator.tokenAt m = token → i = j ∧ n = m

/-- The bearer of a ticket was sent off with it, and does not show it again to a shard that
has let it in and still has the ticket. -/
def PresentedOnce (token : Nat) (s : Fleet R A) : FleetAction A → Prop
  | .shard id action => (s.shards id).task = none → Bears token action.offers →
    s.Issued token ∧
      ∀ ticket, (s.shards id).state.redeemedTickets.lookup token = some ticket →
        (s.shards id).state.uses token = 0
  | _ => True

/-- The ticket is in one place, and was used once at most; nobody asks for it before it was
handed out, and then nobody publishes it any more. -/
structure OneUse (token : Nat) (s : Fleet R A) : Prop where
  place : ∀ x y, s.At token x → s.At token y → x = y
  uses : ∀ id, (s.shards id).state.uses token ≤ 1
  asked : ∀ id, Offering token (s.shards id) ∨ (s.shards id).state.Holds token → s.Issued token
  closed : s.Issued token → ∀ id, ¬ Publishing token (s.shards id)
  drawn : s.At token .redis ∨ s.Issued token ∨ (∃ id, Publishing token (s.shards id)) →
    s.DrawnForTicket token

/-- A ticket taken from `old` to `new` is still in one place. -/
theorem place_move {token : Nat} {s s' : Fleet R A}
    (h : ∀ x y, s.At token x → s.At token y → x = y) {old new : Place}
    (hmove : ∀ x, s'.At token x → s.At token x ∨ x = new ∧ s.At token old)
    (hgone : ¬ s'.At token old) : ∀ x y, s'.At token x → s'.At token y → x = y := by
  intro x y hx hy
  rcases hmove x hx with hx' | ⟨rfl, hold⟩
  · rcases hmove y hy with hy' | ⟨rfl, hold⟩
    · exact h x y hx' hy'
    · exact absurd (h x old hx' hold ▸ hx) hgone
  · rcases hmove y hy with hy' | ⟨rfl, -⟩
    · exact absurd (h y old hy' hold ▸ hy) hgone
    · rfl

theorem publishing_drawn {token : Nat} {s : Fleet R A} (hsound : ∀ id, Sound id (s.shards id))
    {id : Bytes} (h : Publishing token (s.shards id)) :
    0 < (s.shards id).state.coordinator.draws ∧ (s.shards id).state.coordinator.tokenAt
      ((s.shards id).state.coordinator.draws - 1) = token := by
  obtain ⟨client, plan, stamped, sentMs, rest, expired, htask, htoken⟩ := h
  have hhanding : (s.shards id).state.Handing client plan stamped := (hsound id).awaits _ htask
  exact ⟨hhanding.drawn, hhanding.token.symm.trans htoken⟩

/-- A draw that was made is still made. -/
theorem drawn_setShard {token : Nat} {s : Fleet R A} {id : Bytes} {p : ShardProcess R A}
    (hrng : p.state.coordinator.rng = (s.shards id).state.coordinator.rng)
    (hdraws : (s.shards id).state.coordinator.draws ≤ p.state.coordinator.draws) {j : Bytes}
    {n : Nat} (hn : n < (s.shards j).state.coordinator.draws)
    (htoken : (s.shards j).state.coordinator.tokenAt n = token) :
    n < ((s.setShard id p).shards j).state.coordinator.draws ∧
      ((s.setShard id p).shards j).state.coordinator.tokenAt n = token := by
  rw [setShard_shards]
  split
  · subst ‹j = id›
    refine ⟨Nat.lt_of_lt_of_le hn hdraws, ?_⟩
    rw [← htoken, ShardCoordinator.tokenAt, ShardCoordinator.tokenAt, hrng]
  · exact ⟨hn, htoken⟩

theorem OneUse.treat {token : Nat} {s : Fleet R A} (hsound : ∀ id, Sound id (s.shards id))
    (h : s.OneUse token) {id : Bytes} {p : ShardProcess R A} {offered : Option ConnectCredential}
    (ht : Treats token offered (s.shards id) p) (honce : (s.setShard id p).DrawnOnce token)
    (hok : Bears token offered → s.Issued token ∧
      ∀ ticket, (s.shards id).state.redeemedTickets.lookup token = some ticket →
        (s.shards id).state.uses token = 0) : (s.setShard id p).OneUse token := by
  have hkept : ∀ {j n}, n < (s.shards j).state.coordinator.draws →
      (s.shards j).state.coordinator.tokenAt n = token →
      n < ((s.setShard id p).shards j).state.coordinator.draws ∧
        ((s.setShard id p).shards j).state.coordinator.tokenAt n = token :=
    fun hn htoken => drawn_setShard ht.rng ht.draws hn htoken
  have hself : (s.setShard id p).shards id = p := by rw [setShard_shards, if_pos rfl]
  have hother : ∀ {j}, j ≠ id → (s.setShard id p).shards j = s.shards j := fun hj => by
    rw [setShard_shards, if_neg hj]
  have hstill : s.Issued token → (s.setShard id p).Issued token := by
    rintro ⟨j, hj⟩
    by_cases hid : j = id
    · exact ⟨id, by rw [hself]; exact ht.still (hid ▸ hj)⟩
    · exact ⟨j, by rw [hother hid]; exact hj⟩
  -- who holds the ticket afterwards held it before, or it was on its way
  have hholds : p.state.Holds token → (s.shards id).state.Holds token ∨
      Fetched token (s.shards id) := by
    rintro (⟨ticket, hticket⟩ | huses)
    · exact (ht.cached ticket hticket).imp_left fun hold => Or.inl ⟨ticket, hold⟩
    · rcases ht.uses with hsame | ⟨-, hfetched | ⟨hcached, -⟩⟩
      · exact Or.inl (Or.inr (hsame ▸ huses))
      · exact Or.inr hfetched
      · exact Or.inl (Or.inl hcached)
  have hmove : ∀ x, (s.setShard id p).At token x →
      s.At token x ∨ x = .shard id ∧ s.At token (.flight id) := by
    intro x hx
    cases x with
    | redis => exact Or.inl hx
    | flight j =>
      by_cases hj : j = id
      · rw [hj, At, hself] at hx
        exact absurd hx ht.fetched
      · rw [At, hother hj] at hx
        exact Or.inl hx
    | shard j =>
      by_cases hj : j = id
      · subst hj
        rw [At, hself] at hx
        exact (hholds hx).imp_right fun hfetched => ⟨rfl, hfetched⟩
      · rw [At, hother hj] at hx
        exact Or.inl hx
  have hgone : ¬ (s.setShard id p).At token (.flight id) := by
    rw [At, hself]
    exact ht.fetched
  -- the draw behind a handoff that is being published now
  have hnew : Publishing token p → (p.state.coordinator.draws - 1 < p.state.coordinator.draws ∧
      (s.shards id).state.coordinator.draws ≤ p.state.coordinator.draws - 1) ∧
      p.state.coordinator.tokenAt (p.state.coordinator.draws - 1) = token := by
    intro hpublishing
    obtain ⟨hlt, htoken⟩ := ht.publishing hpublishing
    exact ⟨⟨by omega, by omega⟩, htoken⟩
  have hfirst : Publishing token p → ¬ s.DrawnForTicket token := by
    rintro hpublishing ⟨j, n, hn, htoken⟩
    obtain ⟨⟨hlt, hle⟩, htoken'⟩ := hnew hpublishing
    obtain ⟨hn', htoken''⟩ := hkept hn htoken
    have hsame := honce j n id (p.state.coordinator.draws - 1) hn' htoken''
      (by rw [hself]; exact hlt) (by rw [hself]; exact htoken')
    rw [hsame.1, hsame.2] at hn
    omega
  have hback : (s.setShard id p).Issued token →
      s.Issued token ∨ Publishing token (s.shards id) := by
    rintro ⟨j, hj⟩
    by_cases hid : j = id
    · rw [hid, hself] at hj
      exact (ht.issued hj).imp_left fun hold => ⟨id, hold⟩
    · rw [hother hid] at hj
      exact Or.inl ⟨j, hj⟩
  have hdrawn : s.DrawnForTicket token → (s.setShard id p).DrawnForTicket token := by
    rintro ⟨j, n, hn, htoken⟩
    exact ⟨j, n, hkept hn htoken⟩
  refine ⟨place_move h.place hmove hgone, fun j => ?_, fun j hj => ?_, fun hissued j hj => ?_,
    fun hreason => ?_⟩
  · by_cases hj : j = id
    · rw [hj, hself]
      rcases ht.uses with hsame | ⟨hmore, hwhy⟩
      · rw [hsame]
        exact h.uses id
      · have hzero : (s.shards id).state.uses token = 0 := by
          rcases hwhy with hfetched | ⟨⟨ticket, hcached⟩, hbears⟩
          · by_contra hused
            cases h.place (.flight id) (.shard id) hfetched (Or.inr (Nat.pos_of_ne_zero hused))
          · exact (hok hbears).2 ticket hcached
        omega
    · rw [hother hj]
      exact h.uses j
  · by_cases hid : j = id
    · rw [hid, hself] at hj
      rcases hj with hoffering | hheld
      · exact hstill (hok (ht.offering hoffering)).1
      · rcases hholds hheld with hheld | hfetched
        · exact hstill (h.asked id (Or.inr hheld))
        · exact hstill (h.asked id (Or.inl hfetched.1))
    · rw [hother hid] at hj
      exact hstill (h.asked j hj)
  · by_cases hid : j = id
    · rw [hid, hself] at hj
      refine hfirst hj (h.drawn (Or.inr ?_))
      exact (hback hissued).imp_right fun hpublishing => ⟨id, hpublishing⟩
    · rw [hother hid] at hj
      rcases hback hissued with hold | hpublishing
      · exact h.closed hold j hj
      · obtain ⟨hpos, htoken⟩ := publishing_drawn hsound hpublishing
        obtain ⟨hpos', htoken'⟩ := publishing_drawn hsound hj
        obtain ⟨hn, htoken⟩ := hkept (Nat.sub_lt hpos Nat.one_pos) htoken
        obtain ⟨hn', htoken'⟩ := hkept (Nat.sub_lt hpos' Nat.one_pos) htoken'
        exact hid (honce j _ id _ hn' htoken' hn htoken).1
  · rcases hreason with hredis | hissued | ⟨j, hj⟩
    · exact hdrawn (h.drawn (Or.inl hredis))
    · refine hdrawn (h.drawn (Or.inr ?_))
      exact (hback hissued).imp_right fun hpublishing => ⟨id, hpublishing⟩
    · by_cases hid : j = id
      · rw [hid, hself] at hj
        obtain ⟨⟨hlt, -⟩, htoken⟩ := hnew hj
        exact ⟨id, _, by rw [hself]; exact hlt, by rw [hself]; exact htoken⟩
      · rw [hother hid] at hj
        exact hdrawn (h.drawn (Or.inr (Or.inr ⟨j, hj⟩)))

/-- Steps on which the shards' states and tasks stay: only the ticket may move. -/
theorem OneUse.of_states {token : Nat} {s s' : Fleet R A} (h : s.OneUse token)
    (hstate : ∀ id, (s'.shards id).state = (s.shards id).state)
    (htask : ∀ id, (s'.shards id).task = (s.shards id).task)
    (hplace : ∀ x y, s'.At token x → s'.At token y → x = y)
    (hredis : s'.At token .redis → s.DrawnForTicket token) : s'.OneUse token := by
  have hissued : s'.Issued token ↔ s.Issued token := by simp only [Issued, hstate]
  have hoffering : ∀ id, Offering token (s'.shards id) ↔ Offering token (s.shards id) := fun id => by
    simp only [Offering, htask]
  have hpublishing : ∀ id, Publishing token (s'.shards id) ↔ Publishing token (s.shards id) :=
    fun id => by simp only [Publishing, htask]
  have hdrawn : s'.DrawnForTicket token ↔ s.DrawnForTicket token := by
    simp only [DrawnForTicket, hstate]
  refine ⟨hplace, fun id => ?_, fun id hid => ?_, fun hi id => ?_, fun hreason => ?_⟩
  · rw [hstate]
    exact h.uses id
  · rw [hoffering, hstate] at hid
    exact hissued.mpr (h.asked id hid)
  · rw [hpublishing]
    exact h.closed (hissued.mp hi) id
  · simp only [hissued, hpublishing] at hreason
    rw [hdrawn]
    exact hreason.elim hredis fun hreason => h.drawn (Or.inr hreason)

/-- The ticket stays where it is, or is gone. -/
theorem OneUse.of_places {token : Nat} {s s' : Fleet R A} (h : s.OneUse token)
    (hstate : ∀ id, (s'.shards id).state = (s.shards id).state)
    (htask : ∀ id, (s'.shards id).task = (s.shards id).task)
    (hplace : ∀ x, s'.At token x → s.At token x) : s'.OneUse token :=
  h.of_states hstate htask (fun x y hx hy => h.place x y (hplace x hx) (hplace y hy))
    fun hredis => h.drawn (Or.inl (hplace .redis hredis))

/-- A command of a shard: publishing puts the ticket in Redis, `GETDEL` takes it out. -/
theorem OneUse.execute {token : Nat} {s : Fleet R A} (hsound : ∀ id, Sound id (s.shards id))
    (h : s.OneUse token) {id : Bytes} {task : Task} {c : RedisCommand}
    (htask : (s.shards id).task = some task) (hnext : (s.shards id).flight.next = some c) :
    ({ s.setShard id ((s.shards id).replied (s.redis.exec c).2) with
        redis := (s.redis.exec c).1 } : Fleet R A).OneUse token := by
  have hmem : c ∈ (s.shards id).state.commands task := by
    rw [← (hsound id).sent task htask]
    exact List.mem_of_getElem? hnext
  have hstate := s.setShard_state ((s.shards id).replied_state (s.redis.exec c).2)
  have htasks := s.setShard_task ((s.shards id).replied_task (s.redis.exec c).2)
  have hshards := s.setShard_shards id ((s.shards id).replied (s.redis.exec c).2)
  generalize hs' : ({ s.setShard id ((s.shards id).replied (s.redis.exec c).2) with
    redis := (s.redis.exec c).1 } : Fleet R A) = s'
  have hsame : s'.shards = (s.setShard id ((s.shards id).replied (s.redis.exec c).2)).shards := by
    rw [← hs']
  rw [← hsame] at hstate htasks hshards
  have hredis : s'.redis = (s.redis.exec c).1 := by rw [← hs']
  -- a ticket on its way now was on its way before, or has just been taken from Redis
  have hfetched : ∀ j, Fetched token (s'.shards j) → Fetched token (s.shards j) ∨
      j = id ∧ s.At token .redis ∧ ¬ s'.At token .redis := by
    rintro j ⟨⟨credential, admittedMs, hj, htoken⟩, blob, hblob⟩
    rw [htasks] at hj
    have hoffering : Offering token (s.shards j) := ⟨credential, admittedMs, hj, htoken⟩
    rw [hshards] at hblob
    split at hblob
    · rename_i hid
      rcases List.mem_append.mp hblob with hblob | hblob
      · exact Or.inl ⟨hoffering, blob, hid ▸ hblob⟩
      · rw [hid, htask] at hj
        cases hj
        have hc : c = .getDelTicket token := by
          rw [← htoken]
          exact List.mem_singleton.mp hmem
        obtain ⟨hbefore, hafter⟩ := Redis.exec_string hc (List.mem_singleton.mp hblob).symm
        refine Or.inr ⟨hid, by rw [At, hbefore]; rfl, ?_⟩
        rw [At, hredis, hafter]
        exact Bool.false_ne_true
    · exact Or.inl ⟨hoffering, blob, hblob⟩
  have hholds : ∀ j, s'.At token (.shard j) → s.At token (.shard j) := by
    intro j hj
    rwa [At, hstate] at hj
  by_cases hset : ∃ blob ttl, c = .setTicket token blob ttl
  · -- nobody has asked for a ticket that is still being published
    obtain ⟨blob, ttl, rfl⟩ := hset
    obtain ⟨client, plan, stamped, sentMs, rest, expired, rfl, htoken⟩ := commands_setTicket hmem
    have hpublishing : Publishing token (s.shards id) :=
      ⟨client, plan, stamped, sentMs, rest, expired, htask, htoken⟩
    have hunissued : ¬ s.Issued token := fun hissued => h.closed hissued id hpublishing
    refine h.of_states hstate htasks (fun x y hx hy => ?_)
      fun _ => h.drawn (Or.inr (Or.inr ⟨id, hpublishing⟩))
    have honly : ∀ x, s'.At token x → x = .redis := by
      intro x hx
      cases x with
      | redis => rfl
      | flight j =>
        refine absurd (h.asked j (Or.inl ?_)) hunissued
        have := hx.1
        rwa [Offering, htasks] at this
      | shard j => exact absurd (h.asked j (Or.inr (hholds j hx))) hunissued
    rw [honly x hx, honly y hy]
  · have hkeeps : s'.At token .redis → s.At token .redis := by
      intro hx
      rw [At, hredis] at hx
      rcases s.redis.tickets_exec c token with hsame | hwrite | ⟨-, hnone⟩
      · rwa [hsame] at hx
      · exact absurd hwrite hset
      · rw [hnone] at hx
        cases hx
    by_cases htaken : s.At token .redis ∧ ¬ s'.At token .redis
    · have hmove : ∀ x, s'.At token x → s.At token x ∨ x = .flight id ∧ s.At token .redis := by
        intro x hx
        cases x with
        | redis => exact Or.inl (hkeeps hx)
        | flight j => exact (hfetched j hx).imp_right fun hj => ⟨by rw [hj.1], hj.2.1⟩
        | shard j => exact Or.inl (hholds j hx)
      exact h.of_states hstate htasks (place_move h.place hmove htaken.2)
        fun hx => h.drawn (Or.inl (hkeeps hx))
    · refine h.of_places hstate htasks fun x hx => ?_
      cases x with
      | redis => exact hkeeps hx
      | flight j => exact (hfetched j hx).resolve_right fun hj => htaken hj.2
      | shard j => exact hholds j hx

theorem not_bears_none (token : Nat) : ¬ Bears token none := by
  rintro ⟨credential, h, -⟩
  cases h

theorem Fresh.oneUse {s : Fleet R A} (h : s.Fresh) (token : Nat) : s.OneUse token := by
  have huses : ∀ id, (s.shards id).state.uses token = 0 := by
    intro id
    obtain ⟨-, -, -, htrace, -⟩ := h.empty id
    rw [WorldServer.uses, htrace]
    rfl
  have hissued : ¬ s.Issued token := by
    rintro ⟨id, client, event, hevent, -⟩
    obtain ⟨-, -, -, htrace, -⟩ := h.empty id
    rw [htrace] at hevent
    cases hevent
  have hidle : ∀ id task, (s.shards id).task ≠ some task := by
    intro id task htask
    cases (h.idle id).symm.trans htask
  have hholds : ∀ id, ¬ (s.shards id).state.Holds token := by
    rintro id (⟨ticket, hticket⟩ | hused)
    · obtain ⟨-, -, hcached, -⟩ := h.empty id
      rw [hcached] at hticket
      cases hticket
    · rw [huses] at hused
      cases hused
  have hnowhere : ∀ x, ¬ s.At token x := by
    intro x hx
    cases x with
    | redis =>
      rw [At, h.redis] at hx
      cases hx
    | flight id =>
      obtain ⟨⟨credential, admittedMs, htask, -⟩, -⟩ := hx
      exact hidle id _ htask
    | shard id => exact hholds id hx
  refine ⟨fun x _ hx => absurd hx (hnowhere x), fun id => by rw [huses]; omega, fun id hid => ?_,
    fun h => absurd h hissued, ?_⟩
  · rcases hid with ⟨credential, admittedMs, htask, -⟩ | hheld
    · exact absurd htask (hidle id _)
    · exact absurd hheld (hholds id)
  · rintro (hx | hx | ⟨id, client, plan, stamped, sentMs, rest, expired, htask, -⟩)
    · exact absurd hx (hnowhere _)
    · exact absurd hx hissued
    · exact absurd htask (hidle id _)

section
variable [LT R] (env : ShardEnv R A)

theorem treats_resumed (token : Nat) {id : Bytes} {p : ShardProcess R A} (hsound : Sound id p)
    {task : Task} (htask : p.task = some task) (now : Nat) {replies : Option (List RedisReply)}
    (hanswer : Answered p.flight replies) :
    Treats token none p (Process.launch (shardBehaviour env) (p.state.resume env now replies task)) := by
  have hawaits := hsound.awaits task htask
  -- a ticket taken in is one that was on its way
  have hredeemed : ∀ credential ticket, task.credential = some credential →
      credential.kind = .migration → credential.token = token →
      p.state.redeemed token replies = some ticket → Fetched token p := by
    intro credential ticket hcredential hkind htoken hredeemed
    obtain ⟨blob, rest, hreplies⟩ := WorldServer.redeemed_string hredeemed
    cases hanswer with
    | givenUp => cases hreplies
    | replied =>
      cases task with
      | admitTicket offered admittedMs =>
        cases hcredential
        refine ⟨⟨credential, admittedMs, htask, htoken⟩, blob, ?_⟩
        rw [Option.some.inj hreplies]
        exact List.mem_cons_self
      | admitSession offered admittedMs =>
        cases hcredential
        cases hkind.symm.trans hawaits
      | touch => cases hcredential
      | handoff => cases hcredential
      | discard => cases hcredential
      | heartbeat => cases hcredential
  refine treats_launch env (p.state.hears_heard replies task)
    (WorldServer.outcome_resume env hsound.tidy (hsound.advertises task htask) now replies hawaits)
    (fun _ h => h.elim) (fun client plan stamped sentMs rest expired h hplan => ?_)
    (fun ticket hticket => ?_) fun credential ticket hadmits htoken => Or.inl ?_
  · subst h
    exact ⟨client, plan, stamped, sentMs, rest, expired, htask, hawaits.plan.symm.trans hplan⟩
  · rcases (p.state.hears_heard replies task).cached token ticket hticket with
      hold | ⟨credential, admittedMs, rfl, htoken, hnew⟩
    · exact Or.inl hold
    · exact Or.inr (hredeemed credential ticket rfl hawaits htoken.symm hnew)
  · obtain ⟨hcredential, ⟨-, hnone, -⟩ | ⟨hkind, heard, -, hheard, -⟩⟩ := hadmits
    · cases hnone
    · exact hredeemed credential heard hcredential hkind htoken (htoken ▸ hheard)

end

variable [LT R] [Add R] [Mul R] [Neg R] [DecidableLT R] [OfScientific R] (env : ShardEnv R A)

theorem treats_handled (token : Nat) {id : Bytes} {p : ShardProcess R A} (hsound : Sound id p)
    {action : ShardAction A} {progress : WorldServer.Progress R A}
    (hhandle : handle env p.state action = some progress) :
    Treats token action.offers p (Process.launch (shardBehaviour env) progress) := by
  refine treats_launch env (.refl p.state none (.discard 0 [] []))
    (outcome_handle env hsound.tidy hhandle) (fun _ h => h) (fun _ _ _ _ _ _ h => by cases h)
    (fun ticket h => Or.inl h) fun credential ticket hadmits htoken => Or.inr ?_
  obtain ⟨hoffers, ⟨hkind, cached, -, hcached, -⟩ | ⟨-, hnone, -⟩⟩ := hadmits
  · exact ⟨⟨cached, htoken ▸ hcached⟩, credential, hoffers, hkind, htoken⟩
  · cases hnone

theorem oneUse_step {token : Nat} {s : Fleet R A} (hsound : ∀ id, Sound id (s.shards id))
    (hsent : s.MatchSent) {a : FleetAction A} (honce : (s.step env a).DrawnOnce token)
    (hok : s.PresentedOnce token a) (h : s.OneUse token) : (s.step env a).OneUse token := by
  have hstep := s.step_spec env a
  generalize s.step env a = s' at hstep honce
  cases hstep with
  | stay => exact h
  | @handled id action progress hidle hhandle =>
    exact h.treat hsound (treats_handled env token (hsound id) hhandle) honce (hok hidle)
  | executed htask hnext => exact h.execute hsound htask hnext
  | @resent id task now htask =>
    refine h.of_places (s.setShard_state rfl) (s.setShard_task rfl) fun x hx => ?_
    cases x with
    | redis => exact hx
    | flight j =>
      rw [At, setShard_shards] at hx
      split at hx
      · obtain ⟨-, blob, hblob⟩ := hx
        cases hblob
      · exact hx
    | shard j =>
      rw [At, s.setShard_state (s.shards id).resent_state] at hx
      exact hx
  | @resumed id task _ now replies htask ha hanswer =>
    exact h.treat hsound (treats_resumed env token (hsound id) htask now hanswer) honce
      fun hbears => absurd hbears (not_bears_none token)
  | matchStarted => exact h.of_places (fun _ => rfl) (fun _ => rfl) fun x hx => by cases x <;> exact hx
  | @matchExecuted m task c htask hnext hexec =>
    have hmem : c ∈ (s.matchmakers m).state.commands task := by
      rw [← hsent m task htask]
      exact List.mem_of_getElem? hnext
    have hkind := Matchmaker.commands_ofShards hmem
    refine h.of_places (fun _ => rfl) (fun _ => rfl) fun x hx => ?_
    cases x with
    | redis =>
      rcases s.redis.tickets_exec c token with hsame | ⟨blob, ttl, rfl⟩ | ⟨-, hnone⟩
      · rwa [At, hsame] at hx
      · cases hkind
      · rw [At, hnone] at hx
        cases hx
    | flight j => exact hx
    | shard j => exact hx
  | matchResent => exact h.of_places (fun _ => rfl) (fun _ => rfl) fun x hx => by cases x <;> exact hx
  | matchResumed => exact h.of_places (fun _ => rfl) (fun _ => rfl) fun x hx => by cases x <;> exact hx
  | presenceExpired =>
    exact h.of_places (fun _ => rfl) (fun _ => rfl) fun x hx => by cases x <;> exact hx
  | ticketExpired expired =>
    refine h.of_places (fun _ => rfl) (fun _ => rfl) fun x hx => ?_
    cases x with
    | redis =>
      obtain ⟨blob, hblob⟩ := Option.isSome_iff_exists.mp hx
      exact Option.isSome_iff_exists.mpr ⟨blob, (Table.lookup_erase_some hblob).2⟩
    | flight j => exact hx
    | shard j => exact hx

theorem drawnOnce_of_step {token : Nat} {s : Fleet R A} (hsound : ∀ id, Sound id (s.shards id))
    {a : FleetAction A} (h : (s.step env a).DrawnOnce token) : s.DrawnOnce token := by
  have hkept : ∀ {j n}, n < (s.shards j).state.coordinator.draws →
      (s.shards j).state.coordinator.tokenAt n = token →
      n < ((s.step env a).shards j).state.coordinator.draws ∧
        ((s.step env a).shards j).state.coordinator.tokenAt n = token := by
    intro j n hn htoken
    obtain ⟨hrng, hdraws⟩ := coordinator_step env hsound a j
    refine ⟨Nat.lt_of_lt_of_le hn hdraws, ?_⟩
    rw [← htoken, ShardCoordinator.tokenAt, ShardCoordinator.tokenAt, hrng]
  intro i n j m hn htoken hm htoken'
  obtain ⟨hn, htoken⟩ := hkept hn htoken
  obtain ⟨hm, htoken'⟩ := hkept hm htoken'
  exact h i n j m hn htoken hm htoken'

/-- In every run in which one draw at most gave the token, and in which its bearer does not
show it again to a shard that has let it in and still has the ticket, the ticket is used
once at most on any shard, and on one shard at most. -/
theorem ticket_used_once {token : Nat} {s : Fleet R A} (hfresh : s.Fresh)
    {actions : List (FleetAction A)} (honce : (Run.run (step env) s actions).DrawnOnce token)
    (hok : Run.Along (step env) (PresentedOnce token) s actions) :
    (∀ id, ((Run.run (step env) s actions).shards id).state.uses token ≤ 1) ∧
      ∀ i j, 0 < ((Run.run (step env) s actions).shards i).state.uses token →
        0 < ((Run.run (step env) s actions).shards j).state.uses token → i = j := by
  have hrun := Run.invariant
    (fun s : Fleet R A => (∀ id, Sound id (s.shards id)) ∧ s.MatchSent ∧
      (s.DrawnOnce token → s.OneUse token))
    (fun s a hok h => ⟨sound_step env h.1 a, matchSent_step env h.2.1 a, fun honce =>
      oneUse_step env h.1 h.2.1 honce hok (h.2.2 (drawnOnce_of_step env h.1 honce))⟩)
    ⟨hfresh.sound, hfresh.matchSent, fun _ => hfresh.oneUse token⟩ hok
  have hone := hrun.2.2 honce
  refine ⟨hone.uses, fun i j hi hj => ?_⟩
  cases hone.place (.shard i) (.shard j) (Or.inr hi) (Or.inr hj)
  rfl

/-- Ticket 7 is shown once it has been sent, to a shard that has not redeemed it. -/
def firstUse (s : Fleet ℚ Unit) (id : Bytes) : Option ConnectCredential → Bool
  | some { kind := .migration, token := 7, .. } =>
    (s.shards [97]).state.trace.contains (.redirected 1
      { ticket := 7, region := 1, endpoint := [2], shardId := [98] }) &&
      ((s.shards id).state.redeemedTickets.lookup 7).isNone
  | _ => true

def redeemsInOrder (s : Fleet ℚ Unit) : FleetAction Unit → Bool
  | .shard id action => s.firstUse id action.offers
  | _ => true

/-- The handoff from "a" to "b": one ticket, used once. -/
theorem ticket_used_once_crossing :
    (∀ id, ((Run.run (step .eastward) quiet (arrival ++ departure ++ landing)).shards
        id).state.uses 7 ≤ 1) ∧
      ∀ i j, 0 < ((Run.run (step .eastward) quiet (arrival ++ departure ++ landing)).shards
          i).state.uses 7 →
        0 < ((Run.run (step .eastward) quiet (arrival ++ departure ++ landing)).shards
          j).state.uses 7 → i = j := by
  have hdraws : ∀ id n, n < ((Run.run (step .eastward) quiet (arrival ++ departure ++
      landing)).shards id).state.coordinator.draws → id = [97] ∧ n = 0 := by
    intro id n hn
    by_cases ha : id = [97]
    · subst ha
      have hone : ((Run.run (step .eastward) quiet (arrival ++ departure ++ landing)).shards
          [97]).state.coordinator.draws = 1 := by decide +kernel
      exact ⟨rfl, by omega⟩
    · exfalso
      by_cases hb : id = [98]
      · subst hb
        have hzero : ((Run.run (step .eastward) quiet (arrival ++ departure ++ landing)).shards
            [98]).state.coordinator.draws = 0 := by decide +kernel
        omega
      · rw [run_untouched] at hn
        · cases hn
        · have hids : ∀ a ∈ arrival ++ departure ++ landing,
              shardId a = none ∨ shardId a = some [97] ∨ shardId a = some [98] := by decide
          intro a hmem hid
          rcases hids a hmem with h | h | h
          · cases h.symm.trans hid
          · cases h.symm.trans hid
            exact ha rfl
          · cases h.symm.trans hid
            exact hb rfl
  refine ticket_used_once .eastward fresh_quiet (fun i n j m hn _ hm _ => ?_) ?_
  · rw [(hdraws i n hn).1, (hdraws j m hm).1, (hdraws i n hn).2, (hdraws j m hm).2]
    exact ⟨rfl, rfl⟩
  · have hplain : Run.Along (step .eastward) (fun (s : Fleet ℚ Unit) a => s.redeemsInOrder a = true)
        quiet (arrival ++ departure ++ landing) := by
      decide +kernel
    refine Run.along_mono (fun s a h => ?_) hplain
    cases a with
    | shard id action =>
      rintro - ⟨⟨kind, token, playerId⟩, hoffers, rfl, rfl⟩
      simp only [redeemsInOrder, hoffers, firstUse, Bool.and_eq_true, List.contains_eq_mem,
        decide_eq_true_eq, Option.isNone_iff_eq_none] at h
      refine ⟨⟨[97], 1, _, h.1, rfl⟩, fun ticket hticket => ?_⟩
      cases h.2.symm.trans hticket
    | _ => trivial

/-- Player "p" shows "b" the ticket once more, and is put back where it came in. -/
theorem ticket_used_twice :
    ((Run.run (step .eastward) quiet (arrival ++ departure ++ landing ++
      [.shard [98] (.connect (some { kind := .migration, token := 7, playerId := [112] })
        0)])).shards [98]).state.uses 7 = 2 := by
  decide +kernel

end Fleet
end Morton.App
