import Morton.Cluster.Redis

/-! What one command does to the record of one player and to one ticket. -/
namespace Morton.Cluster.Redis
open Proto

/-- The shard a player's record names. -/
def shardOf (r : Redis) (player : Bytes) : Option Bytes :=
  (r.presence.lookup player).map PresenceHash.shard

theorem heldElsewhere_eq_false_iff (r : Redis) (player shard : Bytes) :
    r.heldElsewhere player shard = false ↔ ∀ named, r.shardOf player = some named → named = shard := by
  unfold heldElsewhere shardOf
  cases r.presence.lookup player with
  | none => simp
  | some hash => simp

/-- A claim asks what a transfer asks. -/
theorem claim_fst (r : Redis) (player shard : Bytes) (region session updated : Nat) :
    (r.claim player shard region session updated).1 =
      if r.heldElsewhere player shard then r
      else (claim.take player shard region session updated r).1 := by
  unfold claim heldElsewhere
  cases r.presence.lookup player with
  | none => rfl
  | some hash =>
    by_cases hsame : hash.shard = shard
    · simp [hsame]
    · simp [hsame]

/-- The commands that write a record, each with what it writes and what it asked for. -/
theorem presence_exec (r : Redis) (c : RedisCommand) (player : Bytes) :
    (r.exec c).1.presence.lookup player = r.presence.lookup player ∨
    (∃ shard region session updated, c = .setPresence player shard region session updated ∧
      (r.exec c).1.presence.lookup player = some ⟨shard, region, some session, updated⟩) ∨
    (∃ fromShard toShard region updated ttl,
      c = .transfer player fromShard toShard region updated ttl ∧
      (∀ named, r.shardOf player = some named → named = fromShard) ∧
      (r.exec c).1.presence.lookup player =
        some ⟨toShard, region, (r.presence.lookup player).bind PresenceHash.session, updated⟩) ∨
    (∃ shard region session updated ttl,
      c = .claim player shard region session updated ttl ∧
      (∀ named, r.shardOf player = some named → named = shard) ∧
      (r.exec c).1.presence.lookup player = some ⟨shard, region, some session, updated⟩) ∨
    (c = .delPresence player ∧ (r.exec c).1.presence.lookup player = none) := by
  cases c with
  | setTicket token blob ttl =>
    refine Or.inl ?_
    rw [exec]
    cases r.tickets.lookup token <;> rfl
  | getDelTicket token =>
    refine Or.inl ?_
    rw [exec]
    cases r.tickets.lookup token <;> rfl
  | delTicket token => exact Or.inl rfl
  | transfer q fromShard toShard region updated ttl =>
    rw [exec, transfer]
    cases hheld : r.heldElsewhere q fromShard with
    | true => exact Or.inl (by simp)
    | false =>
      simp only [Bool.false_eq_true, if_false, addRoster_presence, remRoster_presence,
        Table.lookup_insert]
      by_cases hq : player = q
      · subst hq
        refine Or.inr (Or.inr (Or.inl ⟨_, _, _, _, _, rfl, ?_, if_pos rfl⟩))
        exact (r.heldElsewhere_eq_false_iff player fromShard).mp hheld
      · exact Or.inl (if_neg hq)
  | claim q shard region session updated ttl =>
    rw [exec, claim_fst]
    cases hheld : r.heldElsewhere q shard with
    | true => exact Or.inl (by simp)
    | false =>
      simp only [Bool.false_eq_true, if_false, claim.take, addRoster_presence, Table.lookup_insert]
      by_cases hq : player = q
      · subst hq
        refine Or.inr (Or.inr (Or.inr (Or.inl ⟨_, _, _, _, _, rfl, ?_, if_pos rfl⟩)))
        exact (r.heldElsewhere_eq_false_iff player shard).mp hheld
      · exact Or.inl (if_neg hq)
  | setPresence q shard region session updated =>
    rw [exec]
    simp only [Table.lookup_insert]
    by_cases hq : player = q
    · subst hq
      exact Or.inr (Or.inl ⟨_, _, _, _, rfl, if_pos rfl⟩)
    · exact Or.inl (if_neg hq)
  | expirePresence q ttl => exact Or.inl rfl
  | getPresence q => exact Or.inl rfl
  | delPresence q =>
    rw [exec]
    simp only [Table.lookup_erase]
    by_cases hq : player = q
    · exact Or.inr (Or.inr (Or.inr (Or.inr ⟨by rw [hq], if_pos hq⟩)))
    · exact Or.inl (if_neg hq)
  | addRoster shard q => exact Or.inl rfl
  | remRoster shard q => exact Or.inl rfl
  | expireRoster shard ttl => exact Or.inl rfl

/-- The commands that write or remove a ticket. -/
theorem tickets_exec (r : Redis) (c : RedisCommand) (token : Nat) :
    (r.exec c).1.tickets.lookup token = r.tickets.lookup token ∨
    (∃ blob ttl, c = .setTicket token blob ttl) ∨
    ((c = .getDelTicket token ∨ c = .delTicket token) ∧
      (r.exec c).1.tickets.lookup token = none) := by
  cases c with
  | setTicket t blob ttl =>
    by_cases ht : token = t
    · exact Or.inr (Or.inl ⟨blob, ttl, by rw [ht]⟩)
    · refine Or.inl ?_
      rw [exec]
      cases r.tickets.lookup t with
      | some old => rfl
      | none => exact (Table.lookup_insert _ _ _ _).trans (if_neg ht)
  | getDelTicket t =>
    rw [exec]
    cases hlookup : r.tickets.lookup t with
    | none => exact Or.inl rfl
    | some blob =>
      simp only [Table.lookup_erase]
      by_cases ht : token = t
      · exact Or.inr (Or.inr ⟨Or.inl (by rw [ht]), if_pos ht⟩)
      · exact Or.inl (if_neg ht)
  | delTicket t =>
    rw [exec]
    simp only [Table.lookup_erase]
    by_cases ht : token = t
    · exact Or.inr (Or.inr ⟨Or.inr (by rw [ht]), if_pos ht⟩)
    · exact Or.inl (if_neg ht)
  | transfer q fromShard toShard region updated ttl =>
    refine Or.inl ?_
    rw [exec, transfer]
    split <;> rfl
  | claim q shard region session updated ttl =>
    refine Or.inl ?_
    rw [exec, claim]
    split
    · split <;> rfl
    · rfl
  | setPresence q shard region session updated => exact Or.inl rfl
  | expirePresence q ttl => exact Or.inl rfl
  | getPresence q => exact Or.inl rfl
  | delPresence q => exact Or.inl rfl
  | addRoster shard q => exact Or.inl rfl
  | remRoster shard q => exact Or.inl rfl
  | expireRoster shard ttl => exact Or.inl rfl

/-- Only `HGETALL` shows a record, and the one that is there. -/
theorem exec_hash {r : Redis} {c : RedisCommand} {found : Option PresenceHash}
    (h : (r.exec c).2 = .hash found) :
    ∃ player, c = .getPresence player ∧ r.presence.lookup player = found := by
  cases c with
  | getPresence player =>
    cases h
    exact ⟨player, rfl, rfl⟩
  | setTicket token blob ttl =>
    rw [exec] at h
    split at h <;> cases h
  | getDelTicket token =>
    rw [exec] at h
    split at h <;> cases h
  | transfer player fromShard toShard region updated ttl =>
    rw [exec, transfer] at h
    split at h <;> cases h
  | claim player shard region session updated ttl =>
    rw [exec, claim] at h
    split at h
    · split at h <;> cases h
    · cases h
  | delTicket token => cases h
  | setPresence player shard region session updated => cases h
  | expirePresence player ttl => cases h
  | delPresence player => cases h
  | addRoster shard player => cases h
  | remRoster shard player => cases h
  | expireRoster shard ttl => cases h

/-- Only `GETDEL` answers with a ticket, and takes it out. -/
theorem exec_string {r : Redis} {c : RedisCommand} {token : Nat} {blob : Bytes}
    (hc : c = .getDelTicket token) (h : (r.exec c).2 = .string blob) :
    r.tickets.lookup token = some blob ∧ (r.exec c).1.tickets.lookup token = none := by
  subst hc
  rw [exec] at h ⊢
  split at h
  · rename_i found hfound
    cases h
    exact ⟨hfound, Finmap.lookup_erase _ _⟩
  · cases h

end Morton.Cluster.Redis
