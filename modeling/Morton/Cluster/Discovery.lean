import Mathlib.Logic.Function.Basic
import Morton.Base.Process
import Morton.Base.Run
import Morton.Base.Table
import Morton.Cluster.Shard

/-! The shard registry: the heartbeats of one shard, and other processes that discover the
live shards and prune the set of members. Discovery reads the members, reads their hashes and
prunes in three round trips, and the heartbeat comes in between wherever it likes. -/
namespace Morton.Cluster
open Proto

/-- The part of Redis behind the registry. The hash of a shard expires at any time. -/
structure Directory where
  shards : Table Bytes ShardInfo := ∅
  members : List Bytes := []
  rosters : Table Bytes (List Bytes) := ∅

inductive DirectoryCommand
  /-- `HSET shard` with the fields of the record -/
  | setShard (shard : ShardInfo)
  /-- `PEXPIRE shard ttl` -/
  | expireShard (id : Bytes) (ttl : Nat)
  /-- `SADD shards id` -/
  | addMember (id : Bytes)
  /-- `SMEMBERS shards` -/
  | getMembers
  /-- `HGETALL shard` -/
  | getShard (id : Bytes)
  /-- `SREM shards id` -/
  | remMember (id : Bytes)
  /-- `DEL roster` -/
  | delRoster (id : Bytes)
  deriving DecidableEq

inductive DirectoryReply
  | integer (value : Nat)
  | strings (values : List Bytes)
  /-- The array `HGETALL` returns; empty for a missing key. -/
  | hash (value : Option ShardInfo)
  deriving DecidableEq

namespace Directory

def exec (d : Directory) : DirectoryCommand → Directory × DirectoryReply
  | .setShard shard =>
    ({ d with shards := d.shards.insert shard.id shard },
      .integer (if (d.shards.lookup shard.id).isSome then 0 else 7))
  | .expireShard id _ => (d, .integer (if (d.shards.lookup id).isSome then 1 else 0))
  | .addMember id =>
    ({ d with members := d.members.insert id }, .integer (if d.members.contains id then 0 else 1))
  | .getMembers => (d, .strings d.members)
  | .getShard id => (d, .hash (d.shards.lookup id))
  | .remMember id =>
    ({ d with members := d.members.filter (· ≠ id) }, .integer (if d.members.contains id then 1 else 0))
  | .delRoster id =>
    ({ d with rosters := d.rosters.erase id },
      .integer (if (d.rosters.lookup id).isSome then 1 else 0))

end Directory

structure HeartbeatTask where
  shard : ShardInfo
  ttl : Nat

/-- `heartbeat_shard` in a process that counts those that returned true. -/
def heartbeatBehaviour : Behaviour Nat HeartbeatTask DirectoryCommand DirectoryReply where
  commands _ task :=
    [.setShard task.shard, .expireShard task.shard.id task.ttl, .addMember task.shard.id]
  resume completed _ replies _ := (if replies.isSome then completed + 1 else completed, none)

/-- Where `live_shards` waits for Redis. -/
inductive DiscoveryTask
  | members
  | hashes (ids : List Bytes)
  | prune (live : List ShardInfo) (dead : List Bytes)

/-- One turn of the loop over the hashes. -/
def sortHash (sorted : List ShardInfo × List Bytes) (row : Bytes × DirectoryReply) :
    List ShardInfo × List Bytes :=
  match row.2 with
  | .hash (some shard) => (sorted.1 ++ [{ shard with id := row.1 }], sorted.2)
  | _ => (sorted.1, sorted.2 ++ [row.1])

/-- The shards whose hash was found, and the ids of the others. -/
def sortOut (ids : List Bytes) (hashes : List DirectoryReply) : List ShardInfo × List Bytes :=
  (ids.zip hashes).foldl sortHash ([], [])

/-- `live_shards` in a process that keeps what it returned last. -/
def discoveryBehaviour :
    Behaviour (List ShardInfo) DiscoveryTask DirectoryCommand DirectoryReply where
  commands _
    | .members => [.getMembers]
    | .hashes ids => ids.map .getShard
    | .prune _ dead => dead.flatMap fun id => [.remMember id, .delRoster id]
  resume _ _ replies
    | .members =>
      match replies with
      | some (.strings ids :: _) => if ids.isEmpty then ([], none) else ([], some (.hashes ids))
      | _ => ([], none)
    | .hashes ids =>
      match replies with
      | some hashes =>
        if hashes.length ≠ ids.length then ([], none)
        else
          let (live, dead) := sortOut ids hashes
          if dead.isEmpty then (live, none) else (live, some (.prune live dead))
      | none => ([], none)
    | .prune live _ => (live, none)

abbrev HeartbeatProcess := Process Nat HeartbeatTask DirectoryCommand DirectoryReply

abbrev DiscoveryProcess := Process (List ShardInfo) DiscoveryTask DirectoryCommand DirectoryReply

/-- One shard, and the processes that look for shards. `standing` records that a heartbeat of
the shard has been executed as a whole and its key has not expired since. -/
structure Registry where
  directory : Directory := {}
  self : Bytes
  beat : HeartbeatProcess := { state := 0 }
  lookers : Nat → DiscoveryProcess := fun _ => { state := [] }
  standing : Bool := false

inductive RegistryAction
  | heartbeat (shard : ShardInfo) (ttl : Nat)
  | beatAdvance
  | beatLose (now : Nat)
  | beatAnswer (now : Nat)
  | discover (looker : Nat)
  | advance (looker : Nat)
  | lose (looker : Nat) (now : Nat)
  | answer (looker : Nat) (now : Nat)
  | expire (id : Bytes)

namespace Registry

def setLooker (r : Registry) (looker : Nat) (p : DiscoveryProcess) : Registry :=
  { r with lookers := Function.update r.lookers looker p }

/-- The last command of a heartbeat completes it, if the key is still there. -/
def completes (r : Registry) : Bool :=
  decide (r.beat.next = some (.addMember r.self)) && (r.directory.shards.lookup r.self).isSome

def step (r : Registry) : RegistryAction → Registry
  | .heartbeat shard ttl =>
    match r.beat.task with
    | some _ => r
    | none =>
      if r.self.isEmpty then r
      else
        { r with
          beat := Process.launch heartbeatBehaviour
            (r.beat.state, some { shard := { shard with id := r.self }, ttl }) }
  | .beatAdvance =>
    { r with
      directory := (r.beat.advance Directory.exec r.directory).1
      beat := (r.beat.advance Directory.exec r.directory).2
      standing := r.standing || r.completes }
  | .beatLose now => { r with beat := r.beat.lose heartbeatBehaviour now }
  | .beatAnswer now => { r with beat := r.beat.answer heartbeatBehaviour now }
  | .discover looker =>
    match (r.lookers looker).task with
    | some _ => r
    | none =>
      r.setLooker looker
        (Process.launch discoveryBehaviour ((r.lookers looker).state, some .members))
  | .advance looker =>
    { r.setLooker looker ((r.lookers looker).advance Directory.exec r.directory).2 with
      directory := ((r.lookers looker).advance Directory.exec r.directory).1 }
  | .lose looker now =>
    r.setLooker looker ((r.lookers looker).lose discoveryBehaviour now)
  | .answer looker now =>
    r.setLooker looker ((r.lookers looker).answer discoveryBehaviour now)
  | .expire id =>
    { r with
      directory := { r.directory with shards := r.directory.shards.erase id }
      standing := r.standing && decide (id ≠ r.self) }

/-- A shard whose completed heartbeat is still live can be discovered. -/
def Discoverable (r : Registry) : Prop := r.standing = true → r.self ∈ r.directory.members

/-- The step is no `SREM` of a shard that stands. -/
def Spares (r : Registry) (action : RegistryAction) : Prop :=
  ∀ looker, action = .advance looker →
    (r.lookers looker).next = some (.remMember r.self) → r.standing = false

/-- Nobody is waiting for Redis, and no heartbeat has been made yet. -/
def start (directory : Directory) (self : Bytes) : Registry := { directory, self }

theorem mem_members_exec {d : Directory} {id : Bytes} (h : id ∈ d.members) {c : DirectoryCommand}
    (hc : c ≠ .remMember id) : id ∈ (d.exec c).1.members := by
  cases c with
  | setShard shard => exact h
  | expireShard other ttl => exact h
  | addMember other => exact List.mem_insert_of_mem h
  | getMembers => exact h
  | getShard other => exact h
  | remMember other =>
    apply List.mem_filter.mpr
    have hne : id ≠ other := fun heq => hc (heq ▸ rfl)
    exact ⟨h, decide_eq_true hne⟩
  | delRoster other => exact h

/-- What the heartbeat has on its way removes nobody. -/
def Beating (r : Registry) : Prop := ∀ c ∈ r.beat.flight.commands, ∀ id, c ≠ .remMember id

@[simp] theorem setLooker_beat (r : Registry) (looker : Nat) (p : DiscoveryProcess) :
    (r.setLooker looker p).beat = r.beat := rfl

theorem launch_beats (outcome : Nat × Option HeartbeatTask) :
    ∀ c ∈ (Process.launch heartbeatBehaviour outcome).flight.commands, ∀ id, c ≠ .remMember id := by
  intro c hc id
  obtain ⟨state, task⟩ := outcome
  cases task with
  | none => cases hc
  | some task =>
    simp only [Process.launch, heartbeatBehaviour, Option.elim_some, List.mem_cons,
      List.not_mem_nil, or_false] at hc
    rcases hc with rfl | rfl | rfl <;> exact DirectoryCommand.noConfusion

theorem Beating.step {r : Registry} (h : r.Beating) (action : RegistryAction) :
    (r.step action).Beating := by
  cases action with
  | heartbeat shard ttl =>
    unfold Registry.step
    dsimp only
    split
    · exact h
    · split
      · exact h
      · exact launch_beats _
  | beatAdvance =>
    cases r.beat.advance_cases Directory.exec r.directory with
    | inl hidle =>
      unfold Beating Registry.step
      rw [hidle.2]
      exact h
    | inr hnext =>
      obtain ⟨task, c, -, -, -, hadvance⟩ := hnext
      unfold Beating Registry.step
      rw [hadvance]
      exact h
  | beatLose now =>
    unfold Beating Registry.step
    dsimp only
    rcases r.beat.lose_cases heartbeatBehaviour now with hsame | ⟨task, -, hresent⟩ |
        ⟨task, -, -, hlaunch⟩
    · rw [hsame]
      exact h
    · rw [hresent]
      exact h
    · rw [hlaunch]
      exact launch_beats _
  | beatAnswer now =>
    unfold Beating Registry.step
    dsimp only
    cases r.beat.answer_cases heartbeatBehaviour now with
    | inl hsame =>
      rw [hsame]
      exact h
    | inr hanswered =>
      obtain ⟨task, -, -, hlaunch⟩ := hanswered
      rw [hlaunch]
      exact launch_beats _
  | discover looker =>
    unfold Registry.step
    dsimp only
    split
    · exact h
    · exact h
  | advance looker => exact h
  | lose looker now => exact h
  | answer looker now => exact h
  | expire id => exact h

/-- The heartbeat's own commands keep the shard a member, and its last one makes it one. -/
theorem Discoverable.beatAdvance {r : Registry} (hbeating : r.Beating) (h : r.Discoverable) :
    (r.step .beatAdvance).Discoverable := by
  intro hstanding
  have hold : r.standing = true ∨ r.completes = true :=
    (Bool.or_eq_true r.standing r.completes).mp hstanding
  change r.self ∈ ((r.beat.advance Directory.exec r.directory).1).members
  cases r.beat.advance_cases Directory.exec r.directory with
  | inl hidle =>
    rw [hidle.2]
    cases hold with
    | inl hold => exact h hold
    | inr hcompletes =>
      unfold completes at hcompletes
      rw [hidle.1] at hcompletes
      cases hcompletes
  | inr hnext =>
    obtain ⟨task, c, -, hc, hnext, hadvance⟩ := hnext
    rw [hadvance]
    cases hold with
    | inl hold =>
      apply mem_members_exec (h hold)
      exact hbeating c (List.mem_of_getElem? hc) r.self
    | inr hcompletes =>
      unfold completes at hcompletes
      rw [hnext, Bool.and_eq_true, decide_eq_true_iff] at hcompletes
      rw [Option.some.inj hcompletes.1]
      exact List.mem_insert_self

/-- A looker's step hides the shard only by an `SREM` of it, and only if the shard stands. -/
theorem Discoverable.advance_iff {r : Registry} (h : r.Discoverable) (looker : Nat) :
    r.Spares (.advance looker) ↔ (r.step (.advance looker)).Discoverable := by
  unfold Spares Discoverable Registry.step setLooker
  dsimp only
  cases (r.lookers looker).advance_cases Directory.exec r.directory with
  | inl hidle =>
    rw [hidle.2]
    refine iff_of_true ?_ h
    intro other heq hnext
    cases heq
    rw [hidle.1] at hnext
    cases hnext
  | inr hnext =>
    obtain ⟨task, c, -, -, hnext, hadvance⟩ := hnext
    rw [hadvance]
    by_cases hc : c = .remMember r.self
    · subst hc
      constructor
      · intro hspares hstanding
        rw [hspares looker rfl hnext] at hstanding
        cases hstanding
      · intro hafter other heq _
        by_contra hstanding
        have hmem := hafter (by simpa using hstanding)
        simp [Directory.exec] at hmem
    · refine iff_of_true ?_ fun hstanding => mem_members_exec (h hstanding) hc
      intro other heq hsrem
      cases heq
      exact absurd (Option.some.inj (hnext.symm.trans hsrem)) hc

/-- An `SREM` is the only step that can hide the shard, and only if the shard stands. -/
theorem discoverable_step {r : Registry} (hbeating : r.Beating) (h : r.Discoverable)
    (action : RegistryAction) : r.Spares action ↔ (r.step action).Discoverable := by
  by_cases hother : ∀ looker, action ≠ .advance looker
  · have hspares : r.Spares action := fun looker heq => absurd heq (hother looker)
    refine iff_of_true hspares ?_
    cases action with
    | heartbeat shard ttl =>
      unfold Registry.step
      dsimp only
      split
      · exact h
      · split
        · exact h
        · exact h
    | beatAdvance => exact h.beatAdvance hbeating
    | beatLose now => exact h
    | beatAnswer now => exact h
    | discover looker =>
      unfold Registry.step
      dsimp only
      split
      · exact h
      · exact h
    | advance looker => exact absurd rfl (hother looker)
    | lose looker now => exact h
    | answer looker now => exact h
    | expire id =>
      intro hstanding
      exact h ((Bool.and_eq_true _ _).mp hstanding).1
  · rw [not_forall] at hother
    obtain ⟨looker, hlooker⟩ := hother
    rw [ne_eq, Classical.not_not] at hlooker
    subst hlooker
    exact h.advance_iff looker

/-- The looker's next command reads the hash of the shard and finds nothing. -/
def misses (r : Registry) (looker : Nat) : Bool :=
  decide ((r.lookers looker).next = some (.getShard r.self)) &&
    (r.directory.shards.lookup r.self).isNone

theorem exec_keeps_shard {d : Directory} {id : Bytes} (h : (d.shards.lookup id).isSome = true)
    (c : DirectoryCommand) : ((d.exec c).1.shards.lookup id).isSome = true := by
  cases c with
  | setShard shard =>
    by_cases heq : id = shard.id
    · subst heq
      simp [Directory.exec]
    · simpa [Directory.exec, heq] using h
  | expireShard other ttl => exact h
  | addMember other => exact h
  | getMembers => exact h
  | getShard other => exact h
  | remMember other => exact h
  | delRoster other => exact h

end Registry

/-- What a looker has learned of the shard: nothing, that its key was missing, or that and then
the shard came back. -/
inductive Glance
  | unseen
  | missing
  | returned
  deriving DecidableEq

/-- A completed heartbeat brings back what was missing. -/
def Glance.completed : Glance → Glance
  | .missing => .returned
  | glance => glance

def Glance.expired : Glance → Glance
  | .returned => .missing
  | glance => glance

/-- The registry, and what every looker has learned. -/
structure Lookout where
  registry : Registry
  glances : Nat → Glance := fun _ => .unseen

namespace Lookout

/-- The last read that found nothing counts, and the heartbeats and expiries after it. -/
def watch (l : Lookout) : RegistryAction → Nat → Glance
  | .advance looker =>
    if l.registry.misses looker then Function.update l.glances looker .missing else l.glances
  | .beatAdvance =>
    if l.registry.completes then fun looker => (l.glances looker).completed else l.glances
  | .expire id =>
    if id = l.registry.self then fun looker => (l.glances looker).expired else l.glances
  | _ => l.glances

def step (l : Lookout) (action : RegistryAction) : Lookout :=
  { registry := l.registry.step action, glances := l.watch action }

/-- No looker's `SREM` of the shard is overtaken by the shard's return: no heartbeat has been
completed after the read that found nothing, or the key has expired again. -/
def Prompt (l : Lookout) (action : RegistryAction) : Prop :=
  ∀ looker, action = .advance looker →
    (l.registry.lookers looker).next = some (.remMember l.registry.self) →
    l.glances looker ≠ .returned

/-- A looker is about to remove the shard only if it has missed it. -/
def Told (self : Bytes) (glance : Glance) (p : DiscoveryProcess) : Prop :=
  match p.task with
  | none => True
  | some .members => p.flight.commands = [.getMembers]
  | some (.hashes ids) =>
    p.flight.commands = ids.map .getShard ∧ (glance = .unseen →
      ∀ (i : Nat) (reply : DirectoryReply), ids[i]? = some self →
        p.flight.replies[i]? = some reply → ∃ shard, reply = .hash (some shard))
  | some (.prune _ dead) =>
    p.flight.commands = (dead.flatMap fun id => [.remMember id, .delRoster id]) ∧
      (glance = .unseen → self ∉ dead)

section
variable {self : Bytes} {glance glance' : Glance} {p : DiscoveryProcess}

theorem Told.mono (h : Told self glance p) (hunseen : glance' = .unseen → glance = .unseen) :
    Told self glance' p := by
  unfold Told at h ⊢
  cases htask : p.task with
  | none => trivial
  | some task =>
    rw [htask] at h
    cases task with
    | members => exact h
    | hashes ids => exact ⟨h.1, fun hglance => h.2 (hunseen hglance)⟩
    | prune live dead => exact ⟨h.1, fun hglance => h.2 (hunseen hglance)⟩

/-- A hash that was not found puts its member among the dead, and nothing else does. -/
theorem mem_sortHash {sorted : List ShardInfo × List Bytes} {row : Bytes × DirectoryReply}
    {id : Bytes} (h : id ∈ (sortHash sorted row).2) :
    id ∈ sorted.2 ∨ id = row.1 ∧ ∀ shard, row.2 ≠ .hash (some shard) := by
  unfold sortHash at h
  split at h
  · exact Or.inl h
  next hother =>
    cases List.mem_append.mp h with
    | inl hold => exact Or.inl hold
    | inr hnew => exact Or.inr ⟨List.mem_singleton.mp hnew, hother⟩

theorem mem_sortOut {ids : List Bytes} {hashes : List DirectoryReply} {id : Bytes}
    (h : id ∈ (sortOut ids hashes).2) :
    ∃ (i : Nat) (reply : DirectoryReply), ids[i]? = some id ∧ hashes[i]? = some reply ∧
      ∀ shard, reply ≠ .hash (some shard) := by
  have hfold : ∀ (rows : List (Bytes × DirectoryReply)) (sorted : List ShardInfo × List Bytes),
      id ∈ (rows.foldl sortHash sorted).2 →
      id ∈ sorted.2 ∨ ∃ reply, (id, reply) ∈ rows ∧ ∀ shard, reply ≠ .hash (some shard) := by
    intro rows
    induction rows with
    | nil => exact fun sorted h => Or.inl h
    | cons row rows ih =>
      intro sorted hmem
      rw [List.foldl_cons] at hmem
      cases ih _ hmem with
      | inr hlater =>
        obtain ⟨reply, hmem, hmissing⟩ := hlater
        exact Or.inr ⟨reply, List.mem_cons_of_mem _ hmem, hmissing⟩
      | inl hhere =>
        refine (mem_sortHash hhere).imp_right fun hnew => ?_
        obtain ⟨rfl, hmissing⟩ := hnew
        exact ⟨row.2, List.mem_cons_self, hmissing⟩
  obtain hnone | ⟨reply, hmem, hmissing⟩ := hfold (ids.zip hashes) ([], []) h
  · cases hnone
  · obtain ⟨i, hi⟩ := List.getElem?_of_mem hmem
    obtain ⟨hid, hreply⟩ := List.getElem?_zip_eq_some.mp hi
    exact ⟨i, reply, hid, hreply, hmissing⟩

theorem Told.discover (state : List ShardInfo) :
    Told self glance (Process.launch discoveryBehaviour (state, some .members)) :=
  show _ = _ from rfl

/-- Replies tell of the shard unless it is missed. -/
theorem Told.advance {d : Directory} (h : Told self glance p)
    (hmissed : p.next = some (.getShard self) → d.shards.lookup self = none →
      glance' ≠ .unseen) (hunseen : glance' = .unseen → glance = .unseen) :
    Told self glance' (p.advance Directory.exec d).2 := by
  cases p.advance_cases Directory.exec d with
  | inl hidle =>
    rw [hidle.2]
    exact h.mono hunseen
  | inr hnext =>
    obtain ⟨task, c, htask, hc, hcommand, hadvance⟩ := hnext
    rw [hadvance]
    unfold Told at h ⊢
    rw [Process.replied_task, htask]
    rw [htask] at h
    cases task with
    | members => exact h
    | prune live dead => exact ⟨h.1, fun hglance => h.2 (hunseen hglance)⟩
    | hashes ids =>
      refine ⟨h.1, fun hglance i reply hi hreply => ?_⟩
      rw [Process.replied_replies, List.getElem?_append] at hreply
      split at hreply
      · exact h.2 (hunseen hglance) i reply hi hreply
      next hlast =>
        -- the reply that has just come in
        have hone : i = p.flight.replies.length := by
          by_contra hne
          rw [List.getElem?_eq_none (by simp only [List.length_singleton]; omega)] at hreply
          cases hreply
        subst hone
        rw [Nat.sub_self] at hreply
        obtain rfl := Option.some.inj hreply
        have hread : c = .getShard self := by
          have hget : (p.flight.commands)[p.flight.replies.length]? = some c := hc
          rw [h.1, List.getElem?_map, hi] at hget
          exact (Option.some.inj hget).symm
        subst hread
        cases hlookup : d.shards.lookup self with
        | none => exact absurd hglance (hmissed hcommand hlookup)
        | some shard => exact ⟨shard, by rw [Directory.exec, hlookup]⟩

theorem Told.lose (h : Told self glance p) (now : Nat) :
    Told self glance (p.lose discoveryBehaviour now) := by
  rcases p.lose_cases discoveryBehaviour now with hsame | ⟨task, htask, hresent⟩ |
      ⟨task, htask, -, hlaunch⟩
  · rwa [hsame]
  · rw [hresent]
    unfold Told at h ⊢
    rw [Process.resent_task, htask]
    rw [htask] at h
    cases task with
    | members => exact h
    | prune live dead => exact h
    | hashes ids => exact ⟨h.1, fun _ i reply _ hreply => by simp at hreply⟩
  · rw [hlaunch]
    cases task with
    | members => trivial
    | hashes ids => trivial
    | prune live dead => trivial

/-- Whoever did not miss the shard does not prune it. -/
theorem Told.answer (h : Told self glance p) (now : Nat) :
    Told self glance (p.answer discoveryBehaviour now) := by
  cases p.answer_cases discoveryBehaviour now with
  | inl hsame => rwa [hsame]
  | inr hanswered =>
    obtain ⟨task, htask, -, hlaunch⟩ := hanswered
    rw [hlaunch]
    unfold Told at h
    rw [htask] at h
    cases task with
    | members =>
      simp only [discoveryBehaviour]
      split
      · split
        · trivial
        · exact ⟨rfl, fun _ i reply _ hreply => by simp [Process.launch] at hreply⟩
      · trivial
    | prune live dead => trivial
    | hashes ids =>
      simp only [discoveryBehaviour]
      split
      · trivial
      · split
        · trivial
        · refine ⟨rfl, fun hglance hdead => ?_⟩
          obtain ⟨i, reply, hid, hreply, hmissing⟩ := mem_sortOut hdead
          obtain ⟨shard, hfound⟩ := h.2 hglance i reply hid hreply
          exact hmissing shard hfound

/-- So an `SREM` of the shard comes from somebody who missed it. -/
theorem Told.missed (h : Told self glance p) (hnext : p.next = some (.remMember self)) :
    glance ≠ .unseen := by
  intro hglance
  unfold Process.next at hnext
  split at hnext
  next htask =>
    obtain ⟨task, htask⟩ := Option.isSome_iff_exists.mp htask
    have hmem := List.mem_of_getElem? hnext
    unfold Told at h
    rw [htask] at h
    cases task with
    | members =>
      rw [show p.flight.commands = _ from h] at hmem
      cases List.mem_singleton.mp hmem
    | hashes ids =>
      rw [h.1] at hmem
      obtain ⟨id, -, heq⟩ := List.mem_map.mp hmem
      cases heq
    | prune live dead =>
      rw [h.1] at hmem
      obtain ⟨id, hid, hcommand⟩ := List.mem_flatMap.mp hmem
      simp only [List.mem_cons, DirectoryCommand.remMember.injEq, reduceCtorEq, List.not_mem_nil,
        or_false] at hcommand
      exact h.2 hglance (hcommand ▸ hid)
  · cases hnext

end

theorem completed_unseen {glance : Glance} (h : glance.completed = .unseen) :
    glance = .unseen := by
  cases glance with
  | unseen => rfl
  | missing => cases h
  | returned => cases h

theorem expired_unseen {glance : Glance} (h : glance.expired = .unseen) : glance = .unseen := by
  cases glance with
  | unseen => rfl
  | missing => cases h
  | returned => cases h

/-- What the lookers have learned is so. -/
structure Informed (l : Lookout) : Prop where
  beating : l.registry.Beating
  live : l.registry.standing = true →
    (l.registry.directory.shards.lookup l.registry.self).isSome = true
  missing : ∀ looker, l.glances looker = .missing → l.registry.standing = false
  returned : ∀ looker, l.glances looker = .returned → l.registry.standing = true
  told : ∀ looker, Told l.registry.self (l.glances looker) (l.registry.lookers looker)

namespace Informed
variable {l : Lookout} (h : l.Informed)
include h

theorem beatAdvance : (l.step .beatAdvance).Informed := by
  have hbeating := h.beating.step .beatAdvance
  have hstanding : (l.step .beatAdvance).registry.standing =
      (l.registry.standing || l.registry.completes) := rfl
  have hglance : ∀ looker, (l.step .beatAdvance).glances looker =
      if l.registry.completes then (l.glances looker).completed else l.glances looker := by
    intro looker
    unfold step watch
    dsimp only
    split
    · rfl
    · rfl
  refine ⟨hbeating, fun hstands => ?_, fun looker hmissing => ?_, fun looker hreturned => ?_,
    fun looker => ?_⟩
  · have hlive : (l.registry.directory.shards.lookup l.registry.self).isSome = true := by
      rw [hstanding, Bool.or_eq_true] at hstands
      cases hstands with
      | inl hold => exact h.live hold
      | inr hcompletes => exact ((Bool.and_eq_true _ _).mp hcompletes).2
    change (((l.registry.beat.advance Directory.exec l.registry.directory).1).shards.lookup
      l.registry.self).isSome = true
    cases l.registry.beat.advance_cases Directory.exec l.registry.directory with
    | inl hidle =>
      rw [hidle.2]
      exact hlive
    | inr hnext =>
      obtain ⟨task, c, -, -, -, hadvance⟩ := hnext
      rw [hadvance]
      exact Registry.exec_keeps_shard hlive c
  · rw [hglance] at hmissing
    rw [hstanding]
    split at hmissing
    · cases hold : l.glances looker <;> rw [hold] at hmissing <;> cases hmissing
    next hcompletes => simp [h.missing looker hmissing, hcompletes]
  · rw [hglance] at hreturned
    rw [hstanding]
    split at hreturned
    next hcompletes => simp [hcompletes]
    · simp [h.returned looker hreturned]
  · refine (h.told looker).mono fun hunseen => ?_
    rw [hglance] at hunseen
    split at hunseen
    · exact completed_unseen hunseen
    · exact hunseen

theorem expire (id : Bytes) : (l.step (.expire id)).Informed := by
  have hbeating := h.beating.step (.expire id)
  by_cases hid : id = l.registry.self
  · subst hid
    have hstanding : (l.step (.expire l.registry.self)).registry.standing = false := by
      simp [step, Registry.step]
    have hglance : ∀ looker, (l.step (.expire l.registry.self)).glances looker =
        (l.glances looker).expired := by
      intro looker
      simp [step, watch]
    refine ⟨hbeating, fun hstands => ?_, fun _ _ => hstanding, fun looker hreturned => ?_,
      fun looker => (h.told looker).mono fun hunseen => ?_⟩
    · rw [hstanding] at hstands
      cases hstands
    · rw [hglance] at hreturned
      cases hold : l.glances looker <;> rw [hold] at hreturned <;> cases hreturned
    · exact expired_unseen (hglance looker ▸ hunseen)
  · have hglance : (l.step (.expire id)).glances = l.glances := if_neg hid
    have hstanding : (l.step (.expire id)).registry.standing = l.registry.standing := by
      simp [step, Registry.step, hid]
    refine ⟨hbeating, fun hstands => ?_, fun looker hmissing => ?_, fun looker hreturned => ?_,
      fun looker => ?_⟩
    · rw [hstanding] at hstands
      change ((l.registry.directory.shards.erase id).lookup l.registry.self).isSome = true
      rw [Table.lookup_erase, if_neg (Ne.symm hid)]
      exact h.live hstands
    · rw [hstanding]
      exact h.missing looker (hglance ▸ hmissing)
    · rw [hstanding]
      exact h.returned looker (hglance ▸ hreturned)
    · rw [hglance]
      exact h.told looker

theorem advance (looker : Nat) : (l.step (.advance looker)).Informed := by
  have hglance : (l.step (.advance looker)).glances =
      if l.registry.misses looker then Function.update l.glances looker .missing
      else l.glances := rfl
  -- a read that finds nothing comes when the shard does not stand
  have hmiss : l.registry.misses looker = true → l.registry.standing = false := by
    intro hmisses
    have hnone := ((Bool.and_eq_true _ _).mp hmisses).2
    by_contra hstands
    have hlive := h.live (by simpa using hstands)
    rw [Option.isNone_iff_eq_none.mp hnone] at hlive
    cases hlive
  refine ⟨h.beating.step _, fun hstands => ?_, fun other hmissing => ?_,
    fun other hreturned => ?_, fun other => ?_⟩
  · change (((l.registry.lookers looker).advance Directory.exec
      l.registry.directory).1.shards.lookup l.registry.self).isSome = true
    cases (l.registry.lookers looker).advance_cases Directory.exec l.registry.directory with
    | inl hidle =>
      rw [hidle.2]
      exact h.live hstands
    | inr hnext =>
      obtain ⟨task, c, -, -, -, hadvance⟩ := hnext
      rw [hadvance]
      exact Registry.exec_keeps_shard (h.live hstands) c
  · rw [hglance] at hmissing
    split at hmissing
    next hmisses => exact hmiss hmisses
    · exact h.missing other hmissing
  · rw [hglance] at hreturned
    split at hreturned
    · by_cases hother : other = looker
      · subst hother
        rw [Function.update_self] at hreturned
        cases hreturned
      · rw [Function.update_of_ne hother] at hreturned
        exact h.returned other hreturned
    · exact h.returned other hreturned
  · have hunseen : (l.step (.advance looker)).glances other = .unseen →
        l.glances other = .unseen := by
      rw [hglance]
      split
      · by_cases hother : other = looker
        · subst hother
          rw [Function.update_self]
          intro hnever
          cases hnever
        · rw [Function.update_of_ne hother]
          exact id
      · exact id
    change Told l.registry.self _ (Function.update l.registry.lookers looker _ other)
    by_cases hother : other = looker
    · subst hother
      rw [Function.update_self]
      refine (h.told other).advance (fun hnext hnone => ?_) hunseen
      have hmisses : l.registry.misses other = true := by
        simp [Registry.misses, hnext, hnone]
      rw [hglance, if_pos hmisses, Function.update_self]
      exact Glance.noConfusion
    · rw [Function.update_of_ne hother]
      exact (h.told other).mono hunseen

/-- Where nothing is read and the shard comes and goes for nobody, only the processes change. -/
theorem of_same {action : RegistryAction}
    (hglances : (l.step action).glances = l.glances)
    (hdirectory : (l.registry.step action).directory = l.registry.directory)
    (hstanding : (l.registry.step action).standing = l.registry.standing)
    (hself : (l.registry.step action).self = l.registry.self)
    (htold : ∀ looker, Told l.registry.self (l.glances looker)
      ((l.registry.step action).lookers looker)) : (l.step action).Informed := by
  refine ⟨h.beating.step action, ?_, ?_, ?_, ?_⟩
  · change (l.registry.step action).standing = true →
      ((l.registry.step action).directory.shards.lookup (l.registry.step action).self).isSome = true
    rw [hdirectory, hstanding, hself]
    exact h.live
  · rw [hglances]
    change ∀ looker, _ → (l.registry.step action).standing = false
    rw [hstanding]
    exact h.missing
  · rw [hglances]
    change ∀ looker, _ → (l.registry.step action).standing = true
    rw [hstanding]
    exact h.returned
  · rw [hglances]
    change ∀ looker, Told (l.registry.step action).self _ _
    rw [hself]
    exact htold

/-- The looker goes on without a reply. -/
theorem told_setLooker {looker : Nat} {p : DiscoveryProcess}
    (hp : Told l.registry.self (l.glances looker) p) (other : Nat) :
    Told l.registry.self (l.glances other) (Function.update l.registry.lookers looker p other) := by
  by_cases hother : other = looker
  · subst hother
    rw [Function.update_self]
    exact hp
  · rw [Function.update_of_ne hother]
    exact h.told other

theorem step (action : RegistryAction) : (l.step action).Informed := by
  cases action with
  | beatAdvance => exact h.beatAdvance
  | expire id => exact h.expire id
  | advance looker => exact h.advance looker
  | beatLose now => exact h.of_same rfl rfl rfl rfl h.told
  | beatAnswer now => exact h.of_same rfl rfl rfl rfl h.told
  | lose looker now =>
    exact h.of_same rfl rfl rfl rfl (h.told_setLooker ((h.told looker).lose now))
  | answer looker now =>
    exact h.of_same rfl rfl rfl rfl (h.told_setLooker ((h.told looker).answer now))
  | heartbeat shard ttl =>
    have hsame : ((l.registry.step (.heartbeat shard ttl)).directory,
        (l.registry.step (.heartbeat shard ttl)).standing,
        (l.registry.step (.heartbeat shard ttl)).self,
        (l.registry.step (.heartbeat shard ttl)).lookers) =
        (l.registry.directory, l.registry.standing, l.registry.self, l.registry.lookers) := by
      unfold Registry.step
      dsimp only
      split
      · rfl
      · split
        · rfl
        · rfl
    simp only [Prod.mk.injEq] at hsame
    obtain ⟨hdirectory, hstanding, hself, hlookers⟩ := hsame
    exact h.of_same rfl hdirectory hstanding hself (hlookers ▸ h.told)
  | discover looker =>
    cases htask : (l.registry.lookers looker).task with
    | some task =>
      have hsame : l.registry.step (.discover looker) = l.registry := by
        simp only [Registry.step, htask]
      refine h.of_same rfl (congrArg Registry.directory hsame) (congrArg Registry.standing hsame)
        (congrArg Registry.self hsame) ?_
      rw [hsame]
      exact h.told
    | none =>
      have hlaunch : l.registry.step (.discover looker) = l.registry.setLooker looker
          (Process.launch discoveryBehaviour
            ((l.registry.lookers looker).state, some .members)) := by
        simp only [Registry.step, htask]
      refine h.of_same rfl (hlaunch ▸ rfl) (hlaunch ▸ rfl) (hlaunch ▸ rfl) ?_
      rw [hlaunch]
      exact h.told_setLooker (Told.discover _)

/-- Whoever removes the shard has missed it, so the shard stands just if it came back. -/
theorem prompt_iff (action : RegistryAction) : l.Prompt action ↔ l.registry.Spares action := by
  constructor
  · intro hprompt looker heq hnext
    by_contra hstands
    have hmissed := (h.told looker).missed hnext
    cases hglance : l.glances looker with
    | unseen => exact hmissed hglance
    | missing => exact hstands (h.missing looker hglance)
    | returned => exact hprompt looker heq hnext hglance
  · intro hspares looker heq hnext hreturned
    have hstands := h.returned looker hreturned
    rw [hspares looker heq hnext] at hstands
    cases hstands

end Informed

/-- In a run every step keeps the shard discoverable while a completed heartbeat of it is live,
exactly when no `SREM` of it comes after a heartbeat that came after the read it goes by. -/
theorem discoverable_iff_prompt (directory : Directory) (self : Bytes)
    (actions : List RegistryAction) :
    Run.Along Registry.step (fun r action => (r.step action).Discoverable)
        (Registry.start directory self) actions ↔
      Run.Along step Prompt { registry := Registry.start directory self } actions := by
  have hstart : Informed { registry := Registry.start directory self } := by
    refine ⟨fun c hc => ?_, fun hstands => ?_, fun _ _ => rfl, fun _ hreturned => ?_,
      fun _ => trivial⟩
    · cases hc
    · cases hstands
    · cases hreturned
  have hstands : (Registry.start directory self).Discoverable := fun h => by cases h
  have hany : Run.Along step (fun _ _ => True) { registry := Registry.start directory self }
      actions := Run.along_of_forall _ fun _ _ => trivial
  have hregistry : ∀ l action, (step l action).registry = l.registry.step action :=
    fun _ _ => rfl
  rw [← Run.along_map registry hregistry (fun r action => (r.step action).Discoverable)
    { registry := Registry.start directory self }]
  exact Run.along_exact_given Informed (fun l => l.registry.Discoverable)
    (fun l action _ h => h.step action)
    (fun l action _ hinformed hdiscoverable => (hinformed.prompt_iff action).trans
      (Registry.discoverable_step hinformed.beating hdiscoverable action)) hstart hstands hany

end Lookout

namespace Registry

/-- The shard came back between the read of its hash and the prune: its heartbeat is complete,
its key is live, and the set of members does not name it. -/
theorem returned_shard_is_pruned :
    let shard : ShardInfo := { id := [97] }
    let r := [.discover 0, .advance 0, .answer 0 0, .advance 0, .answer 0 0, .heartbeat shard 3000,
      .beatAdvance, .beatAdvance, .beatAdvance, .beatAnswer 0, .advance 0].foldl step
        (start { members := [[97]] } [97])
    r.beat.state = 1 ∧ (r.directory.shards.lookup [97]).isSome ∧ r.directory.members = [] ∧
      ¬ r.Discoverable := by
  refine ⟨?_, ?_, ?_, ?_⟩
  · decide +kernel
  · decide +kernel
  · decide +kernel
  · unfold Discoverable
    decide +kernel

end Registry
end Morton.Cluster
