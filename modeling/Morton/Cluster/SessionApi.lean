import Morton.Cluster.Matchmaker
import Morton.Net.JsonObject

/-! The session endpoint of the matchmaker: the request handler and the grant it answers with.
The player chooses the id in the grant, and the client looks the other values up behind it. -/
namespace Morton.Cluster
open Net Text

/-- An error carries the reason. -/
def sessionGrantJson : Except HttpText SessionGrant → HttpText
  | .error reason => ascii "\x7b\"ok\":false,\"reason\":\"" ++ jsonEscape reason ++ ascii "\"\x7d"
  | .ok grant =>
    ascii "\x7b\"ok\":true,\"reconnect\":" ++ ascii (if grant.reconnect then "true" else "false") ++
      ascii ",\"player\":\"" ++ jsonEscape grant.playerId ++ ascii "\",\"shard\":\"" ++
      jsonEscape grant.shardId ++ ascii "\",\"endpoint\":\"" ++ jsonEscape grant.udpEndpoint ++
      ascii "\",\"region\":" ++ decimal grant.region ++ ascii ",\"token\":\"" ++
      decimal grant.sessionToken ++ ascii "\"\x7d"

/-- `session_handler`; what `assign` returns is an argument. -/
def sessionHandler (assign : HttpText → Except HttpText SessionGrant) (request : HttpRequest) :
    HttpResponse :=
  let player := request.queryValue (ascii "player")
  if player = [] ∨ 64 < player.length then
    .badRequest (ascii "player id must be 1-64 characters")
  else
    let grant := assign player
    { HttpResponse.json (sessionGrantJson grant) with
      status := match grant with
        | .ok _ => 200
        | .error _ => 503 }

/-- The routes of a session; the other endpoints are left out. -/
def sessionRoutes (assign : HttpText → Except HttpText SessionGrant) (route : HttpText) :
    Option (HttpRequest → HttpResponse) :=
  if route = ascii "POST /session" ∨ route = ascii "GET /session" then some (sessionHandler assign)
  else none

namespace SessionGrant

/-- The members of a grant, in the order in which it is written. -/
def members (grant : SessionGrant) : List Member :=
  [.bare (ascii "ok") (ascii "true"),
    .bare (ascii "reconnect") (ascii (if grant.reconnect then "true" else "false")),
    .quoted (ascii "player") grant.playerId,
    .quoted (ascii "shard") grant.shardId,
    .quoted (ascii "endpoint") grant.udpEndpoint,
    .bare (ascii "region") (decimal grant.region),
    .quoted (ascii "token") (decimal grant.sessionToken)]

theorem plain_decimal (n : Nat) : Member.Plain (decimal n) := by
  intro c hc
  obtain ⟨hlow, hhigh⟩ := digit_bounds (isDigit_of_mem_decimal hc)
  refine ⟨fun h => ?_, fun h => ?_, UInt8.le_iff_toNat_le.mpr (Nat.le_trans (by decide) hlow)⟩
  · rw [h] at hlow
    exact absurd hlow (by decide)
  · rw [h] at hhigh
    exact absurd hhigh (by decide)

theorem members_wellFormed (grant : SessionGrant) : ∀ m ∈ grant.members, m.WellFormed := by
  have hwords : ∀ name ∈ ["ok", "reconnect", "player", "shard", "endpoint", "region", "token"],
      Member.Word (ascii name) := by decide +kernel
  have hdigits : decimal grant.region ≠ [] ∧ ∀ c ∈ decimal grant.region, c ≠ 34 ∧ c ≠ 44 ∧ c ≠ 125 := by
    refine ⟨decimal_ne_nil _, fun c hc => ?_⟩
    obtain ⟨hlow, hhigh⟩ := digit_bounds (isDigit_of_mem_decimal hc)
    refine ⟨fun h => ?_, fun h => ?_, fun h => ?_⟩
    · rw [h] at hlow
      exact absurd hlow (by decide)
    · rw [h] at hlow
      exact absurd hlow (by decide)
    · rw [h] at hhigh
      exact absurd hhigh (by decide)
  intro m hm
  simp only [members, List.mem_cons, List.not_mem_nil, or_false] at hm
  rcases hm with rfl | rfl | rfl | rfl | rfl | rfl | rfl
  · exact ⟨hwords _ (by decide), by decide +kernel⟩
  · refine ⟨hwords _ (by decide), ?_⟩
    cases grant.reconnect <;> decide +kernel
  · exact hwords "player" (by decide)
  · exact hwords "shard" (by decide)
  · exact hwords "endpoint" (by decide)
  · exact ⟨hwords _ (by decide), hdigits⟩
  · exact hwords "token" (by decide)

/-- A grant is written member by member. -/
theorem sessionGrantJson_eq (grant : SessionGrant) :
    sessionGrantJson (.ok grant) = objectText grant.members := by
  have htoken := jsonEscape_plain (plain_decimal grant.sessionToken)
  simp only [sessionGrantJson, members, objectText, objectTail, Member.bytes, htoken,
    List.append_assoc, List.cons_append]
  rfl

/-- Whatever the id is, every other value of a grant is found as it was granted. -/
theorem lookups_give_the_grant (grant : SessionGrant) (hshard : Member.Plain grant.shardId)
    (hendpoint : Member.Plain grant.udpEndpoint) :
    jsonLookup (sessionGrantJson (.ok grant)) (ascii "endpoint") = grant.udpEndpoint ∧
      jsonLookup (sessionGrantJson (.ok grant)) (ascii "shard") = grant.shardId ∧
      jsonLookup (sessionGrantJson (.ok grant)) (ascii "region") = decimal grant.region ∧
      jsonLookup (sessionGrantJson (.ok grant)) (ascii "token") = decimal grant.sessionToken ∧
      jsonLookup (sessionGrantJson (.ok grant)) (ascii "reconnect") =
        ascii (if grant.reconnect then "true" else "false") := by
  have hwell := grant.members_wellFormed
  have hnames : (grant.members.map Member.name).Nodup := by
    have hall : (["ok", "reconnect", "player", "shard", "endpoint", "region", "token"].map
      ascii).Nodup := by decide +kernel
    exact hall
  -- the members before the one looked up have other names
  have hlookup : ∀ before m after, grant.members = before ++ m :: after →
      (∀ name text, m = .quoted name text → Member.Plain text) →
      jsonLookup (sessionGrantJson (.ok grant)) m.name = m.value := by
    intro before m after hsplit hplain
    rw [hsplit] at hwell hnames
    rw [sessionGrantJson_eq, hsplit]
    apply jsonLookup_object (hwell m (by simp)) _ hplain
    intro n hn
    refine ⟨hwell n (by simp [hn]), fun heq => ?_⟩
    rw [List.map_append, List.map_cons] at hnames
    have hapart := (List.nodup_append.mp hnames).2.2
    exact hapart n.name (List.mem_map_of_mem hn) m.name List.mem_cons_self heq
  refine ⟨?_, ?_, ?_, ?_, ?_⟩
  · exact hlookup (grant.members.take 4) (.quoted (ascii "endpoint") grant.udpEndpoint) _ rfl
      fun name text h => by cases h; exact hendpoint
  · exact hlookup (grant.members.take 3) (.quoted (ascii "shard") grant.shardId) _ rfl
      fun name text h => by cases h; exact hshard
  · exact hlookup (grant.members.take 5) (.bare (ascii "region") (decimal grant.region)) _ rfl
      fun name text h => by cases h
  · exact hlookup (grant.members.take 6) (.quoted (ascii "token") (decimal grant.sessionToken)) _ rfl
      fun name text h => by cases h; exact plain_decimal _
  · exact hlookup (grant.members.take 1) (.bare (ascii "reconnect") _) _ rfl
      fun name text h => by cases h

/-- The id imitates the keys behind it. -/
def imitator : SessionGrant :=
  { playerId := ascii "\",\"shard\":\"x\",\"endpoint\":\"6.6.6.6:1\",\"token\":\"9"
    shardId := ascii "s1"
    udpEndpoint := ascii "10.0.0.1:7777"
    region := 3
    sessionToken := 77
    reconnect := true }

theorem lookups_give_the_grant_imitated :
    jsonLookup (sessionGrantJson (.ok imitator)) (ascii "endpoint") = ascii "10.0.0.1:7777" ∧
      jsonLookup (sessionGrantJson (.ok imitator)) (ascii "shard") = ascii "s1" ∧
      jsonLookup (sessionGrantJson (.ok imitator)) (ascii "region") = decimal 3 ∧
      jsonLookup (sessionGrantJson (.ok imitator)) (ascii "token") = decimal 77 ∧
      jsonLookup (sessionGrantJson (.ok imitator)) (ascii "reconnect") = ascii "true" :=
  lookups_give_the_grant imitator (by decide +kernel) (by decide +kernel)

end SessionGrant
end Morton.Cluster
