import Morton.Cluster.SessionApi
import Morton.Proto.EventCodec

/-! The login of a client: its player id goes into a URL, through the session endpoint, and
back into a credential. The client puts the id into the URL as it is. -/
namespace Morton.App
open Cluster Net Proto Text

/-- `build_credential` -/
def buildCredential (kind : CredentialKind) (token : Nat) (playerId : Bytes) : Option Bytes :=
  encodeCredential { kind, token, playerId }

/-- What `request_session` sends to the matchmaker. -/
def sessionRequest (host playerId : HttpText) : HttpText :=
  httpRequestText (ascii "POST") (ascii "/session?player=" ++ playerId) host []

/-- The part of an `HttpFetch` that `request_session` reads. -/
structure HttpFetch where
  ok : Bool := false
  status : Nat := 0
  body : HttpText := []
  deriving DecidableEq

/-- `http_fetch` on what came back, if anything did. -/
def fetched : Option HttpResponse → HttpFetch
  | none => {}
  | some response =>
    { ok := decide (200 ≤ response.status ∧ response.status < 300)
      status := response.status
      body := response.body }

/-- What `request_session` learns. The type of an address is a parameter. -/
structure LoginSession (A : Type) where
  endpoint : A
  token : Nat
  shard : HttpText
  region : Nat
  reconnect : Bool
  deriving DecidableEq

/-- The attempts end with the first that is answered. -/
def lastAttempt : List HttpFetch → HttpFetch
  | [] => {}
  | [fetch] => fetch
  | fetch :: next :: rest =>
    if fetch.ok || fetch.status != 0 then fetch else lastAttempt (next :: rest)

/-- `request_session` after at most three attempts; `parse` is `Address::parse`. -/
def requestSession {A : Type} (parse : HttpText → Option A) (attempts : List HttpFetch) :
    Option (LoginSession A) :=
  let response := lastAttempt (attempts.take 3)
  if response.ok = false then none
  else
    let endpoint := jsonLookup response.body (ascii "endpoint")
    let token := jsonLookup response.body (ascii "token")
    if endpoint = [] ∨ token = [] then none
    else
      (parse endpoint).bind fun endpoint =>
        if strtoull token = 0 then none
        else
          some
            { endpoint
              token := strtoull token
              shard := jsonLookup response.body (ascii "shard")
              region := strtoull (jsonLookup response.body (ascii "region")) % 2 ^ 32
              reconnect := jsonLookup response.body (ascii "reconnect") == ascii "true" }

/-- One attempt at the server: what `assign` would return then, and the chunks that
the server receives. -/
structure Exchange where
  assign : HttpText → Except HttpText SessionGrant
  chunks : List HttpText

namespace Exchange

def fetch (e : Exchange) : HttpFetch := fetched (handleClient (sessionRoutes e.assign) e.chunks)

/-- The id the endpoint extracts. -/
def player (e : Exchange) : Option HttpText :=
  (receive [] e.chunks).bind fun buffer =>
    (parseRequest buffer).map (HttpRequest.queryValue · (ascii "player"))

end Exchange

/-- A percent sign with two hexadecimal digits after it. -/
def startsEscape : HttpText → Bool
  | 37 :: high :: low :: _ => (hexByte high low).isSome
  | _ => false

/-- Nothing in the text means something else in a URL. -/
def Verbatim (text : HttpText) : Prop :=
  (∀ c ∈ text, isSpace c = false ∧ c ≠ 43 ∧ c ≠ 38) ∧ ∀ rest ∈ text.tails, startsEscape rest = false

instance (text : HttpText) : Decidable (Verbatim text) :=
  inferInstanceAs (Decidable ((∀ c ∈ text, isSpace c = false ∧ c ≠ 43 ∧ c ≠ 38) ∧
    ∀ rest ∈ text.tails, startsEscape rest = false))

theorem urlDecode_length_le (text : HttpText) : (urlDecode text).length ≤ text.length := by
  fun_induction urlDecode text <;> simp only [List.length_cons, List.length_nil] at * <;> omega

/-- A text in which nothing is decoded. -/
def Literal (text : HttpText) : Prop :=
  (∀ c ∈ text, c ≠ 43) ∧ ∀ rest ∈ text.tails, startsEscape rest = false

theorem literal_cons {c : UInt8} {text : HttpText} :
    Literal (c :: text) ↔ c ≠ 43 ∧ startsEscape (c :: text) = false ∧ Literal text := by
  simp only [Literal, List.mem_cons, forall_eq_or_imp, List.tails_cons]
  constructor
  · rintro ⟨⟨hc, hplus⟩, hhead, htail⟩
    exact ⟨hc, hhead, hplus, htail⟩
  · rintro ⟨hc, hhead, hplus, htail⟩
    exact ⟨⟨hc, hplus⟩, hhead, htail⟩

/-- Decoding changes nothing exactly when there is no plus and no escape. -/
theorem urlDecode_eq_self_iff (text : HttpText) : urlDecode text = text ↔ Literal text := by
  fun_induction urlDecode text with
  | case1 => simp [Literal, startsEscape]
  | case2 high low rest ih => simp [literal_cons]
  | case3 high low rest b hbyte _ ih =>
    refine iff_of_false (fun h => ?_) fun h => ?_
    · have hle := urlDecode_length_le rest
      have hsame := congrArg List.length h
      simp only [List.length_cons] at hsame
      omega
    · have hstart := (literal_cons.mp h).2.1
      simp [startsEscape, hbyte] at hstart
  | case4 high low rest hbyte _ ih =>
    rw [literal_cons, List.cons_inj_right, ih]
    simp [startsEscape, hbyte]
  | case5 c high low rest hplus hpercent ih =>
    rw [literal_cons, List.cons_inj_right, ih]
    have hstart : startsEscape (c :: high :: low :: rest) = false := by
      unfold startsEscape
      split
      · rename_i heq
        exact absurd (List.cons.inj heq).1 hpercent
      · rfl
    exact ⟨fun h => ⟨hplus, hstart, h⟩, fun h => h.2.2⟩
  | case6 c rest hshort ih =>
    have hstart : startsEscape (c :: rest) = false := by
      unfold startsEscape
      split
      · rename_i high low tail heq
        exact absurd (List.cons.inj heq).2 fun h => hshort high low tail h
      · rfl
    rw [literal_cons]
    by_cases hplus : c = 43
    · simp [hplus]
    · rw [if_neg hplus, List.cons_inj_right, ih]
      exact ⟨fun h => ⟨hplus, hstart, h⟩, fun h => h.2.2⟩

section Query

/-- A pair stores nothing longer than itself. -/
theorem addPair_bounded {query : Table HttpText HttpText} {key pair : HttpText} {n : Nat}
    (hquery : ((query.lookup key).getD []).length ≤ n) (hpair : pair.length ≤ n) :
    (((addPair query pair).lookup key).getD []).length ≤ n := by
  unfold addPair
  split
  · exact hquery
  split
  · rw [Table.lookup_insert]
    split
    · exact Nat.zero_le n
    · exact hquery
  · rw [Table.lookup_insert]
    split
    · rename_i equals _ _
      have hdecode := urlDecode_length_le (pair.drop (equals + 1))
      rw [List.length_drop] at hdecode
      rw [Option.getD_some]
      omega
    · exact hquery

theorem addPairs_bounded {query : Table HttpText HttpText} {key : HttpText}
    {pairs : List HttpText} {n : Nat} (hquery : ((query.lookup key).getD []).length ≤ n)
    (hpairs : ∀ pair ∈ pairs, pair.length ≤ n) :
    (((pairs.foldl addPair query).lookup key).getD []).length ≤ n := by
  induction pairs generalizing query with
  | nil => exact hquery
  | cons pair pairs ih =>
    apply ih (addPair_bounded hquery (hpairs pair List.mem_cons_self))
    exact fun p hp => hpairs p (List.mem_cons_of_mem _ hp)

/-- What the endpoint finds in a query that starts with the player. -/
def playerIn (text : HttpText) : HttpText :=
  (((((ascii "player=" ++ text).splitOn 38).foldl addPair ∅)).lookup (ascii "player")).getD []

theorem addPair_player (query : Table HttpText HttpText) (text : HttpText) :
    addPair query (ascii "player=" ++ text) = query.insert (ascii "player") (urlDecode text) := by
  have htext : ascii "player=" ++ text = ascii "player" ++ ([61] ++ text) := rfl
  have hfind : find [61] (ascii "player" ++ ([61] ++ text)) = some 6 :=
    find_of_clear (clear_of_not_mem (by decide) _)
  have hname : (ascii "player" ++ ([61] ++ text)).take 6 = ascii "player" := rfl
  have hvalue : (ascii "player" ++ ([61] ++ text)).drop (6 + 1) = text := rfl
  have hkey : urlDecode (ascii "player") = ascii "player" := by decide
  rw [htext, addPair, if_neg (by simp [ascii]), hfind]
  dsimp only
  rw [hname, hvalue, hkey]

theorem playerIn_whole {text : HttpText} (h : 38 ∉ text) : playerIn text = urlDecode text := by
  have hnone : (38 : UInt8) ∉ ascii "player=" ++ text := by
    rw [List.mem_append, not_or]
    exact ⟨by decide, h⟩
  rw [playerIn, List.splitOn_eq_singleton hnone, List.foldl_cons, List.foldl_nil, addPair_player,
    Table.lookup_insert, if_pos rfl, Option.getD_some]

/-- An ampersand cuts something off. -/
theorem playerIn_cut {text : HttpText} (h : 38 ∈ text) : (playerIn text).length < text.length := by
  obtain ⟨first, rest, htext, hnone⟩ := List.eq_append_cons_of_mem h
  have hfirst : (38 : UInt8) ∉ ascii "player=" ++ first := by
    rw [List.mem_append, not_or]
    exact ⟨by decide, hnone⟩
  have hlength : text.length = first.length + 1 + rest.length := by
    rw [htext, List.length_append, List.length_cons]
    omega
  have hle : (playerIn text).length ≤ first.length + rest.length := by
    rw [playerIn, htext, ← List.append_assoc, List.splitOn_append_cons_self_of_not_mem hfirst,
      List.foldl_cons, addPair_player]
    apply addPairs_bounded
    · have hdecode := urlDecode_length_le first
      rw [Table.lookup_insert, if_pos rfl, Option.getD_some]
      omega
    · intro pair hpair
      have hpart := length_le_of_mem_splitOn hpair
      omega
  omega

/-- The part of an id up to the first white space: what the request line keeps of it. -/
def firstWord (id : HttpText) : HttpText := id.takeWhile (! isSpace ·)

theorem parseTarget_session (text : HttpText) :
    (parseTarget (ascii "POST") (ascii "/session?player=" ++ text)).queryValue (ascii "player") =
        playerIn text ∧
      (parseTarget (ascii "POST") (ascii "/session?player=" ++ text)).method ++
        32 :: (parseTarget (ascii "POST") (ascii "/session?player=" ++ text)).path =
          ascii "POST /session" := by
  have htarget : ascii "/session?player=" ++ text =
      ascii "/session" ++ ([63] ++ (ascii "player=" ++ text)) := rfl
  have hfind : find [63] (ascii "/session" ++ ([63] ++ (ascii "player=" ++ text))) = some 8 :=
    find_of_clear (clear_of_not_mem (by decide) _)
  have hpath : (ascii "/session" ++ ([63] ++ (ascii "player=" ++ text))).take 8 =
      ascii "/session" := rfl
  have hquery : (ascii "/session" ++ ([63] ++ (ascii "player=" ++ text))).drop (8 + 1) =
      ascii "player=" ++ text := rfl
  have hdecode : ascii "POST" ++ 32 :: urlDecode (ascii "/session") = ascii "POST /session" := by
    decide
  rw [htarget, parseTarget, hfind]
  dsimp only
  rw [hpath, hquery]
  exact ⟨rfl, hdecode⟩

/-- The first line of a part of the request that has a whole header. -/
theorem parse_received {host id buffer : HttpText} (h : buffer <+: sessionRequest host id)
    (hend : (find (crlf ++ crlf) buffer).isSome) :
    ∃ request, parseRequest buffer = some request ∧
      request.method ++ 32 :: request.path = ascii "POST /session" ∧
      request.queryValue (ascii "player") = playerIn (firstWord id) := by
  obtain ⟨stop, hstop⟩ : ∃ stop, find crlf buffer = some stop := by
    rw [← Option.ne_none_iff_exists']
    intro hnone
    have hno : find (crlf ++ crlf) buffer = none := by
      rw [find_eq_none_iff] at hnone ⊢
      exact fun hwithin => hnone ((List.prefix_append crlf crlf).isInfix.trans hwithin)
    rw [hno] at hend
    cases hend
  obtain ⟨behind, hline, -⟩ := find_splits hstop
  obtain ⟨more, hmore⟩ := h
  obtain ⟨last, hrequest⟩ : ∃ last, sessionRequest host id =
      ascii "POST /session?player=" ++ (id ++ 32 :: last) := by
    exact ⟨_, by simp only [sessionRequest, httpRequestText, List.append_assoc]; rfl⟩
  -- the line has the fixed part in front, for no line ends in it
  obtain ⟨text, htext⟩ : ascii "POST /session?player=" <+: buffer.take stop := by
    have hfixed : ascii "POST /session?player=" <+: sessionRequest host id :=
      ⟨_, hrequest.symm⟩
    have hend : buffer.take stop ++ [13] <+: sessionRequest host id := by
      refine ⟨10 :: (behind ++ more), ?_⟩
      rw [← hmore]
      nth_rewrite 2 [hline]
      simp [crlf]
    have hno : (13 : UInt8) ∉ ascii "POST /session?player=" := by decide
    cases List.prefix_or_prefix_of_prefix hfixed hend with
    | inl hshort =>
      cases List.prefix_concat_iff.mp hshort with
      | inl hsame => exact absurd (hsame ▸ by simp) hno
      | inr hstarts => exact hstarts
    | inr hlong => exact absurd (hlong.mem (by simp)) hno
  have hword : text.takeWhile (! isSpace ·) = firstWord id := by
    have hsame : text ++ 13 :: 10 :: (behind ++ more) = id ++ 32 :: last := by
      refine List.append_cancel_left (?_ : ascii "POST /session?player=" ++ _ = _ ++ _)
      rw [← hrequest, ← hmore]
      nth_rewrite 1 [hline]
      rw [← htext]
      simp [crlf]
    have htake := congrArg (List.takeWhile (! isSpace ·)) hsame
    rw [takeWhile_append_stop (by decide), takeWhile_append_stop (by decide)] at htake
    exact htake
  obtain ⟨hplayer, hroute⟩ := parseTarget_session (firstWord id)
  refine ⟨_, ?_, hroute, hplayer⟩
  rw [parseRequest, hstop, Option.map_some, ← htext, ← hword]
  rfl

theorem receive_prefix {buffer result : HttpText} {chunks : List HttpText}
    (h : receive buffer chunks = some result) :
    result <+: buffer ++ chunks.flatten ∧ (find (crlf ++ crlf) result).isSome := by
  induction chunks generalizing buffer with
  | nil => cases h
  | cons chunk chunks ih =>
    rw [receive] at h
    split at h
    · cases h
    · dsimp only at h
      rw [List.flatten_cons, ← List.append_assoc]
      split at h
      · split at h
        · rename_i hend
          cases h
          exact ⟨List.prefix_append _ _, hend⟩
        · cases h
      · exact ih h

end Query

namespace Exchange
variable {host id : HttpText}

/-- Whatever arrives of the request, the endpoint finds the same id in it. -/
theorem player_eq {e : Exchange} (hsent : e.chunks.flatten <+: sessionRequest host id)
    (h : (receive [] e.chunks).isSome) : e.player = some (playerIn (firstWord id)) := by
  obtain ⟨buffer, hbuffer⟩ := Option.isSome_iff_exists.mp h
  obtain ⟨hstarts, hend⟩ := receive_prefix hbuffer
  obtain ⟨request, hparse, -, hplayer⟩ := parse_received (hstarts.trans hsent) hend
  rw [player, hbuffer, Option.bind_some, hparse, Option.map_some, hplayer]

/-- A grant was given to an id that is not empty. -/
theorem granted {e : Exchange} (hsent : e.chunks.flatten <+: sessionRequest host id)
    (hok : e.fetch.ok = true) :
    e.player = some (playerIn (firstWord id)) ∧ playerIn (firstWord id) ≠ [] := by
  cases hreceive : receive [] e.chunks with
  | none =>
    unfold fetch handleClient at hok
    rw [hreceive] at hok
    cases hok
  | some buffer =>
    refine ⟨player_eq hsent (by rw [hreceive]; rfl), fun hempty => ?_⟩
    obtain ⟨hstarts, hend⟩ := receive_prefix hreceive
    obtain ⟨request, hparse, hroute, hplayer⟩ := parse_received (hstarts.trans hsent) hend
    unfold fetch handleClient at hok
    rw [hreceive, Option.bind_some, hparse, Option.map_some, dispatch, hroute] at hok
    have hhandler : sessionRoutes e.assign (ascii "POST /session") =
        some (sessionHandler e.assign) := if_pos (Or.inl rfl)
    rw [hhandler] at hok
    dsimp only at hok
    rw [sessionHandler, hplayer, hempty] at hok
    cases hok

end Exchange

theorem lastAttempt_mem {attempts : List HttpFetch} (h : (lastAttempt attempts).ok = true) :
    lastAttempt attempts ∈ attempts := by
  induction attempts with
  | nil => cases h
  | cons fetch rest ih =>
    cases rest with
    | nil => exact List.mem_singleton.mpr rfl
    | cons next rest =>
      rw [lastAttempt] at h ⊢
      split
      · exact List.mem_cons_self
      · rename_i hsilent
        rw [if_neg hsilent] at h
        exact List.mem_cons_of_mem _ (ih h)

theorem requestSession_some {A : Type} {parse : HttpText → Option A} {attempts : List HttpFetch}
    {session : LoginSession A} (h : requestSession parse attempts = some session) :
    (∃ fetch ∈ attempts, fetch.ok = true) ∧ session.token < 2 ^ 64 := by
  unfold requestSession at h
  dsimp only at h
  split at h
  · cases h
  · rename_i hok
    rw [Bool.not_eq_false] at hok
    have hmem := List.mem_of_mem_take (lastAttempt_mem hok)
    refine ⟨⟨_, hmem, hok⟩, ?_⟩
    split at h
    · cases h
    · obtain ⟨endpoint, -, h⟩ := Option.bind_eq_some_iff.mp h
      split at h
      · cases h
      · cases h
        exact strtoull_lt _

/-- Every endpoint that grants the session takes the id for what it is, and the credential
brings it to the shard. -/
def KeepsId {A : Type} (exchanges : List Exchange) (session : LoginSession A) (id : HttpText) :
    Prop :=
  (∀ e ∈ exchanges, e.fetch.ok = true → e.player = some id) ∧
    ∃ token, buildCredential .session session.token id = some token ∧
      decodeCredential token = some { kind := .session, token := session.token, playerId := id }

theorem firstWord_length_le (id : HttpText) : (firstWord id).length ≤ id.length :=
  (List.takeWhile_prefix _).length_le

/-- The endpoint finds the id that was sent exactly when nothing in it means something else. -/
theorem playerIn_eq_iff (id : HttpText) : playerIn (firstWord id) = id ↔ Verbatim id := by
  constructor
  · intro h
    have hcut : 38 ∉ firstWord id := by
      intro hmem
      have hlt := playerIn_cut hmem
      have hle := firstWord_length_le id
      rw [h] at hlt
      omega
    rw [playerIn_whole hcut] at h
    have hwhole : firstWord id = id := by
      apply (List.takeWhile_prefix _).eq_of_length_le
      have hle := urlDecode_length_le (firstWord id)
      rw [h] at hle
      exact hle
    rw [hwhole] at h hcut
    obtain ⟨hplus, hescape⟩ := (urlDecode_eq_self_iff id).mp h
    refine ⟨fun c hc => ⟨?_, hplus c hc, fun heq => hcut (heq ▸ hc)⟩, hescape⟩
    simpa using List.takeWhile_eq_self_iff.mp hwhole c hc
  · rintro ⟨hchars, hescape⟩
    have hwhole : firstWord id = id :=
      List.takeWhile_eq_self_iff.mpr fun c hc => by rw [(hchars c hc).1]; rfl
    have hcut : 38 ∉ id := fun hmem => (hchars 38 hmem).2.2 rfl
    rw [hwhole, playerIn_whole hcut]
    exact (urlDecode_eq_self_iff id).mpr ⟨fun c hc => (hchars c hc).2.1, hescape⟩

/-- A client that is granted a session keeps its id exactly when the id has at most twenty
bytes and nothing in it means something else in a URL. -/
theorem login_keeps_id_iff {A : Type} (parse : HttpText → Option A) (host id : HttpText)
    (exchanges : List Exchange)
    (hsent : ∀ e ∈ exchanges, e.chunks.flatten <+: sessionRequest host id)
    {session : LoginSession A}
    (h : requestSession parse (exchanges.map Exchange.fetch) = some session) :
    KeepsId exchanges session id ↔ id.length ≤ kMaxPlayerIdBytes ∧ Verbatim id := by
  obtain ⟨⟨fetch, hmem, hok⟩, htoken⟩ := requestSession_some h
  obtain ⟨e, he, rfl⟩ := List.mem_map.mp hmem
  obtain ⟨hplayer, hnonempty⟩ := Exchange.granted (hsent e he) hok
  constructor
  · rintro ⟨hsame, token, hbuild, -⟩
    have hid : playerIn (firstWord id) = id :=
      Option.some.inj (hplayer.symm.trans (hsame e he hok))
    refine ⟨?_, (playerIn_eq_iff id).mp hid⟩
    unfold buildCredential encodeCredential at hbuild
    split at hbuild
    · cases hbuild
    · rename_i hfits
      exact Nat.le_of_not_lt fun hlong => hfits (Or.inr hlong)
  · rintro ⟨hshort, hverbatim⟩
    have hid := (playerIn_eq_iff id).mpr hverbatim
    refine ⟨fun other hother hotherOk => ?_, ?_⟩
    · rw [(Exchange.granted (hsent other hother) hotherOk).1, hid]
    · rw [hid] at hnonempty
      obtain ⟨token, hbuild, -, hdecode⟩ := @decodeCredential_encode
        { kind := .session, token := session.token, playerId := id } htoken hnonempty hshort
      exact ⟨token, hbuild, hdecode⟩

/-- A fine id, in two chunks. -/
def annLogin : Exchange :=
  { assign := fun player =>
      .ok
        { playerId := player
          shardId := ascii "s1"
          udpEndpoint := ascii "10.0.0.1:7777"
          region := 3
          sessionToken := 77
          reconnect := false }
    chunks := [ascii "POST /session?pla",
      (sessionRequest (ascii "10.0.0.2:80") (ascii "ann_1")).drop 17] }

theorem login_keeps_id_iff_ann :
    KeepsId [annLogin]
        { endpoint := (), token := 77, shard := ascii "s1", region := 3, reconnect := false }
        (ascii "ann_1") ↔
      (ascii "ann_1").length ≤ kMaxPlayerIdBytes ∧ Verbatim (ascii "ann_1") :=
  login_keeps_id_iff (fun _ => some ()) (ascii "10.0.0.2:80") _ [annLogin] (by decide +kernel)
    (by decide +kernel)

/-- The grant for an id with a plus is a grant for the id with a space. -/
theorem plus_becomes_space :
    let e : Exchange :=
      { annLogin with chunks := [sessionRequest (ascii "10.0.0.2:80") (ascii "a+b")] }
    requestSession (fun _ => some ()) [e.fetch] =
        some { endpoint := (), token := 77, shard := ascii "s1", region := 3, reconnect := false } ∧
      e.player = some (ascii "a b") ∧
      ¬ KeepsId [e]
        { endpoint := (), token := 77, shard := ascii "s1", region := 3, reconnect := false }
        (ascii "a+b") := by
  refine ⟨by decide +kernel, by decide +kernel, fun h => ?_⟩
  exact absurd (h.1 _ List.mem_cons_self (by decide +kernel)) (by decide +kernel)

end Morton.App
