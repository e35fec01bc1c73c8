import Morton.Base.Process
import Morton.Cluster.RedisScript

/-! Scripts and tasks. Where processes are interleaved, an operation is a chain of tasks, each of
them a pipeline of abstract commands; on the wire it is a script. A script performs the tasks if
it sends their commands and goes on from the replies as the process does. -/
namespace Morton.Cluster
open Proto Text

/-- What a server does with the commands of a process, and how they and the replies to them are
spelt on the wire. -/
structure Wire (ς κ ρ : Type) where
  exec : ς → κ → ς × ρ
  sends : κ → List Bytes → Prop
  shows : ρ → RespReply → Prop

section
variable {ς κ ρ : Type} (wire : Wire ς κ ρ)

/-- A reply the server gives to the command in some state. -/
def Wire.Answers (c : κ) (reply : ρ) : Prop := ∃ server, reply = (wire.exec server c).2

/-- Redis understands the commands: what it replies shows a reply that the server may give. -/
def Wire.Speaks {π : Type} (redis : RedisServer π) : Prop :=
  ∀ c args, wire.sends c args → ∀ s, ∃ reply, wire.Answers c reply ∧
    wire.shows reply (redis.answer s args)

end

/-- Where a process stands; what it does next may depend on the time at which it goes on. -/
abbrev Outcome (σ τ : Type) := Nat → σ × Option τ

namespace RedisScript
variable {ς κ ρ σ τ α β : Type} (wire : Wire ς κ ρ) (b : Behaviour σ τ κ ρ)

/-- The script does what the process does from here on: what it has queued when it flushes are
the commands of the task the process waits at, and both go on from the same replies. -/
def Performs (post : Outcome σ τ → List (List Bytes) → α → Prop) :
    Outcome σ τ → List (List Bytes) → RedisScript α → Prop
  | outcome, queued, ret a => post outcome queued a
  | _, _, onConnect _ => False
  | _, _, onDisconnect _ => False
  | _, _, onConnected _ => False
  | outcome, queued, onWallMs next => ∀ now, Performs post (fun _ => outcome now) queued (next now)
  | outcome, queued, onQueue args next => Performs post outcome (queued ++ [args]) next
  | outcome, queued, onFlush next => ∃ s task, outcome = (fun _ => (s, some task)) ∧
      List.Forall₂ wire.sends (b.commands s task) queued ∧
      (∀ replies shown, List.Forall₂ wire.Answers (b.commands s task) replies →
        List.Forall₂ wire.shows replies shown →
        Performs post (fun now => b.resume s now (some replies) task) [] (next true shown)) ∧
      ∀ error, Performs post (fun now => b.resume s now none task) []
        (next false (List.replicate queued.length (transportError error)))
  | outcome, queued, onExamine _ _ next => Performs post outcome queued next

/-- The process is done, in a state that goes with what the script returned. -/
def Ends (done : σ → α → Prop) (outcome : Outcome σ τ) (queued : List (List Bytes)) (a : α) : Prop :=
  queued = [] ∧ ∀ now, (outcome now).2 = none ∧ done (outcome now).1 a

variable {wire b}

theorem performs_bind {post : Outcome σ τ → List (List Bytes) → β → Prop} {outcome : Outcome σ τ}
    {queued : List (List Bytes)} {script : RedisScript α} {f : α → RedisScript β} :
    Performs wire b post outcome queued (script >>= f) ↔
      Performs wire b (fun outcome queued a => Performs wire b post outcome queued (f a))
        outcome queued script := by
  change Performs wire b post outcome queued (script.bind f) ↔ _
  induction script generalizing outcome queued with
  | ret a => exact Iff.rfl
  | onConnect next ih => exact Iff.rfl
  | onDisconnect next ih => exact Iff.rfl
  | onConnected next ih => exact Iff.rfl
  | onWallMs next ih => exact forall_congr' fun now => ih now
  | onQueue args next ih => exact ih
  | onFlush next ih =>
    refine exists_congr fun s => exists_congr fun task => and_congr_right fun _ =>
      and_congr_right fun _ => and_congr ?_ ?_
    · exact forall_congr' fun replies => forall_congr' fun shown =>
        imp_congr_right fun _ => imp_congr_right fun _ => ih true shown
    · exact forall_congr' fun error => ih false _
  | onExamine taken reply next ih => exact ih

theorem Performs.mono {post post' : Outcome σ τ → List (List Bytes) → α → Prop}
    (hpost : ∀ outcome queued a, post outcome queued a → post' outcome queued a)
    {outcome : Outcome σ τ} {queued : List (List Bytes)} {script : RedisScript α}
    (h : Performs wire b post outcome queued script) : Performs wire b post' outcome queued script := by
  induction script generalizing outcome queued with
  | ret a => exact hpost _ _ _ h
  | onConnect next ih => exact h
  | onDisconnect next ih => exact h
  | onConnected next ih => exact h
  | onWallMs next ih => exact fun now => ih now (h now)
  | onQueue args next ih => exact ih h
  | onFlush next ih =>
    obtain ⟨s, task, houtcome, hsent, hanswered, hfailed⟩ := h
    exact ⟨s, task, houtcome, hsent,
      fun replies shown hreplies hshown => ih true shown (hanswered replies shown hreplies hshown),
      fun error => ih false _ (hfailed error)⟩
  | onExamine taken reply next ih => exact ih h

/-- The clock is read: from here on it shows that time. -/
theorem performs_wallMs {post : Outcome σ τ → List (List Bytes) → α → Prop} {outcome : Outcome σ τ}
    {queued : List (List Bytes)} {f : Nat → RedisScript α}
    (h : ∀ now, Performs wire b post (fun _ => outcome now) queued (f now)) :
    Performs wire b post outcome queued (wallMs >>= f) := h

theorem performs_queueAll {post : Outcome σ τ → List (List Bytes) → α → Prop}
    {outcome : Outcome σ τ} {queued commands : List (List Bytes)} {f : Unit → RedisScript α} :
    Performs wire b post outcome queued (queueAll commands >>= f) ↔
      Performs wire b post outcome (queued ++ commands) (f ()) := by
  induction commands generalizing queued with
  | nil =>
    rw [List.append_nil]
    exact Iff.rfl
  | cons args commands ih =>
    rw [← List.singleton_append, ← List.append_assoc, ← ih]
    exact Iff.rfl

/-- A task whose pipeline has been queued. -/
theorem performs_flush {post : Outcome σ τ → List (List Bytes) → Bool × List RespReply → Prop}
    {s : σ} {task : τ} {queued : List (List Bytes)}
    (hsent : List.Forall₂ wire.sends (b.commands s task) queued)
    (hanswered : ∀ replies shown, List.Forall₂ wire.Answers (b.commands s task) replies →
      List.Forall₂ wire.shows replies shown →
      post (fun now => b.resume s now (some replies) task) [] (true, shown))
    (hfailed : ∀ error, post (fun now => b.resume s now none task) []
      (false, List.replicate queued.length (transportError error))) :
    Performs wire b post (fun _ => (s, some task)) queued flush :=
  ⟨s, task, rfl, hsent, hanswered, hfailed⟩

/-- A task of several commands. -/
theorem performs_pipeline {post : Outcome σ τ → List (List Bytes) → Bool × List RespReply → Prop}
    {s : σ} {task : τ} {commands : List (List Bytes)}
    (hsent : List.Forall₂ wire.sends (b.commands s task) commands)
    (hanswered : ∀ replies shown, List.Forall₂ wire.Answers (b.commands s task) replies →
      List.Forall₂ wire.shows replies shown →
      post (fun now => b.resume s now (some replies) task) [] (true, shown))
    (hfailed : ∀ error, post (fun now => b.resume s now none task) []
      (false, List.replicate commands.length (transportError error))) :
    Performs wire b post (fun _ => (s, some task)) [] (pipeline commands) := by
  unfold pipeline
  rw [performs_queueAll, List.nil_append]
  exact performs_flush hsent hanswered hfailed

/-- A task of one command. -/
theorem performs_command {post : Outcome σ τ → List (List Bytes) → RespReply → Prop}
    {s : σ} {task : τ} {c : κ} {args : List Bytes} (hcommands : b.commands s task = [c])
    (hsends : wire.sends c args)
    (hanswered : ∀ reply shown, wire.Answers c reply → wire.shows reply shown →
      post (fun now => b.resume s now (some [reply]) task) [] shown)
    (hfailed : ∀ error, post (fun now => b.resume s now none task) [] (transportError error)) :
    Performs wire b post (fun _ => (s, some task)) [] (command args) := by
  refine ⟨s, task, rfl, ?_, fun replies shown hreplies hshown => ?_, hfailed⟩
  · rw [hcommands]
    exact .cons hsends .nil
  · rw [hcommands] at hreplies
    cases hreplies with
    | cons hreply hnone =>
      cases hnone
      cases hshown with
      | cons hfirst hnone =>
        cases hnone
        exact hanswered _ _ hreply hfirst

section Runs

/-- What a process gets to: time passes, and the task it waits at is answered or given up. -/
inductive Goes (wire : Wire ς κ ρ) (b : Behaviour σ τ κ ρ) : Outcome σ τ → Outcome σ τ → Prop
  | refl (outcome : Outcome σ τ) : Goes wire b outcome outcome
  | wait (outcome : Outcome σ τ) (now : Nat) {last : Outcome σ τ} :
    Goes wire b (fun _ => outcome now) last → Goes wire b outcome last
  | resume (s : σ) (task : τ) (replies : Option (List ρ)) {last : Outcome σ τ} :
    (∀ answers ∈ replies, List.Forall₂ wire.Answers (b.commands s task) answers) →
    Goes wire b (fun now => b.resume s now replies task) last →
    Goes wire b (fun _ => (s, some task)) last

theorem forall₂_replies {π : Type} {server : RedisServer π} (hspeaks : wire.Speaks server)
    {executed : List (π × List Bytes)} {commands : List κ} {queued : List (List Bytes)}
    {shown : List RespReply} (hsent : List.Forall₂ wire.sends commands queued)
    (hanswers : List.Forall₂ (RedisClient.Answers server executed) queued shown) :
    ∃ replies, List.Forall₂ wire.Answers commands replies ∧
      List.Forall₂ wire.shows replies shown := by
  induction hsent generalizing shown with
  | nil =>
    cases hanswers
    exact ⟨[], .nil, .nil⟩
  | cons hsends hrest ih =>
    cases hanswers with
    | cons hfirst hothers =>
      obtain ⟨s, -, rfl⟩ := hfirst
      obtain ⟨reply, hreply, hshows⟩ := hspeaks _ _ hsends s
      obtain ⟨replies, hreplies, hshown⟩ := ih hothers
      exact ⟨reply :: replies, .cons hreply hreplies, .cons hshows hshown⟩

/-- Whatever the surroundings of a script do to it, the process gets to where the script ends. -/
theorem Performs.goes {π : Type} {server : RedisServer π} (hserver : server.WellFormed)
    (hspeaks : wire.Speaks server) (weather : Nat → Weather π) (time : Nat → Nat)
    {post : Outcome σ τ → List (List Bytes) → α → Prop} {outcome : Outcome σ τ}
    {queued : List (List Bytes)} {script : RedisScript α}
    (h : Performs wire b post outcome queued script) {w : World π}
    (hstep : w.client.InStep queued) :
    ∃ last left, Goes wire b outcome last ∧ post last left (run server weather time script w).2 := by
  induction script generalizing outcome queued w with
  | ret a => exact ⟨outcome, queued, .refl outcome, h⟩
  | onConnect next ih => exact h.elim
  | onDisconnect next ih => exact h.elim
  | onConnected next ih => exact h.elim
  | onWallMs next ih =>
    obtain ⟨last, left, hgoes, hpost⟩ := ih _ (h _) (w := { w with clock := w.clock + 1 }) hstep
    exact ⟨last, left, .wait outcome _ hgoes, hpost⟩
  | onQueue args next ih => exact ih h (RedisClient.queue_spec hstep args)
  | onFlush next ih =>
    obtain ⟨s, task, rfl, hsent, hanswered, hfailed⟩ := h
    obtain ⟨hstep', hreplies⟩ := RedisClient.flush_spec hserver hstep (weather w.clock)
      (weather (w.clock + 1))
    let result := w.client.flush server (weather w.clock) (weather (w.clock + 1))
    let after : World π :=
      { w with
        client := result.client
        flushes := w.flushes + 1
        executed := w.executed ++ result.executed.map (Prod.mk (w.flushes + 1))
        clock := w.clock + 2 }
    have hafter : after.client.InStep [] := hstep'
    cases hreplies with
    | inl hok =>
      obtain ⟨replies, hreplies, hshown⟩ := forall₂_replies hspeaks hsent hok.2
      have hnext := hanswered replies _ hreplies hshown
      rw [← hok.1] at hnext
      obtain ⟨last, left, hgoes, hpost⟩ := ih _ _ hnext hafter
      refine ⟨last, left, .resume s task (some replies) ?_ hgoes, hpost⟩
      rintro answers ⟨⟩
      exact hreplies
    | inr hbroken =>
      obtain ⟨hfalse, error, herrors⟩ := hbroken
      have hnext := hfailed error
      rw [← hfalse, ← herrors] at hnext
      obtain ⟨last, left, hgoes, hpost⟩ := ih _ _ hnext hafter
      exact ⟨last, left, .resume s task none (fun _ h => nomatch h) hgoes, hpost⟩
  | onExamine taken reply next ih => exact ih h hstep

end Runs
end RedisScript

end Morton.Cluster
