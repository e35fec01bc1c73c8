import Morton.Cluster.RedisClient

/-! What the cluster code does with its Redis client, as scripts of calls: what it queues, when
it flushes, and which reply it takes for the reply to which command. -/
namespace Morton.Cluster
open Proto Text

/-- A computation that calls the client. `onExamine` marks where the caller examines a reply
as that to a command. -/
inductive RedisScript (α : Type) : Type
  | ret (a : α)
  | onConnect (next : Bool → RedisScript α)
  | onDisconnect (next : RedisScript α)
  | onConnected (next : Bool → RedisScript α)
  | onWallMs (next : Nat → RedisScript α)
  | onQueue (args : List Bytes) (next : RedisScript α)
  | onFlush (next : Bool → List RespReply → RedisScript α)
  | onExamine (taken : List Bytes) (reply : RespReply) (next : RedisScript α)

namespace RedisScript
variable {α β : Type}

def bind (script : RedisScript α) (f : α → RedisScript β) : RedisScript β :=
  match script with
  | ret a => f a
  | onConnect next => onConnect fun ok => (next ok).bind f
  | onDisconnect next => onDisconnect (next.bind f)
  | onConnected next => onConnected fun connected => (next connected).bind f
  | onWallMs next => onWallMs fun now => (next now).bind f
  | onQueue args next => onQueue args (next.bind f)
  | onFlush next => onFlush fun ok replies => (next ok replies).bind f
  | onExamine taken reply next => onExamine taken reply (next.bind f)

instance : Monad RedisScript where
  pure := ret
  bind := bind

def connect : RedisScript Bool := onConnect ret

def disconnect : RedisScript Unit := onDisconnect (ret ())

def connected : RedisScript Bool := onConnected ret

def wallMs : RedisScript Nat := onWallMs ret

def queue (args : List Bytes) : RedisScript Unit := onQueue args (ret ())

def flush : RedisScript (Bool × List RespReply) := onFlush fun ok replies => ret (ok, replies)

def examine (taken : List Bytes) (reply : RespReply) : RedisScript Unit :=
  onExamine taken reply (ret ())

/-- `command`, whose caller examines what it returns. A flush that fails has filled the replies
with the error that `command` returns then. -/
def command (args : List Bytes) : RedisScript RespReply := do
  queue args
  let (_, replies) ← flush
  let reply := replies.headD (transportError [])
  examine args reply
  return reply

/-- Several calls of `queue`. -/
def queueAll : List (List Bytes) → RedisScript Unit
  | [] => pure ()
  | args :: rest => do
    queue args
    queueAll rest

/-- Several calls of `queue`, and `flush`. -/
def pipeline (commands : List (List Bytes)) : RedisScript (Bool × List RespReply) := do
  queueAll commands
  flush

/-- A reply that a caller examines, after how many flushes, and the command it takes it for. -/
structure Examined where
  flushes : Nat
  taken : List Bytes
  reply : RespReply

/-- The client and its surroundings while scripts run. The clock counts what the surroundings
have decided; the executed commands come with the number of the flush that sent them. -/
structure World (σ : Type) where
  client : RedisClient := {}
  flushes : Nat := 0
  executed : List (Nat × σ × List Bytes) := []
  examined : List Examined := []
  clock : Nat := 0

/-- What was executed in one flush. -/
def World.executedIn {σ : Type} (w : World σ) (flush : Nat) : List (σ × List Bytes) :=
  (w.executed.filter fun e => e.1 == flush).map Prod.snd

section Run
variable {σ : Type} (server : RedisServer σ) (weather : Nat → Weather σ) (time : Nat → Nat)

def run : RedisScript α → World σ → World σ × α
  | ret a, w => (w, a)
  | onConnect next, w =>
    run (next (w.client.connect (weather w.clock)).2)
      { w with client := (w.client.connect (weather w.clock)).1, clock := w.clock + 1 }
  | onDisconnect next, w => run next { w with client := w.client.disconnect }
  | onConnected next, w => run (next w.client.connection.isSome) w
  | onWallMs next, w => run (next (time w.clock)) { w with clock := w.clock + 1 }
  | onQueue args next, w => run next { w with client := w.client.queue args }
  | onFlush next, w =>
    let result := w.client.flush server (weather w.clock) (weather (w.clock + 1))
    run (next result.ok result.replies)
      { w with
        client := result.client
        flushes := w.flushes + 1
        executed := w.executed ++ result.executed.map (Prod.mk (w.flushes + 1))
        clock := w.clock + 2 }
  | onExamine taken reply next, w =>
    run next { w with examined := w.examined ++ [{ flushes := w.flushes, taken, reply }] }

end Run

/-- Every reply the script examines is right, in the sense of `Right`, if those it got from the
last flush are, and what it leaves queued and returns meets the postcondition. Of replies from
before the last flush nothing is known any more. -/
def Keeps (post : (List Bytes → RespReply → Prop) → List (List Bytes) → α → Prop) :
    (List Bytes → RespReply → Prop) → List (List Bytes) → RedisScript α → Prop
  | Right, queued, ret a => post Right queued a
  | Right, _, onConnect next => ∀ ok, Keeps post Right [] (next ok)
  | Right, _, onDisconnect next => Keeps post Right [] next
  | Right, queued, onConnected next => ∀ connected, Keeps post Right queued (next connected)
  | Right, queued, onWallMs next => ∀ now, Keeps post Right queued (next now)
  | Right, queued, onQueue args next => Keeps post Right (queued ++ [args]) next
  | _, queued, onFlush next => ∀ Right ok replies, List.Forall₂ Right queued replies →
      Keeps post Right [] (next ok replies)
  | Right, queued, onExamine taken reply next =>
    Right taken reply ∧ Keeps post Right queued next

/-- A script that finds the queue empty, leaves it empty and takes every reply for what it is. -/
def Steady (script : RedisScript α) : Prop :=
  ∀ Right, Keeps (fun _ queued _ => queued = []) Right [] script

variable {Right : List Bytes → RespReply → Prop}

theorem keeps_bind {post : (List Bytes → RespReply → Prop) → List (List Bytes) → β → Prop}
    {queued : List (List Bytes)} {script : RedisScript α} {f : α → RedisScript β} :
    Keeps post Right queued (script >>= f) ↔
      Keeps (fun Right queued a => Keeps post Right queued (f a)) Right queued script := by
  change Keeps post Right queued (script.bind f) ↔ _
  induction script generalizing Right queued with
  | ret a => exact Iff.rfl
  | onConnect next ih => exact forall_congr' fun ok => ih ok
  | onDisconnect next ih => exact ih
  | onConnected next ih => exact forall_congr' fun connected => ih connected
  | onWallMs next ih => exact forall_congr' fun now => ih now
  | onQueue args next ih => exact ih
  | onFlush next ih =>
    apply forall_congr'
    intro Right
    exact forall_congr' fun ok => forall_congr' fun replies => imp_congr_right fun _ => ih ok replies
  | onExamine taken reply next ih => exact and_congr_right fun _ => ih

theorem Keeps.mono {post post' : (List Bytes → RespReply → Prop) → List (List Bytes) → α → Prop}
    (h : ∀ Right queued a, post Right queued a → post' Right queued a)
    {queued : List (List Bytes)} {script : RedisScript α}
    (hkeeps : Keeps post Right queued script) : Keeps post' Right queued script := by
  induction script generalizing Right queued with
  | ret a => exact h Right queued a hkeeps
  | onConnect next ih => exact fun ok => ih ok (hkeeps ok)
  | onDisconnect next ih => exact ih hkeeps
  | onConnected next ih => exact fun connected => ih connected (hkeeps connected)
  | onWallMs next ih => exact fun now => ih now (hkeeps now)
  | onQueue args next ih => exact ih hkeeps
  | onFlush next ih =>
    exact fun Right ok replies hreplies => ih ok replies (hkeeps Right ok replies hreplies)
  | onExamine taken reply next ih => exact ⟨hkeeps.1, ih hkeeps.2⟩

theorem steady_pure (a : α) : Steady (pure a : RedisScript α) := fun _ => rfl

theorem Steady.bind {script : RedisScript α} {f : α → RedisScript β} (h : Steady script)
    (hf : ∀ a, Steady (f a)) : Steady (script >>= f) := by
  intro Right
  rw [keeps_bind]
  apply Keeps.mono _ (h Right)
  intro Right queued a hqueued
  rw [hqueued]
  exact hf a Right

theorem steady_connect : Steady connect := fun _ _ => rfl

theorem steady_disconnect : Steady disconnect := fun _ => rfl

theorem steady_connected : Steady connected := fun _ _ => rfl

theorem steady_wallMs : Steady wallMs := fun _ _ => rfl

theorem steady_command (args : List Bytes) : Steady (command args) := by
  intro _ Right ok replies hreplies
  cases hreplies with
  | cons hreply hnil => exact ⟨hreply, rfl⟩

/-- A script that gets replies to some commands: it takes them for what they are. -/
def SteadyOn (commands : List (List Bytes)) (replies : List RespReply) (script : RedisScript α) :
    Prop :=
  ∀ Right, List.Forall₂ Right commands replies →
    Keeps (fun _ queued _ => queued = []) Right [] script

theorem Steady.on {script : RedisScript α} (h : Steady script) (commands : List (List Bytes))
    (replies : List RespReply) : SteadyOn commands replies script := fun Right _ => h Right

theorem steadyOn_pure (commands : List (List Bytes)) (replies : List RespReply) (a : α) :
    SteadyOn commands replies (pure a) := (steady_pure a).on commands replies

theorem SteadyOn.bind {commands : List (List Bytes)} {replies : List RespReply}
    {script : RedisScript α} {f : α → RedisScript β} (h : SteadyOn commands replies script)
    (hf : ∀ a, Steady (f a)) : SteadyOn commands replies (script >>= f) := by
  intro Right hreplies
  rw [keeps_bind]
  apply Keeps.mono _ (h Right hreplies)
  intro Right queued a hqueued
  rw [hqueued]
  exact hf a Right

theorem steadyOn_examine {commands : List (List Bytes)} {replies : List RespReply}
    {args : List Bytes} {reply : RespReply} {f : Unit → RedisScript α}
    (hf : SteadyOn commands replies (f ())) :
    SteadyOn (args :: commands) (reply :: replies) (examine args reply >>= f) := by
  intro Right hreplies
  cases hreplies with
  | cons hreply hrest => exact ⟨hreply, hf Right hrest⟩

theorem keeps_queueAll {post : (List Bytes → RespReply → Prop) → List (List Bytes) → α → Prop}
    {queued commands : List (List Bytes)} {f : Unit → RedisScript α} :
    Keeps post Right queued (queueAll commands >>= f) ↔
      Keeps post Right (queued ++ commands) (f ()) := by
  induction commands generalizing queued with
  | nil =>
    rw [List.append_nil]
    exact Iff.rfl
  | cons args commands ih =>
    rw [← List.singleton_append, ← List.append_assoc, ← ih]
    exact Iff.rfl

/-- The replies of a pipeline are those to its commands. -/
theorem steady_pipeline {commands : List (List Bytes)} {f : Bool × List RespReply → RedisScript α}
    (hf : ∀ ok replies, SteadyOn commands replies (f (ok, replies))) :
    Steady (pipeline commands >>= f) := by
  intro _
  rw [keeps_bind]
  unfold pipeline
  rw [keeps_queueAll]
  exact fun Right ok replies hreplies => hf ok replies Right hreplies

theorem forall₂_replicate {reply : RespReply} (h : ∀ args, Right args reply)
    (commands : List (List Bytes)) :
    List.Forall₂ Right commands (List.replicate commands.length reply) := by
  induction commands with
  | nil => exact .nil
  | cons args commands ih => exact .cons (h args) ih

section Soundness
variable {σ : Type} {server : RedisServer σ} (weather : Nat → Weather σ) (time : Nat → Nat)

theorem run_executed {script : RedisScript α} {w : World σ} {e : Nat × σ × List Bytes}
    (h : e ∈ w.executed) : e ∈ (run server weather time script w).1.executed := by
  induction script generalizing w with
  | ret a => exact h
  | onConnect next ih =>
    apply ih
    exact h
  | onDisconnect next ih =>
    apply ih
    exact h
  | onConnected next ih =>
    apply ih
    exact h
  | onWallMs next ih =>
    apply ih
    exact h
  | onQueue args next ih =>
    apply ih
    exact h
  | onFlush next ih =>
    apply ih
    exact List.mem_append_left _ h
  | onExamine taken reply next ih =>
    apply ih
    exact h

/-- A script that keeps its replies apart does so in a run, whatever the surroundings do. What
is right may depend on the flush. -/
theorem run_keeps (hserver : server.WellFormed)
    {post : (List Bytes → RespReply → Prop) → List (List Bytes) → α → Prop}
    {RightIn : Nat → List Bytes → RespReply → Prop} {script : RedisScript α} {w : World σ}
    {queued : List (List Bytes)} (hstep : w.client.InStep queued)
    (hkeeps : Keeps post (RightIn w.flushes) queued script)
    (hright : ∀ e ∈ (run server weather time script w).1.executed,
      RightIn e.1 e.2.2 (server.answer e.2.1 e.2.2))
    (herror : ∀ flush args error, RightIn flush args (transportError error))
    (hexamined : ∀ x ∈ w.examined, RightIn x.flushes x.taken x.reply) :
    ∃ left, (run server weather time script w).1.client.InStep left ∧
      post (RightIn (run server weather time script w).1.flushes) left
        (run server weather time script w).2 ∧
      ∀ x ∈ (run server weather time script w).1.examined, RightIn x.flushes x.taken x.reply := by
  induction script generalizing w queued with
  | ret a => exact ⟨queued, hstep, hkeeps, hexamined⟩
  | onConnect next ih =>
    exact ih _ (RedisClient.connect_spec _ _) (hkeeps _) hright hexamined
  | onDisconnect next ih => exact ih (RedisClient.disconnect_spec _) hkeeps hright hexamined
  | onConnected next ih => exact ih _ hstep (hkeeps _) hright hexamined
  | onWallMs next ih => exact ih _ hstep (hkeeps _) hright hexamined
  | onQueue args next ih =>
    exact ih (RedisClient.queue_spec hstep args) hkeeps hright hexamined
  | onFlush next ih =>
    unfold run at hright ⊢
    obtain ⟨hstep', hreplies⟩ := RedisClient.flush_spec hserver hstep (weather w.clock)
      (weather (w.clock + 1))
    refine ih _ _ hstep' (hkeeps _ _ _ ?_) hright hexamined
    cases hreplies with
    | inl hok =>
      apply hok.2.imp
      intro args reply hanswer
      obtain ⟨s, hmem, hreply⟩ := hanswer
      rw [hreply]
      apply hright (w.flushes + 1, s, args)
      apply run_executed
      exact List.mem_append_right w.executed (List.mem_map_of_mem hmem)
    | inr hfailed =>
      obtain ⟨-, error, herrors⟩ := hfailed
      rw [herrors]
      exact forall₂_replicate (fun args => herror _ args error) queued
  | onExamine taken reply next ih =>
    refine ih hstep hkeeps.2 hright fun x hx => ?_
    cases List.mem_append.mp hx with
    | inl hold => exact hexamined x hold
    | inr hnew =>
      rw [List.mem_singleton.mp hnew]
      exact hkeeps.1

end Soundness
end RedisScript
end Morton.Cluster
