import Morton.Base.Pipeline

/-! Processes that share one server. A process that needs the server stops at a task,
sends the task's pipeline and resumes when it is answered or given up; the commands of
different processes interleave at the server in any order. -/
namespace Morton

/-- What a process sends at a task, and how it goes on. Time is passed in. -/
structure Behaviour (σ τ κ ρ : Type*) where
  commands : σ → τ → List κ
  resume : σ → Nat → Option (List ρ) → τ → σ × Option τ

structure Process (σ τ κ ρ : Type*) where
  state : σ
  task : Option τ := none
  flight : Pipeline.Flight κ ρ := { commands := [] }

namespace Process
open Pipeline
variable {ς σ τ κ ρ : Type*} (b : Behaviour σ τ κ ρ) (exec : ς → κ → ς × ρ)

/-- The process after a handler: waiting at a task, its pipeline sent, or idle. -/
def launch (outcome : σ × Option τ) : Process σ τ κ ρ :=
  { state := outcome.1
    task := outcome.2
    flight := { commands := outcome.2.elim [] (b.commands outcome.1) } }

/-- The server executes the next command of the pipeline. -/
def advance (p : Process σ τ κ ρ) (server : ς) : ς × Process σ τ κ ρ :=
  if p.task.isSome then
    ((p.flight.advance exec server).1, { p with flight := (p.flight.advance exec server).2 })
  else (server, p)

/-- The connection breaks: the pipeline is sent again, or the task fails. -/
def lose (p : Process σ τ κ ρ) (now : Nat) : Process σ τ κ ρ :=
  match p.task with
  | none => p
  | some task =>
    match p.flight.lose with
    | some flight => { p with flight }
    | none => launch b (b.resume p.state now none task)

/-- Every reply is in: the task goes on. -/
def answer (p : Process σ τ κ ρ) (now : Nat) : Process σ τ κ ρ :=
  match p.task with
  | none => p
  | some task =>
    if p.flight.answered then launch b (b.resume p.state now (some p.flight.replies) task) else p

/-- The next command, if the process waits. -/
def next (p : Process σ τ κ ρ) : Option κ := if p.task.isSome then p.flight.next else none

/-- One reply more is in. -/
def replied (p : Process σ τ κ ρ) (reply : ρ) : Process σ τ κ ρ :=
  { p with flight := { p.flight with replies := p.flight.replies ++ [reply] } }

/-- The pipeline was sent a second time. -/
def resent (p : Process σ τ κ ρ) : Process σ τ κ ρ :=
  { p with flight := { p.flight with replies := [], resent := true } }

@[simp] theorem replied_state (p : Process σ τ κ ρ) (reply : ρ) :
    (p.replied reply).state = p.state := rfl

@[simp] theorem replied_task (p : Process σ τ κ ρ) (reply : ρ) :
    (p.replied reply).task = p.task := rfl

@[simp] theorem replied_replies (p : Process σ τ κ ρ) (reply : ρ) :
    (p.replied reply).flight.replies = p.flight.replies ++ [reply] := rfl

@[simp] theorem resent_state (p : Process σ τ κ ρ) : p.resent.state = p.state := rfl

@[simp] theorem resent_task (p : Process σ τ κ ρ) : p.resent.task = p.task := rfl

@[simp] theorem resent_replies (p : Process σ τ κ ρ) : p.resent.flight.replies = [] := rfl

/-- Nothing to execute, or the next command with its effect and its reply. -/
theorem advance_cases (p : Process σ τ κ ρ) (server : ς) :
    (p.next = none ∧ p.advance exec server = (server, p)) ∨
    ∃ task c, p.task = some task ∧ p.flight.next = some c ∧ p.next = some c ∧
      p.advance exec server = ((exec server c).1, p.replied (exec server c).2) := by
  unfold advance next
  split
  · rename_i htask
    obtain ⟨task, htask⟩ := Option.isSome_iff_exists.mp htask
    cases hnext : p.flight.next with
    | none => exact Or.inl ⟨rfl, by simp [Flight.advance, hnext]⟩
    | some c => exact Or.inr ⟨task, c, htask, rfl, rfl, by simp [Flight.advance, hnext, replied]⟩
  · exact Or.inl ⟨rfl, rfl⟩

/-- A broken connection leaves the process alone, resends, or fails the task. -/
theorem lose_cases (p : Process σ τ κ ρ) (now : Nat) :
    p.lose b now = p ∨
    (∃ task, p.task = some task ∧ p.lose b now = p.resent) ∨
    ∃ task, p.task = some task ∧ p.flight.resent = true ∧
      p.lose b now = launch b (b.resume p.state now none task) := by
  unfold lose
  split
  · exact Or.inl rfl
  · rename_i task htask
    unfold Flight.lose
    by_cases hresent : p.flight.resent = true
    · exact Or.inr (Or.inr ⟨task, htask, hresent, by simp [hresent]⟩)
    · exact Or.inr (Or.inl ⟨task, htask, by simp [hresent, resent]⟩)

theorem answer_cases (p : Process σ τ κ ρ) (now : Nat) :
    p.answer b now = p ∨
    ∃ task, p.task = some task ∧ p.flight.replies.length = p.flight.commands.length ∧
      p.answer b now = launch b (b.resume p.state now (some p.flight.replies) task) := by
  unfold answer
  split
  · exact Or.inl rfl
  · rename_i task htask
    split
    · rename_i hanswered
      exact Or.inr ⟨task, htask, by simpa [Flight.answered] using hanswered, rfl⟩
    · exact Or.inl rfl

end Process
end Morton
