import Mathlib.Data.List.Basic

/-! Pipelines of commands sent to a server over a connection that can break. A broken
attempt has executed some of the commands, and nobody tells the sender how many; the
whole pipeline is then sent once more. It is assumed that what a broken attempt has not
executed when the next one begins is never executed. -/
namespace Morton.Pipeline
variable {σ κ ρ : Type*} (exec : σ → κ → σ × ρ)

/-- The commands in order, with their replies. -/
def execAll (s : σ) : List κ → σ × List ρ
  | [] => (s, [])
  | c :: commands =>
    let (s, reply) := exec s c
    let (s, replies) := execAll s commands
    (s, reply :: replies)

/-- How one attempt to send a pipeline ends. -/
inductive Attempt
  /-- No connection could be opened. -/
  | refused
  /-- The connection was lost after the server executed the first commands; it never executes
  the others of this attempt. -/
  | broken (executed : Nat)
  /-- Every reply came back. -/
  | replied
  deriving DecidableEq

/-- Sends the pipeline until an attempt is answered or refused. -/
def sendLoop (commands : List κ) : List Attempt → σ → σ × Option (List ρ)
  | [], s => (s, none)
  | .refused :: _, s => (s, none)
  | .broken n :: attempts, s => sendLoop commands attempts (execAll exec s (commands.take n)).1
  | .replied :: _, s => ((execAll exec s commands).1, some (execAll exec s commands).2)

/-- Two attempts; an empty pipeline sends nothing. -/
def flush (first second : Attempt) (commands : List κ) (s : σ) : σ × Option (List ρ) :=
  if commands.isEmpty then (s, some []) else sendLoop exec commands [first, second] s

/-- A pipeline under way: the replies of the current attempt so far, and whether this
attempt is the second one. -/
structure Flight (κ ρ : Type*) where
  commands : List κ
  replies : List ρ := []
  resent : Bool := false

namespace Flight

/-- The command the server executes next. -/
def next (f : Flight κ ρ) : Option κ := f.commands[f.replies.length]?

def answered (f : Flight κ ρ) : Bool := f.replies.length == f.commands.length

/-- The server executes the next command. -/
def advance (f : Flight κ ρ) (s : σ) : σ × Flight κ ρ :=
  match f.next with
  | none => (s, f)
  | some c => ((exec s c).1, { f with replies := f.replies ++ [(exec s c).2] })

/-- The connection is lost: send again, or give up. -/
def lose (f : Flight κ ρ) : Option (Flight κ ρ) :=
  if f.resent then none else some { f with replies := [], resent := true }

/-- The next `n` commands with no other client in between. -/
def advances (f : Flight κ ρ) (s : σ) : Nat → σ × Flight κ ρ
  | 0 => (s, f)
  | n+1 =>
    let (s, f) := f.advance exec s
    advances f s n

/-- Executing the rest of a pipeline undisturbed. -/
theorem advances_eq (f : Flight κ ρ) (s : σ) (n : Nat) :
    f.advances exec s n =
      ((execAll exec s ((f.commands.drop f.replies.length).take n)).1,
        { f with replies := f.replies ++
            (execAll exec s ((f.commands.drop f.replies.length).take n)).2 }) := by
  induction n generalizing f s with
  | zero => simp [advances, execAll]
  | succ n ih =>
    cases hnext : f.commands[f.replies.length]? with
    | none =>
      have hend : f.commands.length ≤ f.replies.length := List.getElem?_eq_none_iff.mp hnext
      have hstay : f.advance exec s = (s, f) := by simp [advance, next, hnext]
      rw [advances, hstay]
      dsimp only
      rw [ih]
      simp [List.drop_eq_nil_of_le hend]
    | some c =>
      have hstep : f.advance exec s =
          ((exec s c).1, { f with replies := f.replies ++ [(exec s c).2] }) := by
        simp [advance, next, hnext]
      have hdrop : f.commands.drop f.replies.length =
          c :: f.commands.drop (f.replies.length + 1) := by
        obtain ⟨hlt, rfl⟩ := List.getElem?_eq_some_iff.mp hnext
        exact List.drop_eq_getElem_cons hlt
      rw [advances, hstep]
      dsimp only
      rw [ih, hdrop]
      simp [execAll]

/-- What `flush` returns is what a flight collects when no other client's command comes
in between: here the first attempt is answered. -/
theorem flush_replied {commands : List κ} (hne : commands ≠ []) (second : Attempt) (s : σ) :
    flush exec .replied second commands s =
      ((({ commands } : Flight κ ρ).advances exec s commands.length).1,
        some (({ commands } : Flight κ ρ).advances exec s commands.length).2.replies) := by
  simp [flush, sendLoop, advances_eq, hne]

/-- Here the first attempt breaks after `n` commands and the second is answered. -/
theorem flush_resent {commands : List κ} (hne : commands ≠ []) (n : Nat) (s : σ)
    {again : Flight κ ρ}
    (hlose : (({ commands } : Flight κ ρ).advances exec s n).2.lose = some again) :
    flush exec (.broken n) .replied commands s =
      ((again.advances exec (({ commands } : Flight κ ρ).advances exec s n).1 commands.length).1,
        some (again.advances exec (({ commands } : Flight κ ρ).advances exec s n).1
          commands.length).2.replies) := by
  rw [advances_eq, lose, if_neg (by simp), Option.some.injEq] at hlose
  subst hlose
  simp [flush, sendLoop, advances_eq, hne]

end Flight
end Morton.Pipeline
