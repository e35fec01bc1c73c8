import Morton.Proto.Snapshot

/-! Commands and the movement step. The arithmetic of the step is a parameter: client
and server only rely on both sides computing the same function. -/
namespace Morton.Sim
open Proto

/-- One client command; `axes` is the pair of move axes. -/
structure MoveInput (A : Type) where
  sequence : Nat := 0
  tick : Nat := 0
  axes : A
  sprint : Bool := false
  deriving DecidableEq

/-- The floating-point part of the simulation over move states `S` and axes `A`. -/
structure Physics (S A : Type) where
  stepMovement : S → MoveInput A → S
  quantizeInput : A → A
  /-- A wire state as position and velocity. -/
  decode : EntityWireState → S
  initial : S
  centered : A

/-- A simulation in which nothing moves. -/
def Physics.still : Physics Unit Unit :=
  { stepMovement := fun s _ => s, quantizeInput := id, decode := fun _ => (), initial := ()
    centered := () }

end Morton.Sim
