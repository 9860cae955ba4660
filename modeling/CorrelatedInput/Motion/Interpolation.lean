import CorrelatedInput.Arithmetic
import CorrelatedInput.Rounding
/-!
The positions a straight swipe moves through.

A step is the distance over the number of steps, rounded to 53 significant bits; the `i`-th
position lies `i` such steps from the start, rounded again and cut towards zero. Both roundings
are part of the contract: they decide single pixels.
-/
namespace CorrelatedInput

structure Coordinate where
  x : Int32
  y : Int32
deriving DecidableEq, Repr, Inhabited

namespace Motion

/-- `magnitude` with the sign of `direction`. -/
def towards (direction : Int) (magnitude : Nat) : Int :=
  if direction < 0 then -(magnitude : Int) else magnitude

/-- How far along one axis the `i`-th of `steps` positions lies from the start. -/
def offset (distance : Int32) (steps i : Nat) : Int32 :=
  let step := Dyadic.ofQuotient distance.toInt.natAbs steps
  saturate (towards distance.toInt (step.scaleBy i).floor)

/-- The `i`-th position of a leg that covers `dx` and `dy`; `x` is computed before `y`. -/
def waypoint (start : Coordinate) (dx dy : Int32) (steps i : Nat) :
    Except Overflow Coordinate := do
  let x ← plus start.x (offset dx steps i)
  let y ← plus start.y (offset dy steps i)
  return ⟨x, y⟩

/-- The positions visited from `start` to `finish` in `steps` steps, the last one `finish`.
No steps count as one. Both distances are taken before any position. -/
def interpolate (start finish : Coordinate) (steps : UInt32) :
    Except Overflow (List Coordinate) := do
  let n := max steps.toNat 1
  let dx ← minus finish.x start.x
  let dy ← minus finish.y start.y
  let inner ← (List.range' 1 (n - 1)).mapM (waypoint start dx dy n)
  return inner ++ [finish]

/-- The positions of the moves of a swipe: the end point is left to the touch-up. -/
def swipeMoves (start finish : Coordinate) (steps : UInt32) :
    Except Overflow (List Coordinate) :=
  List.dropLast <$> interpolate start finish steps

/-- The moves of a swipe through several waypoints, one list for each leg. -/
def segmentMoves : List Coordinate → UInt32 → Except Overflow (List (List Coordinate))
  | a :: b :: rest, steps => do
    let leg ← swipeMoves a b steps
    let legs ← segmentMoves (b :: rest) steps
    return leg :: legs
  | _, _ => .ok []

def longest (paths : List (List Coordinate)) : Nat :=
  (paths.map List.length).foldl max 0

/-- Where a finger is at a step: past the end of its path it holds the last point. -/
def positionAt (path : List Coordinate) (step : Nat) : Option Coordinate :=
  path[step]?.or path.getLast?

end Motion

end CorrelatedInput
