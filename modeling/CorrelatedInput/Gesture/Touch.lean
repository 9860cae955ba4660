import CorrelatedInput.Gesture.Controller
import CorrelatedInput.Input.Session
/-!
Gestures with one finger. Their result says whether every event was accepted.

A tap whose first event is rejected ends there. A swipe goes on whatever is rejected, and its moves
are worked out only after the finger is down.
-/
namespace CorrelatedInput.Controller

open Activity (inject pause ofExcept)

def touch (c : Controller) (place : Coordinate) : Activity (TouchSession × Bool) := do
  let session : TouchSession := ⟨← c.stamp⟩
  return (session, ← inject (session.down place))

def follow (c : Controller) (session : TouchSession) (kind : MotionKind) (place : Coordinate) :
    Activity Bool := do
  inject (session.event (← c.stamp) kind place)

/-- A finger goes down, stays for a while and is lifted. -/
def tap (c : Controller) (place : Coordinate) (dwell : Nat) : Activity Bool := do
  let (session, accepted) ← c.touch place
  if accepted then
    pause dwell
    c.follow session .up place
  else return false

def click (c : Controller) (place : Coordinate) : Activity Bool :=
  c.tap place c.timing.clickDuration.toNat

/-- Holds for as long as the device wants a long press to last. -/
def longTap (c : Controller) (place : Coordinate) : Activity Bool := do
  c.tap place (← Activity.request .longPress)

/-- Moves through places in order, with a pause after each. Says whether all that came before was
`accepted` and these moves are, too. -/
def moveThrough (c : Controller) (session : TouchSession) (accepted : Bool) :
    List Coordinate → Activity Bool
  | [] => return accepted
  | place :: rest => do
    let here ← c.follow session .move place
    pause c.pace
    c.moveThrough session (accepted && here) rest

def drag (c : Controller) (first last : Coordinate) (moves : Except Overflow (List Coordinate)) :
    Activity Bool := do
  let (session, down) ← c.touch first
  let moved ← c.moveThrough session down (← ofExcept moves)
  let lifted ← c.follow session .up last
  return moved && lifted

def swipe (c : Controller) (start finish : Coordinate) (steps : UInt32) : Activity Bool :=
  c.drag start finish (Motion.swipeMoves start finish steps)

/-- A swipe through waypoints, each leg in so many steps. -/
def swipePath (c : Controller) (points : List Coordinate) (steps : UInt32) :
    Activity (Except Failure Bool) :=
  match points.head?, points.getLast? with
  | some first, some last =>
    .ok <$> c.drag first last (List.flatten <$> Motion.segmentMoves points steps)
  | _, _ => return .error (.invalidArgument .noWaypoints)

end CorrelatedInput.Controller
