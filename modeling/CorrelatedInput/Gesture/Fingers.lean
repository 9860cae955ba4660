import CorrelatedInput.Gesture.Controller
import CorrelatedInput.Input.Session
/-!
Gestures with several fingers, each on a path of its own. A finger whose path has run out rests at
its last point while the others move. The gesture goes on whatever is rejected.
-/
namespace CorrelatedInput.Controller

open Activity (inject pause)

def placesAt (paths : List (List Coordinate)) (step : Nat) : List Coordinate :=
  paths.filterMap fun path => Motion.positionAt path step

def othersDown (c : Controller) (session : MultiTouchSession) (places : List Coordinate) :
    List Nat → Activity Unit
  | [] => return ()
  | finger :: rest => do
    let _ ← inject (session.down (← c.stamp) finger places)
    c.othersDown session places rest

/-- All fingers move, step by step, with a pause after each. -/
def moveTogether (c : Controller) (session : MultiTouchSession)
    (paths : List (List Coordinate)) : List Nat → Activity Unit
  | [] => return ()
  | step :: rest => do
    let _ ← inject (session.move (← c.stamp) (placesAt paths step))
    pause c.pace
    c.moveTogether session paths rest

def othersUp (c : Controller) (session : MultiTouchSession) (places : List Coordinate) :
    List Nat → Activity Unit
  | [] => return ()
  | finger :: rest => do
    let _ ← inject (session.up (← c.stamp) finger places)
    c.othersUp session places rest

/-- The whole gesture: the first finger is the first to go down and the last to be lifted. -/
def gestureAlong (c : Controller) (paths : List (List Coordinate)) : Activity Unit := do
  let session : MultiTouchSession := ⟨← c.stamp, paths.length⟩
  let others := List.range' 1 (paths.length - 1)
  let starts := paths.filterMap List.head?
  let ends := paths.filterMap List.getLast?
  let _ ← inject (session.firstDown (← c.stamp) starts)
  c.othersDown session starts others
  c.moveTogether session paths (List.range' 1 (Motion.longest paths - 2))
  c.othersUp session ends others
  let _ ← inject (session.lastUp (← c.stamp) ends)

/-- A gesture needs two fingers at least, and a place for each of them. -/
def gesture (c : Controller) (paths : List (List Coordinate)) : Activity (Except Failure Bool) :=
  if paths.length < 2 then return .error (.invalidArgument .tooFewPointers)
  else match paths.findIdx? List.isEmpty with
    | some finger => return .error (.invalidArgument (.emptyPath finger))
    | none => do
      c.gestureAlong paths
      return .ok true

end CorrelatedInput.Controller
