import CorrelatedInput.Gesture.Touch
import CorrelatedInput.Gesture.Typing
import CorrelatedInput.Run.Correlation
/-!
Gestures that wait for what they cause. They leave the same events behind as the plain gestures;
their result says whether the notifications came in time.
-/
namespace CorrelatedInput.Controller

open Activity (runAndWait)

def cameInTime {α : Type} : Except Failure (α × Option Notification) → Except Failure Bool
  | .ok (_, notification) => .ok notification.isSome
  | .error e => .error e

def clickAndWait (c : Controller) (place : Coordinate) (timeout : Nat) (mode : WaitMode)
    (kinds : KindSet) : Activity (Except Failure Bool) :=
  cameInTime <$> runAndWait .hub (c.click place) timeout mode kinds

def clickAndWaitForKind (c : Controller) (place : Coordinate) (timeout : Nat) (kind : Kind) :
    Activity (Except Failure Bool) :=
  c.clickAndWait place timeout .any (.singleton kind)

/-- A new window shows itself by a change of window state and one of window content. -/
def clickAndWaitForWindow (c : Controller) (place : Coordinate) (timeout : Nat) :
    Activity (Except Failure Bool) :=
  c.clickAndWait place timeout .all (.ofList [.windowStateChanged, .windowContentChanged])

def sendKeyAndWait (c : Controller) (code metaState : Int32) (kind : Kind) (timeout : Nat) :
    Activity (Except Failure Bool) :=
  cameInTime <$> runAndWait .hub (c.sendKey code metaState) timeout .any (.singleton kind)

/-- Swipes, and says whether there is more to scroll: something scrolled in time and has not come to
its end. -/
def scrollSwipe (c : Controller) (start finish : Coordinate) (steps : UInt32) :
    Activity Bool := do
  let timeout := c.timing.scrollTimeout.toNat
  match ← runAndWait .hub (c.swipe start finish steps) timeout .any
      (.singleton .viewScrolled) with
  | .ok (_, some notification) => return notification.scroll.hasMore start finish
  | .ok (_, none) => return false
  | .error _ => return false

end CorrelatedInput.Controller
