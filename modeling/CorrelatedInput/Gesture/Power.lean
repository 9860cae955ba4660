import CorrelatedInput.Gesture.Typing
/-!
The device as a controller handles it: how it is turned, and whether its screen is on.
-/
namespace CorrelatedInput.Controller

open Activity (request)

def isNatural : Activity (Except Failure Bool) := do
  return (← request .rotation).map Rotation.isNatural

def turnTo (rotation : Rotation) : Activity (Except Failure Unit) :=
  request (.rotate (.freeze rotation))

def freeze : Activity (Except Failure Unit) := request (.rotate .freezeCurrent)

def unfreeze : Activity (Except Failure Unit) := request (.rotate .unfreeze)

/-- Presses the power key if the screen is `on`, and says whether it was. -/
def pressPowerIf (c : Controller) (on : Bool) : Activity (Except Failure Bool) := do
  match ← request .screenOn with
  | .error e => return .error e
  | .ok screen =>
    if screen = on then
      let _ ← c.sendKey Keys.power Keys.noMeta
      return .ok true
    else return .ok false

def wake (c : Controller) : Activity (Except Failure Bool) := c.pressPowerIf false

def sleep (c : Controller) : Activity (Except Failure Bool) := c.pressPowerIf true

end CorrelatedInput.Controller
