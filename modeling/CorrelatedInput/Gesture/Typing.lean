import CorrelatedInput.Gesture.Controller
import CorrelatedInput.Keys.Keyboard
/-!
Keys and text, up to the first event that is rejected.
-/
namespace CorrelatedInput.Controller

open Activity (inject)

/-- A key goes down and up, both at one time. -/
def sendKey (c : Controller) (code metaState : Int32) : Activity Bool := do
  let time ← c.stamp
  if ← inject (.key (.stamped time .down code metaState)) then
    inject (.key (.stamped time .up code metaState))
  else return false

/-- Injects key events, each with the time of its injection, until one is rejected. -/
def sendEvents (c : Controller) : List KeyEvent → Activity Bool
  | [] => return true
  | event :: rest => do
    if ← inject (.key (event.restamped (← c.stamp))) then c.sendEvents rest
    else return false

def typed? (c : Controller) (text : List Char) : Activity (Option (List KeyEvent)) := do
  match c.keyboard with
  | .custom keyMap => return keyMap text
  | .builtIn clock => return Keys.type? (clock.stamp (← Activity.now)) text

/-- Types a text. One that cannot be typed is passed over. -/
def sendText (c : Controller) (text : List Char) : Activity Bool := do
  match ← c.typed? text with
  | some events => c.sendEvents events
  | none => return true

end CorrelatedInput.Controller
