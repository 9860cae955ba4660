import CorrelatedInput.Failure
/-!
The device that input is driven into, as far as gestures ask about it: how it is turned, whether
its screen is on, and how long a press counts as long. A frozen device keeps its rotation when it
is turned physically.
-/
namespace CorrelatedInput

inductive Rotation where
  | natural
  | left
  | upsideDown
  | right
deriving DecidableEq, Repr

namespace Rotation

def degrees : Rotation → Nat
  | .natural => 0
  | .left => 90
  | .upsideDown => 180
  | .right => 270

def name (r : Rotation) : String := "Deg" ++ r.degrees.repr

def all : List Rotation := [.natural, .left, .upsideDown, .right]

def isNatural : Rotation → Bool
  | .natural => true
  | .upsideDown => true
  | .left => false
  | .right => false

end Rotation

inductive RotationCommand where
  | unfreeze
  /-- Hold the rotation there is. -/
  | freezeCurrent
  | freeze (rotation : Rotation)
deriving DecidableEq, Repr

structure Device where
  rotation : Rotation
  frozen : Bool
  screenOn : Bool
  /-- How long a press has to last to be a long one, in milliseconds. -/
  longPress : Nat
  /-- The device answers no questions and takes no commands, for this reason. -/
  outage : Option String
deriving DecidableEq, Repr

namespace Device

def fresh (longPress : Nat) : Device := ⟨.natural, false, true, longPress, none⟩

def defaultLongPress : Nat := 500

def setScreen (on : Bool) (d : Device) : Device := { d with screenOn := on }

def turn (r : Rotation) (d : Device) : Device := if d.frozen then d else { d with rotation := r }

def command (c : RotationCommand) (d : Device) : Device :=
  match c with
  | .unfreeze => { d with frozen := false }
  | .freezeCurrent => { d with frozen := true }
  | .freeze r => { d with rotation := r, frozen := true }

def reply {α : Type} (d : Device) (a : α) : Except Failure α :=
  match d.outage with
  | none => .ok a
  | some text => .error (.other text)

end Device

end CorrelatedInput
