import CorrelatedInput.Input.Event
/-!
Touches in progress. All events of a touch share the time at which it began; a touch with several
fingers also fixes who the fingers are.
-/
namespace CorrelatedInput

structure TouchSession where
  downTime : UInt64
deriving DecidableEq, Repr

namespace TouchSession

def event (s : TouchSession) (now : UInt64) (kind : MotionKind) (place : Coordinate) :
    InputEvent :=
  .motion ⟨s.downTime, now, kind.action, [⟨0, .finger, place⟩], .touchscreen⟩

def down (s : TouchSession) (place : Coordinate) : InputEvent :=
  s.event s.downTime .down place

end TouchSession

/-- A touch with several fingers, who are called 0, 1 and so on. -/
structure MultiTouchSession where
  downTime : UInt64
  /-- How many fingers were asked for. -/
  asked : Nat
deriving DecidableEq, Repr

namespace MultiTouchSession

/-- How many fingers there are. They are counted in 32 bits: of a larger number the higher bits are
lost. -/
def fingers (s : MultiTouchSession) : Nat := (UInt32.ofNat s.asked).toNat

/-- The first `shown` fingers, as far as their places are given. -/
def pointers (s : MultiTouchSession) (places : List Coordinate) (shown : Nat) : List Pointer :=
  (((List.range s.fingers).zip places).take shown).map fun (finger, place) =>
    ⟨UInt32.ofNat finger, .finger, place⟩

def event (s : MultiTouchSession) (now : UInt64) (action : MotionAction)
    (places : List Coordinate) (shown : Nat) : InputEvent :=
  .motion ⟨s.downTime, now, action, s.pointers places shown, .touchscreen⟩

/-- The first finger goes down, alone. -/
def firstDown (s : MultiTouchSession) (now : UInt64) (places : List Coordinate) : InputEvent :=
  s.event now MotionKind.down.action places 1

/-- Another finger goes down; the event carries those before it too. -/
def down (s : MultiTouchSession) (now : UInt64) (finger : Nat) (places : List Coordinate) :
    InputEvent :=
  s.event now ⟨.pointerDown, UInt32.ofNat finger⟩ places (finger + 1)

def move (s : MultiTouchSession) (now : UInt64) (places : List Coordinate) : InputEvent :=
  s.event now MotionKind.move.action places s.fingers

/-- Another finger than the first is lifted; the event carries all fingers. -/
def up (s : MultiTouchSession) (now : UInt64) (finger : Nat) (places : List Coordinate) :
    InputEvent :=
  s.event now ⟨.pointerUp, UInt32.ofNat finger⟩ places s.fingers

/-- The first finger is lifted, the last to be down. -/
def lastUp (s : MultiTouchSession) (now : UInt64) (places : List Coordinate) : InputEvent :=
  s.event now MotionKind.up.action places 1

end MultiTouchSession

end CorrelatedInput
