import CorrelatedInput.Motion.Interpolation
/-!
Input events as an input stack takes them: touch events with every pointer they carry, and key
events. Times are milliseconds on the clock of whoever built the event.
-/
namespace CorrelatedInput

inductive InputSource where
  | touchscreen
  | keyboard
deriving DecidableEq, Repr

namespace InputSource

def code : InputSource → UInt32
  | .touchscreen => 0x1002
  | .keyboard => 0x0101

def name : InputSource → String
  | .touchscreen => "touchscreen"
  | .keyboard => "keyboard"

def all : List InputSource := [.touchscreen, .keyboard]

end InputSource

inductive ToolType where
  | finger
deriving DecidableEq, Repr

namespace ToolType

def name : ToolType → String
  | .finger => "finger"

def all : List ToolType := [.finger]

end ToolType

structure Pointer where
  id : UInt32
  tool : ToolType
  position : Coordinate
deriving DecidableEq, Repr

inductive MotionKind where
  | down
  | up
  | move
  | pointerDown
  | pointerUp
deriving DecidableEq, Repr

namespace MotionKind

def name : MotionKind → String
  | .down => "down"
  | .up => "up"
  | .move => "move"
  | .pointerDown => "pointer_down"
  | .pointerUp => "pointer_up"

def all : List MotionKind := [.down, .up, .move, .pointerDown, .pointerUp]

end MotionKind

structure MotionAction where
  kind : MotionKind
  pointerIndex : UInt32
deriving DecidableEq, Repr

/-- An action that concerns the first pointer or all of them. -/
def MotionKind.action (kind : MotionKind) : MotionAction := ⟨kind, 0⟩

structure MotionEvent where
  /-- When the first pointer of the gesture went down. -/
  downTime : UInt64
  eventTime : UInt64
  action : MotionAction
  pointers : List Pointer
  source : InputSource
deriving DecidableEq, Repr

def MotionEvent.primaryPosition (e : MotionEvent) : Option Coordinate :=
  e.pointers.head?.map Pointer.position

inductive KeyAction where
  | down
  | up
deriving DecidableEq, Repr

namespace KeyAction

def name : KeyAction → String
  | .down => "down"
  | .up => "up"

def all : List KeyAction := [.down, .up]

end KeyAction

structure KeyEvent where
  downTime : UInt64
  eventTime : UInt64
  action : KeyAction
  keyCode : Int32
  repeatCount : UInt32
  metaState : Int32
  source : InputSource
deriving DecidableEq, Repr

/-- The same event at another time, as its first occurrence. -/
def KeyEvent.restamped (e : KeyEvent) (time : UInt64) : KeyEvent :=
  { e with eventTime := time, repeatCount := 0 }

/-- The event of a key that goes down or up at `time`. -/
def KeyEvent.stamped (time : UInt64) (action : KeyAction) (code metaState : Int32) : KeyEvent :=
  ⟨time, time, action, code, 0, metaState, .keyboard⟩

inductive InputEvent where
  | motion (event : MotionEvent)
  | key (event : KeyEvent)
deriving DecidableEq, Repr

namespace InputEvent

def source : InputEvent → InputSource
  | .motion e => e.source
  | .key e => e.source

def eventTime : InputEvent → UInt64
  | .motion e => e.eventTime
  | .key e => e.eventTime

def downTime : InputEvent → UInt64
  | .motion e => e.downTime
  | .key e => e.downTime

def motion? : InputEvent → Option MotionEvent
  | .motion e => some e
  | .key _ => none

def key? : InputEvent → Option KeyEvent
  | .key e => some e
  | .motion _ => none

end InputEvent

end CorrelatedInput
