import CorrelatedInput.Input.Event
/-!
A touch action packed into one 32-bit word: the kind in the low eight bits and the low 24 bits of
the pointer index above them. Unpacking shifts the sign along, so an index comes back whole
exactly when its upper bits only repeat the sign.
-/
namespace CorrelatedInput

namespace MotionKind

def code : MotionKind → Int32
  | .down => 0
  | .up => 1
  | .move => 2
  | .pointerDown => 5
  | .pointerUp => 6

def ofCode? (code : Int32) : Option MotionKind :=
  if code = 0 then some .down
  else if code = 1 then some .up
  else if code = 2 then some .move
  else if code = 5 then some .pointerDown
  else if code = 6 then some .pointerUp
  else none

end MotionKind

namespace MotionAction

def encoded (a : MotionAction) : Int32 := a.kind.code + (a.pointerIndex.toInt32 <<< 8)

def decode? (code : Int32) : Option MotionAction :=
  (MotionKind.ofCode? (code &&& 0xff)).map fun kind => ⟨kind, (code >>> 8).toUInt32⟩

end MotionAction

end CorrelatedInput
