import CorrelatedInput.Time.Calendar
/-!
The clock that stamps events. It counts milliseconds from the moment it was started, and it
remembers what the wall clock showed at that moment.
-/
namespace CorrelatedInput

structure Clock where
  /-- When the clock was started, on the timeline that all of a run shares. -/
  start : Nat
  /-- The wall clock at that moment: milliseconds since the start of 1970. -/
  wall : Nat
deriving DecidableEq, Repr

namespace Clock

/-- What the clock shows at a moment of the timeline. -/
def stamp (c : Clock) (now : Nat) : UInt64 := UInt64.ofNat (now - c.start)

/-- The wall clock at the start, as RFC 3339 writes it. -/
def epochWall (c : Clock) : String := Time.rfc3339 c.wall

end Clock

end CorrelatedInput
