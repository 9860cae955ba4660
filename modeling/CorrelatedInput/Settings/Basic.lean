/-!
What the user can set: the pace of gestures, and how the program logs.
-/
namespace CorrelatedInput

/-- The pace of gestures, in milliseconds. -/
structure Timing where
  /-- How long a click keeps the finger down. -/
  clickDuration : UInt64 := 100
  /-- The pause after each move of a gesture. -/
  injectionDelay : UInt64 := 5
  /-- How long a scrolling swipe waits for the view to scroll. -/
  scrollTimeout : UInt64 := 500
  /-- How long a long press lasts on a device that does not say. -/
  longPress : UInt64 := 500
deriving DecidableEq, Repr

structure Logging where
  level : String := "info"
  json : Bool := false
  file : Option String := none
deriving DecidableEq, Repr

structure Settings where
  timing : Timing := {}
  logging : Logging := {}
deriving DecidableEq, Repr

end CorrelatedInput
