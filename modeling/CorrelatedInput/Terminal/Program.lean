import CorrelatedInput.Gesture.Fingers
import CorrelatedInput.Gesture.Touch
import CorrelatedInput.Gesture.Typing
import CorrelatedInput.Recording.Recorder
import CorrelatedInput.Run.Correlation
import CorrelatedInput.Settings.File
import CorrelatedInput.Terminal.Invocation
/-!
What the program does: it performs a gesture into a sink that accepts everything, and prints the
events or records them; or it shows or writes the settings. What the gesture causes nobody knows,
so nothing is waited for.
-/
namespace CorrelatedInput.Terminal

/-- The paths of two fingers on either side of a point. The near ends lie a tenth of the span away
from it, and at least one pixel. -/
def fingerPath (center : Coordinate) (span : Int32) (steps : UInt32) (outwards : Bool)
    (direction : Int32) : Except Overflow (List Coordinate) := do
  let far : Coordinate := ⟨← plus center.x (← times direction span), center.y⟩
  let gap := if span / 10 < 1 then 1 else span / 10
  let near : Coordinate := ⟨← plus center.x (← times direction gap), center.y⟩
  let (start, finish) := if outwards then (near, far) else (far, near)
  let rest ← Motion.interpolate start finish (UInt32.ofNat (steps.toNat - 1))
  return start :: rest

def pinchPaths (center : Coordinate) (span : Int32) (steps : UInt32) (outwards : Bool) :
    Except Overflow (List (List Coordinate)) := do
  let left ← fingerPath center span steps outwards (-1)
  let right ← fingerPath center span steps outwards 1
  return [left, right]

def Plan.activity (c : Controller) : Plan → Activity (Except Failure Bool)
  | .click place => .ok <$> c.click place
  | .longTap place => .ok <$> c.longTap place
  | .swipe start finish steps => .ok <$> c.swipe start finish steps
  | .path points steps => c.swipePath points steps
  | .pinch center span steps outwards => do
    c.gesture (← Activity.ofExcept (pinchPaths center span steps outwards))
  | .text written => .ok <$> c.sendText written.toList
  | .key code metaState => .ok <$> c.sendKey code metaState

inductive Ending where
  | printed (text : String)
  | failed (message : String)
  | stopped (cause : Overflow)
  | refused (refusal : Refusal)
deriving DecidableEq, Repr

structure Result where
  ending : Ending
  store : Store
  /-- How long the gesture took, in milliseconds. -/
  elapsed : Nat

/-- Where a plan is performed: nothing reacts, nothing is rejected. -/
def stage (timing : Timing) : World :=
  .fresh Hub.defaultCapacity (.rejecting []) [] (.fresh timing.longPress.toNat)

def recordedMessage (summary : Summary) (path : String) : String :=
  "Recorded " ++ summary.accepted.toNat.repr ++ " events (" ++ summary.rejected.toNat.repr
    ++ " rejected) to " ++ path ++ "\n"

/-- Performs a plan. Its output file is there before the gesture begins; every event goes through a
recording sink then, and the file holds what was recorded even if the gesture does not come to its
end. -/
def runPlan (plan : Plan) (output : Option String) (timing : Timing) (wall : Nat) (s : Store) :
    Result :=
  let clock : Clock := ⟨0, wall⟩
  let gesture := plan.activity ((Controller.fresh clock).withTiming timing)
  let stage := stage timing
  match output with
  | none =>
    match stage.perform [] gesture with
    | (.error cause, world) => ⟨.stopped cause, s, world.now⟩
    | (.ok (.error failure), world) => ⟨.failed failure.message, s, world.now⟩
    | (.ok (.ok _), world) =>
      let events := world.sink.log.toList.map Injected.event
      ⟨.printed (String.ofList (serializeEvents events)), s, world.now⟩
  | some path =>
    match (RecordingSink.create stage.sink path clock.epochWall).perform s with
    | (.error fault, s) => ⟨.failed ("Failed to create " ++ path ++ ": " ++ fault.message), s, 0⟩
    | (.ok sink, s) =>
      let (result, world) := (stage.behind sink).perform [] gesture
      let recorder := world.recorder.getD sink.recorder
      let save (r : Recorder) : Store := r.save sink.recorder.out s
      match result with
      | .error cause => ⟨.stopped cause, save recorder.close, world.now⟩
      | .ok (.error failure) => ⟨.failed failure.message, save recorder.close, world.now⟩
      | .ok (.ok _) =>
        ⟨.printed (recordedMessage recorder.summary path), save recorder.finish, world.now⟩

/-- Shows the settings there are, or writes the default ones. -/
def runSettings (write : Bool) (settings : Settings) (home : Settings.Home) (s : Store) : Result :=
  if write then
    let settings : Settings := {}
    match (settings.save home).perform s with
    | (.error fault, s) => ⟨.failed ("Failed to save config: " ++ fault.message), s, 0⟩
    | (.ok (), s) =>
      ⟨.printed ("Wrote default configuration to " ++ Settings.location home ++ "\n"
        ++ settings.toText ++ "\n"), s, 0⟩
  else ⟨.printed (settings.toText ++ "\n"), s, 0⟩

/-- Makes the log file, if one is set and it can be made. -/
def prepareLog (logging : Logging) (s : Store) : Store :=
  match logging.file with
  | none => s
  | some path =>
    let prepare : Access Unit := do
      Access.createParents path
      Access.touch path
    (prepare.perform s).2

/-- Runs the program. `wall` is the time of the wall clock, in milliseconds since the start of
1970. -/
def run (args : List String) (home : Settings.Home) (wall : Nat) (s : Store) : Result :=
  match Invocation.ofArguments args with
  | .error refusal => ⟨.refused refusal, s, 0⟩
  | .ok invocation =>
    let settings := Settings.load home s
    let s := prepareLog settings.logging s
    match invocation with
    | .plan plan output => runPlan plan output settings.timing wall s
    | .settings write => runSettings write settings home s

end CorrelatedInput.Terminal
