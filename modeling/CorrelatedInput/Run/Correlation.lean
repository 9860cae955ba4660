import CorrelatedInput.Run.World
import CorrelatedInput.Text.Numeral
/-!
Correlated waits: an activity runs while its effects on the user interface are watched for.

The wait listens before the activity starts, so nothing that the activity causes is missed. The
activity always runs to its end; the timeout counts from its start and bounds the wait alone.
-/
namespace CorrelatedInput

namespace WaitFailure

/-- A decimal fraction of three places, with a point and no zeros at its end. -/
def fraction (thousandths : Nat) : List Char :=
  if thousandths = 0 then []
  else
    let digits := List.leftpad 3 '0' (Text.writeNat thousandths)
    '.' :: (digits.reverse.dropWhile (· = '0')).reverse

/-- A duration in the unit that suits its length. -/
def duration (milliseconds : Nat) : String :=
  if milliseconds = 0 then "0ns"
  else if milliseconds < 1000 then milliseconds.repr ++ "ms"
  else (milliseconds / 1000).repr ++ String.ofList (fraction (milliseconds % 1000)) ++ "s"

def message : WaitFailure → String
  | .timedOut timeout => "timed out after " ++ duration timeout ++ " waiting for notifications"
  | .streamClosed => "notification stream closed"

end WaitFailure

namespace Activity

/-- Runs an activity while a condition is waited for. Both results come when both are there. -/
def correlate {α : Type} (source : Source) (action : Activity α) (condition : Condition)
    (timeout : Nat) : Activity (α × Outcome) := do
  let wait ← request (.listen source condition timeout)
  let result ← action
  let outcome ← await wait done
  return (result, outcome)

/-- Runs an activity and waits for notifications of the given kinds. That nothing came in time, or
that the stream ended, is no failure; to wait for nothing is one, and nothing runs then. -/
def runAndWait {α : Type} (source : Source) (action : Activity α) (timeout : Nat)
    (mode : WaitMode) (kinds : KindSet) :
    Activity (Except Failure (α × Option Notification)) := do
  match Condition.make mode kinds with
  | .error e => return .error e
  | .ok condition =>
    let (result, outcome) ← correlate source action condition timeout
    return .ok (result, outcome.toOption)

end Activity

namespace World

/-- Runs something while other parties publish what they have to, each notification a delay after
the start. At its end their publications end too, and so do all waits. -/
def during {α : Type} (arrivals : List (Nat × Notification)) (run : World → α × World)
    (w : World) : α × World :=
  let (result, w) := run { w with schedule := Schedule.ofDelays w.now arrivals }
  (result, { w.closeAll with schedule := [] })

/-- Runs an activity while other parties publish what they have to. -/
def perform {α : Type} (arrivals : List (Nat × Notification)) (activity : Activity α)
    (w : World) : Except Overflow α × World :=
  w.during arrivals fun w => w.run activity

end World

end CorrelatedInput
