import CorrelatedInput.Device
import CorrelatedInput.Input.Event
import CorrelatedInput.Signals.Condition
/-!
What drives input, as data: a finite tree of requests to the world, sleeps and waits. An activity
sees nothing of the world but the answers to its requests, and time passes for it only while it
sleeps or waits.
-/
namespace CorrelatedInput

/-- Why a wait brought no notification. -/
inductive WaitFailure where
  | timedOut (timeout : Nat)
  | streamClosed
deriving DecidableEq, Repr

abbrev Outcome := Except WaitFailure Notification

/-- The stream that a wait listens to: the hub, or one that has ended already. -/
inductive Source where
  | hub
  | ended
deriving DecidableEq, Repr

/-- What an activity may ask of the world. None of it takes time. -/
inductive Request where
  | inject (event : InputEvent)
  | publish (notification : Notification)
  /-- The time on the timeline of the run. -/
  | now
  | longPress
  | screenOn
  | rotation
  | rotate (command : RotationCommand)
  /-- Start to listen, from this moment on. -/
  | listen (source : Source) (condition : Condition) (timeout : Nat)
deriving DecidableEq, Repr

abbrev Request.Answer : Request → Type
  | .inject _ => Bool
  | .publish _ => Nat
  | .now => Nat
  | .longPress => Nat
  | .screenOn => Except Failure Bool
  | .rotation => Except Failure Rotation
  | .rotate _ => Except Failure Unit
  | .listen _ _ _ => Nat

inductive Activity (α : Type) where
  | done (a : α)
  /-- A position left its range; nothing more happens. -/
  | stop (cause : Overflow)
  | ask (request : Request) (next : request.Answer → Activity α)
  | sleep (milliseconds : Nat) (next : Activity α)
  /-- Blocks until a wait that listens is decided, and ends it. -/
  | await (wait : Nat) (next : Outcome → Activity α)

namespace Activity

def andThen {α β : Type} (f : α → Activity β) : Activity α → Activity β
  | done a => f a
  | stop cause => stop cause
  | ask request next => ask request fun answer => (next answer).andThen f
  | sleep milliseconds next => sleep milliseconds (next.andThen f)
  | await wait next => await wait fun outcome => (next outcome).andThen f

instance : Monad Activity where
  pure := done
  bind a f := a.andThen f

def request (r : Request) : Activity r.Answer := ask r done

def inject (event : InputEvent) : Activity Bool := request (.inject event)

def now : Activity Nat := request .now

/-- The longest pause there is: thirty years of 365 days. -/
def longestPause : Nat := 30 * 365 * 86400000

/-- How long a pause lasts that is meant to last so many milliseconds. -/
def pauseLength (milliseconds : Nat) : Nat := min milliseconds longestPause

def pause (milliseconds : Nat) : Activity Unit := sleep (pauseLength milliseconds) (done ())

/-- A result that may not exist stops the activity. -/
def ofExcept {α : Type} : Except Overflow α → Activity α
  | .ok a => done a
  | .error cause => stop cause

end Activity

end CorrelatedInput
