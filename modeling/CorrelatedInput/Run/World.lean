import CorrelatedInput.Recording.Recorder
import CorrelatedInput.Run.Activity
import CorrelatedInput.Run.Schedule
import CorrelatedInput.Signals.Hub
/-!
The world that activities run in: the time, the sink, the hub and who listens to it, and what other
parties will publish.

Waits look at notifications only when nothing else can go on. `World.settle` is that moment: every
open wait reads all it has not read, in order. One whose condition is still unmet then brings
nothing if the stream of the hub has ended, and has timed out if its deadline has come. What is
published at one instant is thus read together, and of more than a subscriber can keep only the
newest are seen.
-/
namespace CorrelatedInput

inductive Trigger where
  | ordinal (n : Nat)
  | motion (kind : MotionKind)
  | key (action : KeyAction)
deriving DecidableEq, Repr

def Trigger.matches (t : Trigger) (ordinal : Nat) (event : InputEvent) : Bool :=
  match t, event with
  | .ordinal n, _ => n = ordinal
  | .motion kind, .motion e => e.action.kind = kind
  | .key action, .key e => e.action = action
  | _, _ => false

/-- What the user interface publishes as soon as such an event is accepted. -/
structure Reaction where
  trigger : Trigger
  notifications : List Notification
deriving DecidableEq, Repr

/-- Somebody who waits for notifications until a deadline. -/
structure Wait where
  id : Nat
  /-- Its subscription to the hub; none if its stream has ended. -/
  subscription : Option Nat
  condition : Condition
  timeout : Nat
  deadline : Nat
  outcome : Option Outcome

namespace Wait

/-- Reads what has come by `now` into a wait that is not decided; `after` is what its subscription
says when all of it is read. -/
def read (now : Nat) (unread : List Notification) (after : Reception) (w : Wait) : Wait :=
  if w.deadline < now then { w with outcome := some (.error (.timedOut w.timeout)) }
  else match w.condition.feed unread with
    | (condition, some n) => { w with condition, outcome := some (.ok n) }
    | (condition, none) =>
      { w with
        condition
        outcome :=
          if after = .closed then some (.error .streamClosed)
          else if w.deadline = now then some (.error (.timedOut w.timeout))
          else none }

/-- What a wait makes of this moment, and the hub after it has read its share. -/
def settle (now : Nat) (hub : Hub) (w : Wait) : Wait × Hub :=
  match w.outcome, w.subscription with
  | some _, _ => (w, hub)
  | none, none => ({ w with outcome := some (.error .streamClosed) }, hub)
  | none, some id =>
    let (unread, hub) := hub.drain id
    let (after, hub) := hub.receive id
    (w.read now unread after, hub)

end Wait

structure World where
  now : Nat
  hub : Hub
  sink : Sink
  /-- What takes note of the events, if there is a recording sink in front of the sink. -/
  recorder : Option Recorder
  reactions : List Reaction
  device : Device
  /-- What other parties will publish. -/
  schedule : Schedule
  /-- When the stream of the hub ends, if it does: after all that is published at that instant. -/
  ending : Option Nat
  waits : List Wait
  /-- How many waits were opened so far. -/
  opened : Nat

namespace World

def fresh (capacity : Nat) (sink : Sink) (reactions : List Reaction) (device : Device) : World :=
  ⟨0, Hub.ofCapacity capacity, sink, none, reactions, device, [], none, [], 0⟩

/-- The world whose events go through a recording sink. -/
def behind (sink : RecordingSink) (w : World) : World :=
  { w with sink := sink.inner, recorder := some sink.recorder }

/-- What follows from an event at once: the notifications of all reactions to it, in order. -/
def reactionsTo (w : World) (event : InputEvent) : List Notification :=
  (w.reactions.filter fun r => r.trigger.matches w.sink.next event).flatMap
    Reaction.notifications

/-- Hands an event to a sink, through the recording sink in front of it if there is one. -/
def hand (event : InputEvent) (sink : Sink) : Option Recorder → Bool × Sink × Option Recorder
  | none =>
    let (accepted, sink) := sink.inject event
    (accepted, sink, none)
  | some recorder =>
    let (accepted, outer) := RecordingSink.inject event ⟨sink, recorder⟩
    (accepted, outer.inner, some outer.recorder)

def inject (event : InputEvent) (w : World) : Bool × World :=
  let (accepted, sink, recorder) := hand event w.sink w.recorder
  let reaction := if accepted then w.reactionsTo event else []
  (accepted, { w with sink, recorder, hub := w.hub.publishAll reaction })

def publish (n : Notification) (w : World) : Nat × World :=
  let (reached, hub) := w.hub.publish n
  (reached, { w with hub })

def rotate (c : RotationCommand) (w : World) : Except Failure Unit × World :=
  match w.device.reply () with
  | .ok () => (.ok (), { w with device := w.device.command c })
  | .error e => (.error e, w)

/-- Opens a wait. Its deadline is taken to be an instant that the clock of the runtime can show,
which it is for every timeout that is given in 64 bits of milliseconds. -/
def listen (source : Source) (condition : Condition) (timeout : Nat) (w : World) :
    Nat × World :=
  let (subscription, hub) := match source with
    | .hub => let (id, hub) := w.hub.subscribe; (some id, hub)
    | .ended => (none, w.hub)
  let wait : Wait := ⟨w.opened, subscription, condition, timeout, w.now + timeout, none⟩
  (w.opened, { w with hub, waits := w.waits ++ [wait], opened := w.opened + 1 })

def answer (w : World) : (r : Request) → r.Answer × World
  | .inject event => w.inject event
  | .publish notification => w.publish notification
  | .now => (w.now, w)
  | .longPress => (w.device.longPress, w)
  | .screenOn => (w.device.reply w.device.screenOn, w)
  | .rotation => (w.device.reply w.device.rotation, w)
  | .rotate command => w.rotate command
  | .listen source condition timeout => w.listen source condition timeout

/-- Lets each of some waits make of this moment what it can. -/
def settleAll (now : Nat) : List Wait → Hub → List Wait × Hub
  | [], hub => ([], hub)
  | wait :: rest, hub =>
    let (wait, hub) := wait.settle now hub
    let (rest, hub) := settleAll now rest hub
    (wait :: rest, hub)

/-- The moment when nothing goes on but reading. -/
def settle (w : World) : World :=
  let (waits, hub) := settleAll w.now w.waits w.hub
  { w with waits, hub }

def outcome? (id : Nat) (w : World) : Option Outcome :=
  (w.waits.find? fun wait => wait.id = id).bind Wait.outcome

def deadline? (id : Nat) (w : World) : Option Nat :=
  (w.waits.find? fun wait => wait.id = id).map Wait.deadline

def unsubscribe (waits : List Wait) (hub : Hub) : Hub :=
  (waits.filterMap Wait.subscription).foldl (fun hub id => hub.unsubscribe id) hub

def close (id : Nat) (w : World) : World :=
  { w with
    waits := w.waits.filter fun wait => wait.id ≠ id
    hub := unsubscribe (w.waits.filter fun wait => wait.id = id) w.hub }

def closeAll (w : World) : World := { w with waits := [], hub := unsubscribe w.waits w.hub }

/-- What other parties publish at one instant. -/
def arrive (time : Nat) (notifications : List Notification) (w : World) : World :=
  { w with now := max w.now time, hub := w.hub.publishAll notifications }

/-- Lets time pass until `limit`, or until `enough` holds at an earlier instant at which something
was published. Waits read at every instant before `limit`; at `limit` itself, whoever goes on then
goes first. -/
def passFrom (enough : World → Bool) (limit : Nat) : Schedule → World → World
  | [], w => { w with now := max w.now limit, schedule := [] }
  | (time, notifications) :: rest, w =>
    if time < limit then
      let w := (w.arrive time notifications).settle
      if enough w then { w with schedule := rest } else passFrom enough limit rest w
    else if time = limit then { w.arrive time notifications with schedule := rest }
    else { w with now := max w.now limit, schedule := (time, notifications) :: rest }

/-- The stream of the hub ends. -/
def endStream (w : World) : World := { w with hub := w.hub.close, ending := none }

/-- Lets time pass until the stream of the hub ends, or until `enough` holds before. -/
def passEnding (enough : World → Bool) (time : Nat) (w : World) : World :=
  let w := passFrom enough time w.schedule w
  if enough w then w else w.endStream.settle

/-- Lets time pass until `limit`, or until `enough` holds before. -/
def pass (enough : World → Bool) (limit : Nat) (w : World) : World :=
  match w.ending with
  | none => passFrom enough limit w.schedule w
  | some time =>
    if limit ≤ time then passFrom enough limit w.schedule w
    else
      let w := w.passEnding enough time
      if enough w then w else passFrom enough limit w.schedule w

/-- Nothing goes on for a while but what others do. No time at all is no pause. -/
def sleep (milliseconds : Nat) (w : World) : World :=
  if milliseconds = 0 then w
  else w.settle.pass (fun _ => false) (w.now + milliseconds)

/-- Nothing goes on until a wait is decided, at the latest at its deadline; then it is closed. A
wait that was never opened is as one whose stream has ended. -/
def await (id : Nat) (w : World) : Outcome × World :=
  let w := w.settle
  let w := match w.outcome? id, w.deadline? id with
    | none, some deadline => (w.pass (fun w => (w.outcome? id).isSome) deadline).settle
    | _, _ => w
  ((w.outcome? id).getD (.error .streamClosed), w.close id)

/-- Runs an activity. One that stops leaves no wait open. -/
def run {α : Type} (w : World) : Activity α → Except Overflow α × World
  | .done a => (.ok a, w)
  | .stop cause => (.error cause, w.closeAll)
  | .ask request next =>
    let (answer, w) := w.answer request
    w.run (next answer)
  | .sleep milliseconds next => (w.sleep milliseconds).run next
  | .await wait next =>
    let (outcome, w) := w.await wait
    w.run (next outcome)

end World

end CorrelatedInput
