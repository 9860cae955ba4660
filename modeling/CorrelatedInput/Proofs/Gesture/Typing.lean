import CorrelatedInput.Gesture.Typing
import CorrelatedInput.Proofs.Run.Driving
/-!
What keys and texts hand over, event by event, up to the first event that is rejected. A text that
the key map in use has no events for is passed over.
-/
namespace CorrelatedInput.Controller

open Activity

/-- The events that type a text at some time, by the key map in use. -/
def mapped? (c : Controller) (time : UInt64) (text : List Char) : Option (List KeyEvent) :=
  match c.keyMap with
  | some keyMap => keyMap text
  | none => Keys.type? time text

/-- A key that goes down and up at some time. -/
def struck (c : Controller) (time : Nat) (code metaState : Int32) : List InputEvent :=
  [.key (.stamped (c.clock.stamp time) .down code metaState),
    .key (.stamped (c.clock.stamp time) .up code metaState)]

/-- Key events as they are handed over at some time. -/
def sent (c : Controller) (time : Nat) (events : List KeyEvent) : List InputEvent :=
  events.map fun e => .key (e.restamped (c.clock.stamp time))

section Typing

variable (c : Controller) {b : Bench}

theorem sendKey_plays (code metaState : Int32) :
    (c.sendKey code metaState).Plays b (c.struck b.now code metaState) b.now := by
  apply Plays.stamp_bind
  apply Plays.inject_bind_atOnce
  exact plays_inject _

theorem sendEvents_plays (events : List KeyEvent) :
    (c.sendEvents events).Plays b (c.sent b.now events) b.now := by
  induction events generalizing b with
  | nil => exact plays_nothing
  | cons event rest ih =>
    apply Plays.stamp_bind
    apply Plays.inject_bind_atOnce
    exact ih

theorem run_typed? (text : List Char) (w : World) :
    w.run (c.typed? text) = (.ok (c.mapped? (c.clock.stamp w.now) text), w) := by
  unfold typed? mapped?
  rw [c.keyboard_eq]
  cases c.keyMap <;> rfl

theorem sendText_plays {text : List Char} {events : List KeyEvent}
    (typing : c.mapped? (c.clock.stamp b.now) text = some events) :
    (c.sendText text).Plays b (c.sent b.now events) b.now := by
  rintro w rfl
  have mapped : w.run (c.typed? text) = (.ok (some events), w) := typing ▸ c.run_typed? text w
  rw [sendText, World.run_bind, mapped]
  exact c.sendEvents_plays events w rfl

theorem run_sendText_of_unmapped {text : List Char} {w : World}
    (unmapped : c.mapped? (c.clock.stamp w.now) text = none) :
    w.run (c.sendText text) = (.ok true, w) := by
  rw [sendText, World.run_bind, run_typed?, unmapped]
  rfl

theorem sendText_plays_nothing {b : Bench} {text : List Char}
    (unmapped : c.mapped? (c.clock.stamp b.now) text = none) :
    (c.sendText text).Plays b [] b.now := by
  rintro w rfl
  rw [c.run_sendText_of_unmapped unmapped]
  exact ⟨rfl, (Bench.after_nothing _).symm⟩

end Typing

end CorrelatedInput.Controller
