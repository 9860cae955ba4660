import CorrelatedInput.Proofs.Gesture.Touch
import CorrelatedInput.Proofs.Gesture.Typing
import CorrelatedInput.Proofs.Keys.Keyboard
/-!
Gestures that end at the first event that is rejected: taps, keys and texts. What they plan to do is
a list of events, and the sink comes to see no event after one that it rejects.
-/
namespace CorrelatedInput

open Activity

/-- The activity offers planned events to the sink up to the first that is rejected, says whether
there was none, and ends at this time. -/
structure World.EndsAtRejection (w : World) (a : Activity Bool) (planned : List InputEvent)
    (time : Nat) : Prop where
  offered : ∃ offered, w.sink.IsUntilRejected planned offered ∧
    (w.run a).2.sink = w.sink.offer offered
  result : (w.run a).1 = .ok (w.sink.accepts planned)
  now : (w.run a).2.now = time

theorem Activity.Plays.endsAtRejection {w : World} {a : Activity Bool} {planned : List InputEvent}
    {time : Nat} (h : a.Plays w.bench planned time) : w.EndsAtRejection a planned time := by
  obtain ⟨value, reached⟩ := h w rfl
  exact ⟨⟨_, w.sink.isUntilRejected planned, congrArg Bench.sink reached⟩, value,
    congrArg Bench.now reached⟩

namespace Controller

theorem mapped?_of_keyless {c : Controller} (builtIn : c.keyMap = none) (time : UInt64)
    {char : Char} (keyless : Keys.lookup? char = none) (before after : List Char) :
    c.mapped? time (before ++ char :: after) = none := by
  rw [mapped?, builtIn, ← Option.not_isSome_iff_eq_none, Keys.isSome_type?]
  intro all
  have typable := all char (by simp)
  rw [← Keys.isSome_lookup?, keyless] at typable
  cases typable

theorem tap_endsAtRejection (c : Controller) (w : World) (place : Coordinate) (dwell : Nat) :
    w.EndsAtRejection (c.tap place dwell) (c.tapped w.now place dwell)
      (if w.sink.accepts [TouchSession.down ⟨c.clock.stamp w.now⟩ place] then
        w.now + pauseLength dwell else w.now) :=
  (c.tap_plays w.bench place dwell).endsAtRejection

/-- A rejected event is the last one of a tap, a key or a text. A tap plans to go down, to dwell and
to be lifted, and does not dwell where its first event is rejected; a key goes down and up at once;
and a text is typed with the events that the key map has for it. A text that the key map has no
events for, as the built-in keyboard has none where one character has no key, is passed over as if
it had been typed. -/
theorem rejection_ends_gestures (c : Controller) (w : World) :
    (∀ place,
      let accepted := w.sink.accepts [TouchSession.down ⟨c.clock.stamp w.now⟩ place]
      let finish (dwell : Nat) := if accepted then w.now + pauseLength dwell else w.now
      let short := c.timing.clickDuration.toNat
      let long := w.device.longPress
      w.EndsAtRejection (c.click place) (c.tapped w.now place short) (finish short) ∧
        w.EndsAtRejection (c.longTap place) (c.tapped w.now place long) (finish long)) ∧
    (∀ code metaState,
      w.EndsAtRejection (c.sendKey code metaState) (c.struck w.now code metaState) w.now) ∧
    (∀ text,
      match c.mapped? (c.clock.stamp w.now) text with
      | some events => w.EndsAtRejection (c.sendText text) (c.sent w.now events) w.now
      | none => w.run (c.sendText text) = (.ok true, w)) ∧
    ∀ before char after, c.keyMap = none → Keys.lookup? char = none →
      w.run (c.sendText (before ++ char :: after)) = (.ok true, w) := by
  refine ⟨?_, ?_, ?_, ?_⟩
  · intro place accepted finish short long
    have held := c.tap_endsAtRejection w place long
    exact ⟨c.tap_endsAtRejection w place short, held.offered, held.result, held.now⟩
  · intro code metaState
    exact (c.sendKey_plays code metaState).endsAtRejection
  · intro text
    split
    · rename_i typing
      exact (c.sendText_plays (b := w.bench) typing).endsAtRejection
    · rename_i unmapped
      exact c.run_sendText_of_unmapped unmapped
  · intro before char after builtIn keyless
    exact c.run_sendText_of_unmapped (mapped?_of_keyless builtIn _ keyless before after)

/-- The second of two characters is cut off when shift is down already; with a character between
them that has no key, neither is typed. -/
theorem rejection_ends_gestures_shifted :
    let c := Controller.fresh ⟨0, 0⟩
    let w := World.fresh 1 (.rejecting [3]) [] (.fresh Device.defaultLongPress)
    let (result, after) := w.run (c.sendText ['a', 'B'])
    after.sink.log.toList.map (fun entry =>
        (entry.event.key?.map fun e => (e.action, e.keyCode), entry.accepted)) =
        [(some (.down, 29), true), (some (.up, 29), true), (some (.down, Keys.leftShift), true),
          (some (.down, 30), false)] ∧
      result = .ok false ∧ after.now = 0 ∧
      w.run (c.sendText ['a', 'é', 'B']) = (.ok true, w) := by
  intro c w
  obtain ⟨_, _, typed, keyless⟩ := rejection_ends_gestures c w
  have ends : w.EndsAtRejection (c.sendText ['a', 'B']) _ 0 := typed ['a', 'B']
  refine ⟨by decide +kernel, ends.result.trans (by decide +kernel), ends.now, ?_⟩
  exact keyless ['a'] 'é' ['B'] rfl (by decide +kernel)

end Controller

end CorrelatedInput
