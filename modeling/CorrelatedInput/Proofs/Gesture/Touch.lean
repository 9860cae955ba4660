import CorrelatedInput.Gesture.Touch
import CorrelatedInput.Proofs.Motion.Interpolation
import CorrelatedInput.Proofs.Run.Driving
import CorrelatedInput.Proofs.Time.Clock
/-!
What one finger does, event by event. A swipe hands over the same events whatever becomes of them,
and only its result tells whether all were accepted.
-/
namespace CorrelatedInput.Controller

open Activity

section Touch

variable (c : Controller) (b : Bench)

theorem touch_drives (place : Coordinate) :
    let session : TouchSession := ⟨c.clock.stamp b.now⟩
    (c.touch place).Drives b (.ok (session, b.sink.accepts [session.down place]))
      [session.down place] b.now := by
  intro session
  apply Drives.stamp_bind
  apply Drives.inject_bind
  exact drives_pure _

theorem follow_drives (session : TouchSession) (kind : MotionKind) (place : Coordinate) :
    let event := session.event (c.clock.stamp b.now) kind place
    (c.follow session kind place).Drives b (.ok (b.sink.accepts [event])) [event] b.now := by
  intro event
  apply Drives.stamp_bind
  exact drives_inject event

/-- A finger that goes down at some time and is lifted when it has dwelt. -/
def tapped (start : Nat) (place : Coordinate) (dwell : Nat) : List InputEvent :=
  let session : TouchSession := ⟨c.clock.stamp start⟩
  [session.down place, session.event (c.clock.stamp (start + pauseLength dwell)) .up place]

theorem tap_plays (place : Coordinate) (dwell : Nat) :
    let down := TouchSession.down ⟨c.clock.stamp b.now⟩ place
    (c.tap place dwell).Plays b (c.tapped b.now place dwell)
      (if b.sink.accepts [down] then b.now + pauseLength dwell else b.now) := by
  intro down
  have steps : c.tap place dwell = c.stamp >>= fun time =>
      inject (TouchSession.down ⟨time⟩ place) >>= fun accepted =>
        if accepted then pause dwell >>= fun _ => c.follow ⟨time⟩ .up place
        else pure false := rfl
  rw [steps]
  apply Plays.stamp_bind
  apply Plays.inject_bind
  apply Plays.pause_bind
  apply Plays.stamp_bind
  exact plays_inject _

theorem tap_drives (place : Coordinate) (dwell : Nat) :
    let session : TouchSession := ⟨c.clock.stamp b.now⟩
    let lift := session.event (c.clock.stamp (b.now + pauseLength dwell)) .up place
    b.sink.accepts [session.down place] = true →
      (c.tap place dwell).Drives b (.ok (b.sink.accepts [session.down place, lift]))
        [session.down place, lift] (b.now + pauseLength dwell) := by
  intro session lift accepted
  have plays := c.tap_plays b place dwell
  have whole : b.sink.untilRejected (c.tapped b.now place dwell) = [session.down place, lift] := by
    simp [tapped, Sink.untilRejected, session, lift, accepted]
  rwa [Plays, whole, if_pos accepted] at plays

def moves (session : TouchSession) (start : Nat) (places : List Coordinate) : List InputEvent :=
  c.paced (fun time place => session.event time .move place) start places

theorem moveThrough_drives (session : TouchSession) (accepted : Bool) (places : List Coordinate) :
    (c.moveThrough session accepted places).Drives b
      (.ok (accepted && b.sink.accepts (c.moves session b.now places)))
      (c.moves session b.now places) (b.now + places.length * pauseLength c.pace) := by
  induction places generalizing accepted b with
  | nil =>
    have ends := drives_pure (b := b) accepted
    simpa [moves, paced, moveThrough] using ends
  | cons place rest ih =>
    -- the rest starts a pause later, with the verdicts so far
    let event := session.event (c.clock.stamp b.now) .move place
    let next := (b.after [event] b.now).after [] (b.now + pauseLength c.pace)
    have others := ih next (accepted && b.sink.accepts [event])
    have parts : c.moves session b.now (place :: rest) = event :: c.moves session next.now rest :=
      c.paced_cons _ _ _ _
    have verdict : b.sink.accepts (c.moves session b.now (place :: rest)) =
        (b.sink.accepts [event] && next.sink.accepts (c.moves session next.now rest)) := by
      rw [parts, ← List.singleton_append, Sink.accepts_append]
      simp [next, event]
    rw [verdict, parts, List.length_cons, pauses_succ, ← Bool.and_assoc]
    apply Drives.bind (c.follow_drives b session .move place)
    exact .pause_bind others

/-- A drag from `first` to `last` whose moves are at `places`. -/
def dragged (start : Nat) (first last : Coordinate) (places : List Coordinate) :
    List InputEvent :=
  let session : TouchSession := ⟨c.clock.stamp start⟩
  session.down first :: c.moves session start places ++
    [session.event (c.clock.stamp (start + places.length * pauseLength c.pace)) .up last]

theorem drag_drives (first last : Coordinate) (places : List Coordinate) :
    (c.drag first last (.ok places)).Drives b
      (.ok (b.sink.accepts (c.dragged b.now first last places)))
      (c.dragged b.now first last places) (b.now + places.length * pauseLength c.pace) := by
  let session : TouchSession := ⟨c.clock.stamp b.now⟩
  let held := b.after [session.down first] b.now
  let there := held.after (c.moves session b.now places)
    (b.now + places.length * pauseLength c.pace)
  let lift := session.event (c.clock.stamp there.now) .up last
  -- the result is put together as the drag goes, `accepts` judges all events at once
  have verdict : b.sink.accepts (c.dragged b.now first last places) =
      ((b.sink.accepts [session.down first] &&
        held.sink.accepts (c.moves session b.now places)) && there.sink.accepts [lift]) := by
    have parts : c.dragged b.now first last places =
        [session.down first] ++ c.moves session b.now places ++ [lift] := rfl
    rw [parts, Sink.accepts_append, Sink.accepts_append]
    simp only [there, held, Bench.after_sink, Sink.offer_append]
  rw [verdict]
  apply Drives.bind (c.touch_drives b first)
  apply Drives.ofExcept_bind
  apply Drives.bind (c.moveThrough_drives held session _ places)
  exact (c.follow_drives there session .up last).map _

theorem drag_stops (first last : Coordinate) (cause : Overflow) :
    (c.drag first last (.error cause)).Drives b (.error cause)
      [TouchSession.down ⟨c.clock.stamp b.now⟩ first] b.now := by
  -- the moves are worked out when the finger is down already
  rw [← List.append_nil [_]]
  apply Drives.bind (c.touch_drives b first)
  exact drives_stop cause _

theorem swipePath_drives (first : Coordinate) (rest : List Coordinate) (steps : UInt32)
    {legs : List (List Coordinate)}
    (moves : Motion.segmentMoves (first :: rest) steps = .ok legs) :
    let events := c.dragged b.now first (rest.getLastD first) legs.flatten
    (c.swipePath (first :: rest) steps).Drives b (.ok (.ok (b.sink.accepts events))) events
      (b.now + legs.flatten.length * pauseLength c.pace) := by
  simp only [swipePath, List.head?_cons, List.getLast?_cons, moves, List.getLastD_eq_getLast?]
  exact (c.drag_drives b first _ legs.flatten).map Except.ok

theorem swipePath_pair (a z : Coordinate) (steps : UInt32) :
    c.swipePath [a, z] steps = .ok <$> c.swipe a z steps := by
  have moves : List.flatten <$> Motion.segmentMoves [a, z] steps =
      Motion.swipeMoves a z steps := by
    cases leg : Motion.swipeMoves a z steps <;>
      simp [Motion.segmentMoves, leg, Functor.map, Except.map, bind, Except.bind, pure,
        Except.pure]
  simp only [swipePath, swipe, List.head?_cons, List.getLast?_cons, moves]
  rfl

theorem pauseLength_pace : pauseLength c.pace = min c.timing.injectionDelay.toNat 946080000000 :=
  congrArg pauseLength c.paced_by_timing

end Touch

/-- A swipe through waypoints, none of whose legs overflows, goes down at the first waypoint, makes
the moves of leg after leg and goes up at the last waypoint, whatever is rejected. Between a
move and what comes next there is one pause, which lasts as long as the controller's pace says, but
no longer than pauses can be. A swipe from one place to another is one of two waypoints, and a swipe
that passes a waypoint moves as one to that waypoint and one from there. -/
theorem swipe_trace (c : Controller) (steps : UInt32) :
    (∀ (first : Coordinate) (rest : List Coordinate),
      (first :: rest).IsChain Motion.LegFits → ∃ legs : List (List Coordinate),
        Motion.segmentMoves (first :: rest) steps = .ok legs ∧
        List.Forall₂ (fun leg moves => Motion.swipeMoves leg.1 leg.2 steps = .ok moves ∧
          moves.length = max steps.toNat 1 - 1) (Motion.legs (first :: rest)) legs ∧
        ∀ w : World,
          let delay := min c.timing.injectionDelay.toNat 946080000000
          let start := c.clock.stamp w.now
          let time (j : Nat) := c.clock.stamp (w.now + j * delay)
          let event (time : UInt64) (kind : MotionKind) (place : Coordinate) :=
            InputEvent.motion
              ⟨start, time, ⟨kind, 0⟩, [⟨0, .finger, place⟩], .touchscreen⟩
          let places := legs.flatten
          let events := event start .down first ::
            places.mapIdx (fun j place => event (time j) .move place) ++
            [event (time places.length) .up (rest.getLastD first)]
          let (result, after) := w.run (c.swipePath (first :: rest) steps)
          after.sink = w.sink.offer events ∧
            result = .ok (.ok (w.sink.accepts events)) ∧
            after.now = w.now + places.length * delay ∧
            (c.clock.start ≤ w.now → ∀ j, time j = start + UInt64.ofNat (j * delay))) ∧
    (∀ (a z : Coordinate) (w : World),
      w.run (c.swipePath [a, z] steps) =
        ((w.run (c.swipe a z steps)).1.map .ok, (w.run (c.swipe a z steps)).2)) ∧
    ∀ (front : List Coordinate) (p : Coordinate) (back : List Coordinate),
      Motion.segmentMoves (front ++ p :: back) steps = (do
        let before ← Motion.segmentMoves (front ++ [p]) steps
        let after ← Motion.segmentMoves (p :: back) steps
        return before ++ after) := by
  refine ⟨?_, ?_, ?_⟩
  · intro first rest fits
    obtain ⟨legs, moves, each⟩ := Motion.segmentMoves_ok fits steps
    refine ⟨legs, moves, each, ?_⟩
    intro w delay start time event places events
    have drives := c.swipePath_drives w.bench first rest steps moves w rfl
    simp only [dragged, Controller.moves, paced, pauseLength_pace] at drives
    generalize w.run (c.swipePath (first :: rest) steps) = ran at drives ⊢
    obtain ⟨result, after⟩ := ran
    obtain ⟨value, reached⟩ := drives
    refine ⟨congrArg Bench.sink reached, value, congrArg Bench.now reached, ?_⟩
    intro started j
    exact Clock.stamp_add started (j * delay)
  · intro a z w
    rw [swipePath_pair, World.run_map]
  · intro front p back
    exact Motion.segmentMoves_split front p back steps

/-- Around a corner, with the first of two moves rejected. -/
theorem swipe_trace_corner :
    let c := Controller.fresh ⟨0, 0⟩
    let w := World.fresh 1 (.rejecting [1]) [] (.fresh Device.defaultLongPress)
    let (result, after) := w.run (c.swipePath [⟨0, 0⟩, ⟨4, 0⟩, ⟨4, 2⟩] 2)
    after.sink.log.toList.map (fun entry => (entry.event.eventTime, entry.accepted)) =
        [(0, true), (0, false), (5, true), (10, true)] ∧
      result = .ok (.ok false) ∧ after.now = 10 := by
  intro c w
  obtain ⟨legs, moves, _, trace⟩ :=
    (swipe_trace c 2).1 ⟨0, 0⟩ [⟨4, 0⟩, ⟨4, 2⟩] (by decide)
  have known : Motion.segmentMoves [⟨0, 0⟩, ⟨4, 0⟩, ⟨4, 2⟩] 2 =
      .ok [[⟨2, 0⟩], [⟨4, 1⟩]] := by decide +kernel
  rw [known] at moves
  cases moves
  have traced := trace w
  generalize w.run (c.swipePath [⟨0, 0⟩, ⟨4, 0⟩, ⟨4, 2⟩] 2) = ran at traced ⊢
  obtain ⟨result, after⟩ := ran
  obtain ⟨sink, value, now, _⟩ := traced
  refine ⟨?_, value, now⟩
  rw [sink]
  decide

/-- A delay of more than thirty years is not kept. -/
theorem swipe_beyond_longest_pause :
    let delay : UInt64 := 946080000001
    let c := (Controller.fresh ⟨0, 0⟩).withTiming { injectionDelay := delay }
    let w := World.fresh 1 (.rejecting []) [] (.fresh Device.defaultLongPress)
    let (_, after) := w.run (c.swipePath [⟨0, 0⟩, ⟨9, 9⟩] 3)
    after.sink.log.toList.map (fun entry => entry.event.eventTime) ≠
      [0, 0 + 0 * delay, 0 + 1 * delay, 0 + 2 * delay] := by
  decide +kernel

end CorrelatedInput.Controller
