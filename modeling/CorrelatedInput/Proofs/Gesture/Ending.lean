import CorrelatedInput.Proofs.Gesture.Passage
/-!
How the gestures of one finger end. The moves of a swipe are worked out when its finger is down:
where a leg is longer than a word can say, the finger stays down, for nothing is handed over any
more that would lift it. Only a swipe without waypoints fails before it touches anything.
-/
namespace CorrelatedInput.Controller

open Activity

/-- A gesture was handed over from its first event to its last. The finger goes down at the first
place and up at the last, and after it nothing is down. -/
structure Completed (c : Controller) (first last : Coordinate) (w after : World)
    (events : List InputEvent) : Prop where
  handed : after.sink = w.sink.offer events
  down : events.head? = some (TouchSession.down ⟨c.clock.stamp w.now⟩ first)
  up : events.getLast? = some
    (TouchSession.event ⟨c.clock.stamp w.now⟩ (c.clock.stamp after.now) .up last)
  legal (since : UInt64) : ∃ later, (Panel.idle since).replay? events = some (Panel.idle later)

/-- A finger went down at a place, and nothing came after that. -/
structure Stranded (c : Controller) (place : Coordinate) (w after : World) : Prop where
  handed : after.sink = w.sink.offer [TouchSession.down ⟨c.clock.stamp w.now⟩ place]
  atOnce : after.now = w.now
  down (since : UInt64) :
    (Panel.idle since).replay? [TouchSession.down ⟨c.clock.stamp w.now⟩ place] =
      some ⟨[0], c.clock.stamp w.now, []⟩

section Gestures

variable (c : Controller) (w : World) (first last : Coordinate)

theorem tap_completes (place : Coordinate) (dwell : Nat)
    (accepted : w.sink.accepts [TouchSession.down ⟨c.clock.stamp w.now⟩ place] = true) :
    ∃ after events, w.run (c.tap place dwell) = (.ok (w.sink.accepts events), after) ∧
      c.Completed place place w after events := by
  obtain ⟨value, reached⟩ := c.tap_drives w.bench place dwell accepted w rfl
  have passage := c.touch_passage place place (.nil (Nat.le_add_right w.now (pauseLength dwell)))
    (List.forall_mem_nil _)
  have now : (w.run (c.tap place dwell)).2.now = w.now + pauseLength dwell :=
    congrArg Bench.now reached
  refine ⟨_, _, Prod.ext value rfl, congrArg Bench.sink reached, rfl, ?_, passage.legal⟩
  rw [now]
  rfl

theorem drag_completes (places : List Coordinate) :
    ∃ after events, w.run (c.drag first last (.ok places)) =
        (.ok (w.sink.accepts events), after) ∧ c.Completed first last w after events := by
  obtain ⟨value, reached⟩ := c.drag_drives w.bench first last places w rfl
  have passage := c.dragged_passage w.now first last places
  have now : (w.run (c.drag first last (.ok places))).2.now =
      w.now + places.length * pauseLength c.pace := congrArg Bench.now reached
  refine ⟨_, c.dragged w.now first last places, Prod.ext value rfl, congrArg Bench.sink reached,
    rfl, ?_, passage.legal⟩
  rw [now]
  exact List.getLast?_concat

theorem drag_strands (cause : Overflow) :
    ∃ after, w.run (c.drag first last (.error cause)) = (.error cause, after) ∧
      c.Stranded first w after := by
  obtain ⟨value, reached⟩ := c.drag_stops w.bench first last cause w rfl
  refine ⟨_, Prod.ext value rfl, congrArg Bench.sink reached, congrArg Bench.now reached, ?_⟩
  intro since
  exact congrArg (Option.bind · some) (Panel.touch?_down (c.clock.stamp w.now) [] since)

theorem swipePath_cons (rest : List Coordinate) (steps : UInt32) :
    c.swipePath (first :: rest) steps = .ok <$> c.drag first (rest.getLastD first)
      (List.flatten <$> Motion.segmentMoves (first :: rest) steps) := by
  simp only [swipePath, List.head?_cons, List.getLast?_cons, List.getLastD_eq_getLast?]

theorem swipe_completes {start finish : Coordinate} (fits : Motion.LegFits start finish)
    (steps : UInt32) :
    ∃ after events, w.run (c.swipe start finish steps) = (.ok (w.sink.accepts events), after) ∧
      c.Completed start finish w after events := by
  obtain ⟨moves, found, _⟩ := Motion.swipeMoves_ok fits steps
  rw [swipe, found]
  exact c.drag_completes w start finish moves

theorem swipe_strands {start finish : Coordinate} (outside : ¬ Motion.LegFits start finish)
    (steps : UInt32) :
    ∃ after, w.run (c.swipe start finish steps) = (.error .subtraction, after) ∧
      c.Stranded start w after := by
  rw [swipe, ((Motion.interpolate_safe start finish steps).1 outside).2]
  exact c.drag_strands w start finish .subtraction

theorem swipePath_completes {rest : List Coordinate}
    (fits : (first :: rest).IsChain Motion.LegFits) (steps : UInt32) :
    ∃ after events,
      w.run (c.swipePath (first :: rest) steps) = (.ok (.ok (w.sink.accepts events)), after) ∧
        c.Completed first (rest.getLastD first) w after events := by
  obtain ⟨legs, moves, _⟩ := Motion.segmentMoves_ok fits steps
  obtain ⟨after, events, ran, completed⟩ :=
    c.drag_completes w first (rest.getLastD first) legs.flatten
  have joined : List.flatten <$> Except.ok (ε := Overflow) legs = .ok legs.flatten := rfl
  refine ⟨after, events, ?_, completed⟩
  rw [swipePath_cons, World.run_map, moves, joined, ran]
  rfl

theorem swipePath_strands {rest : List Coordinate}
    (outside : ¬ (first :: rest).IsChain Motion.LegFits) (steps : UInt32) :
    ∃ after, w.run (c.swipePath (first :: rest) steps) = (.error .subtraction, after) ∧
      c.Stranded first w after := by
  obtain ⟨after, ran, stranded⟩ := c.drag_strands w first (rest.getLastD first) .subtraction
  have failing : List.flatten <$> Motion.segmentMoves (first :: rest) steps =
      .error .subtraction := congrArg _ (Motion.segmentMoves_error outside steps)
  refine ⟨after, ?_, stranded⟩
  rw [swipePath_cons, World.run_map, failing, ran]
  rfl

end Gestures

/-- How a swipe ends, wherever it leads. Without waypoints it fails and nothing has happened. If
every leg is one that a word can measure, all of it is handed over, whatever is rejected. Otherwise
it stops, and the finger that it put down is still down. -/
theorem swipe_ends (c : Controller) (steps : UInt32) (w : World) :
    w.run (c.swipePath [] steps) = (.ok (.error (.invalidArgument .noWaypoints)), w) ∧
    (∀ first rest, ∃ result after,
      w.run (c.swipePath (first :: rest) steps) = (result, after) ∧
        if (first :: rest).IsChain Motion.LegFits then
          ∃ events, result = .ok (.ok (w.sink.accepts events)) ∧
            c.Completed first (rest.getLastD first) w after events
        else result = .error .subtraction ∧ c.Stranded first w after) ∧
    ∀ start finish, ∃ result after,
      w.run (c.swipe start finish steps) = (result, after) ∧
        if Motion.LegFits start finish then
          ∃ events, result = .ok (w.sink.accepts events) ∧
            c.Completed start finish w after events
        else result = .error .subtraction ∧ c.Stranded start w after := by
  refine ⟨rfl, ?_, ?_⟩
  · intro first rest
    by_cases fits : (first :: rest).IsChain Motion.LegFits
    · obtain ⟨after, events, ran, completed⟩ := c.swipePath_completes w first fits steps
      refine ⟨_, after, ran, ?_⟩
      rw [if_pos fits]
      exact ⟨events, rfl, completed⟩
    · obtain ⟨after, ran, stranded⟩ := c.swipePath_strands w first fits steps
      refine ⟨_, after, ran, ?_⟩
      rw [if_neg fits]
      exact ⟨rfl, stranded⟩
  · intro start finish
    by_cases fits : Motion.LegFits start finish
    · obtain ⟨after, events, ran, completed⟩ := c.swipe_completes w fits steps
      refine ⟨_, after, ran, ?_⟩
      rw [if_pos fits]
      exact ⟨events, rfl, completed⟩
    · obtain ⟨after, ran, stranded⟩ := c.swipe_strands w fits steps
      refine ⟨_, after, ran, ?_⟩
      rw [if_neg fits]
      exact ⟨rfl, stranded⟩

/-- From the left end of the plane to one pixel too far: the finger is down, and that is all. -/
theorem swipe_ends_with_finger_down :
    let c := Controller.fresh ⟨0, 0⟩
    let w := World.fresh 1 (.rejecting []) [] (.fresh Device.defaultLongPress)
    let (result, after) := w.run (c.swipe ⟨-2147483648, 0⟩ ⟨0, 0⟩ 2)
    let log := after.sink.log.toList.map Injected.event
    ¬ ((∃ accepted, result = .ok accepted) ∨ log = []) ∧
      log = [TouchSession.down ⟨0⟩ ⟨-2147483648, 0⟩] ∧
      (Panel.idle 0).replay? log = some ⟨[0], 0, []⟩ := by
  intro c w
  have ran : (w.run (c.swipe ⟨-2147483648, 0⟩ ⟨0, 0⟩ 2)).1 = .error .subtraction ∧
      (w.run (c.swipe ⟨-2147483648, 0⟩ ⟨0, 0⟩ 2)).2.sink.log =
        #[⟨TouchSession.down ⟨0⟩ ⟨-2147483648, 0⟩, true⟩] := by decide +kernel
  obtain ⟨fails, handed⟩ := ran
  generalize w.run (c.swipe ⟨-2147483648, 0⟩ ⟨0, 0⟩ 2) = ran at fails handed ⊢
  obtain ⟨result, after⟩ := ran
  dsimp only at fails handed ⊢
  rw [fails, handed]
  refine ⟨?_, rfl, by decide⟩
  rintro (⟨accepted, ended⟩ | nothing)
  · cases ended
  · cases nothing

end CorrelatedInput.Controller
