import CorrelatedInput.Gesture.Fingers
import CorrelatedInput.Proofs.Run.Driving
import CorrelatedInput.Proofs.Time.Clock
/-!
What several fingers do, event by event. Every finger starts at the first point of its path, visits
each point when its turn comes, and waits at the last one for the others.
-/
namespace CorrelatedInput

/-- The path of a finger, which has to be somewhere. -/
abbrev FingerPath := { points : List Coordinate // points ≠ [] }

namespace FingerPath

def first (p : FingerPath) : Coordinate := p.val.head p.property

def last (p : FingerPath) : Coordinate := p.val.getLast p.property

/-- Where the finger is at a step; it does not go beyond the last point. -/
def point (step : Nat) (p : FingerPath) : Coordinate :=
  p.val.get ⟨min step (p.val.length - 1), by
    have := List.length_pos_of_ne_nil p.property
    omega⟩

theorem positionAt_eq (step : Nat) (p : FingerPath) :
    Motion.positionAt p.val step = some (p.point step) := by
  obtain ⟨points, nonempty⟩ := p
  rcases Nat.lt_or_ge step points.length with within | beyond
  · have inside : min step (points.length - 1) = step := by omega
    simp [Motion.positionAt, point, within, inside]
  · have outside : min step (points.length - 1) = points.length - 1 := by omega
    simp [Motion.positionAt, point, beyond, outside, List.getLast?_eq_getElem?]

theorem filterMap_eq (place? : List Coordinate → Option Coordinate)
    (place : FingerPath → Coordinate) (h : ∀ p : FingerPath, place? p.val = some (place p))
    (paths : List FingerPath) : (paths.map Subtype.val).filterMap place? = paths.map place := by
  induction paths with
  | nil => rfl
  | cons p paths ih => rw [List.map_cons, List.filterMap_cons_some (h p), ih, List.map_cons]

end FingerPath

theorem Motion.longest_eq {paths : List (List Coordinate)} (nonempty : paths ≠ []) :
    (paths.map List.length).max? = some (longest paths) := by
  cases paths with
  | nil => exact absurd rfl nonempty
  | cons path paths =>
    rw [longest, List.map_cons, List.max?_cons', List.foldl_cons, Nat.zero_max]

/-- An event with the first `shown` of several fingers, each at its place. -/
def touching (start time : UInt64) (action : MotionAction) (paths : List FingerPath) (shown : Nat)
    (place : FingerPath → Coordinate) : InputEvent :=
  .motion ⟨start, time, action,
    (paths.take shown).mapIdx fun finger p => ⟨UInt32.ofNat finger, .finger, place p⟩,
    .touchscreen⟩

section Touching

variable (start time : UInt64) (action : MotionAction) (paths : List FingerPath) (shown : Nat)
  (place : FingerPath → Coordinate)

@[simp] theorem touching_downTime :
    (touching start time action paths shown place).downTime = start := rfl

@[simp] theorem touching_eventTime :
    (touching start time action paths shown place).eventTime = time := rfl

/-- Fingers that can be counted in 32 bits are all there. -/
theorem MultiTouchSession.fingers_eq {asked : Nat} (few : asked < UInt32.size) (start : UInt64) :
    (⟨start, asked⟩ : MultiTouchSession).fingers = asked :=
  UInt32.toNat_ofNat_of_lt' few

theorem MultiTouchSession.event_eq (few : paths.length < UInt32.size) :
    (⟨start, paths.length⟩ : MultiTouchSession).event time action (paths.map place) shown =
      touching start time action paths shown place := by
  have pointers : (⟨start, paths.length⟩ : MultiTouchSession).pointers (paths.map place) shown =
      (paths.take shown).mapIdx fun finger p => ⟨UInt32.ofNat finger, .finger, place p⟩ := by
    apply List.ext_getElem
    · simp [MultiTouchSession.pointers, fingers_eq few]
    · intro i _ _
      simp [MultiTouchSession.pointers]
  rw [MultiTouchSession.event, pointers, touching]

end Touching

namespace Controller

open Activity

section Fingers

variable (c : Controller) (b : Bench) (session : MultiTouchSession)

theorem othersDown_drives (places : List Coordinate) (fingers : List Nat) :
    (c.othersDown session places fingers).Drives b (.ok ())
      (fingers.map fun finger => session.down (c.clock.stamp b.now) finger places) b.now := by
  induction fingers generalizing b with
  | nil => exact drives_pure ()
  | cons finger rest ih =>
    apply Drives.stamp_bind
    apply Drives.inject_bind
    exact ih _

theorem othersUp_drives (places : List Coordinate) (fingers : List Nat) :
    (c.othersUp session places fingers).Drives b (.ok ())
      (fingers.map fun finger => session.up (c.clock.stamp b.now) finger places) b.now := by
  induction fingers generalizing b with
  | nil => exact drives_pure ()
  | cons finger rest ih =>
    apply Drives.stamp_bind
    apply Drives.inject_bind
    exact ih _

theorem moveTogether_drives (paths : List (List Coordinate)) (steps : List Nat) :
    (c.moveTogether session paths steps).Drives b (.ok ())
      (c.paced (fun time step => session.move time (placesAt paths step)) b.now steps)
      (b.now + steps.length * pauseLength c.pace) := by
  induction steps generalizing b with
  | nil => simpa [paced, moveTogether] using drives_pure (b := b) ()
  | cons step rest ih =>
    rw [paced_cons, List.length_cons, pauses_succ]
    apply Drives.stamp_bind
    apply Drives.inject_bind
    apply Drives.pause_bind
    exact ih _

theorem paced_steps (make : UInt64 → Nat → InputEvent) (start steps : Nat) :
    c.paced make start (List.range' 1 steps) = (List.range' 1 steps).map fun step =>
      make (c.clock.stamp (start + (step - 1) * pauseLength c.pace)) step := by
  apply List.ext_getElem
  · simp [paced]
  · intro i _ _
    simp [paced]

/-- The events of a gesture from `start` on along paths, the longest of `longest` points. The first
finger goes down and then the others, each event with those that are down; all move; the others
are lifted, each event with all fingers; and the first one is lifted. -/
def together (start longest : Nat) (paths : List FingerPath) : List InputEvent :=
  let event (time : Nat) := touching (c.clock.stamp start) (c.clock.stamp time)
  let others := List.range' 1 (paths.length - 1)
  let delay := pauseLength c.pace
  let finish := start + (longest - 2) * delay
  event start ⟨.down, 0⟩ paths 1 FingerPath.first ::
    others.map (fun finger =>
      event start ⟨.pointerDown, UInt32.ofNat finger⟩ paths (finger + 1) FingerPath.first) ++
    (List.range' 1 (longest - 2)).map (fun step =>
      event (start + (step - 1) * delay) ⟨.move, 0⟩ paths paths.length (FingerPath.point step)) ++
    others.map (fun finger =>
      event finish ⟨.pointerUp, UInt32.ofNat finger⟩ paths paths.length FingerPath.last) ++
    [event finish ⟨.up, 0⟩ paths 1 FingerPath.last]

/-- The same events as the session of the gesture builds them. -/
def inSession (start longest : Nat) (paths : List FingerPath) : List InputEvent :=
  let session : MultiTouchSession := ⟨c.clock.stamp start, paths.length⟩
  let others := List.range' 1 (paths.length - 1)
  let finish := c.clock.stamp (start + (longest - 2) * pauseLength c.pace)
  session.firstDown (c.clock.stamp start) (paths.map FingerPath.first) ::
    (others.map (fun finger =>
      session.down (c.clock.stamp start) finger (paths.map FingerPath.first)) ++
    (c.paced (fun time step => session.move time (placesAt (paths.map Subtype.val) step)) start
      (List.range' 1 (longest - 2)) ++
    (others.map (fun finger => session.up finish finger (paths.map FingerPath.last)) ++
    [session.lastUp finish (paths.map FingerPath.last)])))

theorem inSession_eq (start longest : Nat) {paths : List FingerPath}
    (few : paths.length < UInt32.size) :
    c.inSession start longest paths = c.together start longest paths := by
  have places (step : Nat) : placesAt (paths.map Subtype.val) step =
      paths.map (FingerPath.point step) :=
    FingerPath.filterMap_eq _ _ (fun p => p.positionAt_eq step) paths
  simp only [inSession, together, paced_steps, places, MultiTouchSession.firstDown,
    MultiTouchSession.down, MultiTouchSession.move, MultiTouchSession.up,
    MultiTouchSession.lastUp, MultiTouchSession.fingers_eq few,
    MultiTouchSession.event_eq _ _ _ paths _ _ few, MotionKind.action, List.cons_append,
    List.append_assoc]

theorem gestureAlong_drives (paths : List FingerPath) :
    let longest := Motion.longest (paths.map Subtype.val)
    (c.gestureAlong (paths.map Subtype.val)).Drives b (.ok ()) (c.inSession b.now longest paths)
      (b.now + (longest - 2) * pauseLength c.pace) := by
  intro longest
  let session : MultiTouchSession := ⟨c.clock.stamp b.now, paths.length⟩
  have starts := FingerPath.filterMap_eq List.head? FingerPath.first
    (fun p => List.head?_eq_some_head p.property) paths
  have ends := FingerPath.filterMap_eq List.getLast? FingerPath.last
    (fun p => List.getLast?_eq_some_getLast p.property) paths
  simp only [gestureAlong, List.length_map, starts, ends]
  apply Drives.stamp_bind
  apply Drives.stamp_bind
  refine .inject_bind ?_
  apply Drives.bind (c.othersDown_drives _ session _ _)
  have moved (b : Bench) := c.moveTogether_drives b session (paths.map Subtype.val)
    (List.range' 1 (longest - 2))
  simp only [List.length_range'] at moved
  apply Drives.bind (moved _)
  apply Drives.bind (c.othersUp_drives _ session _ _)
  apply Drives.stamp_bind
  apply Drives.inject_bind
  exact drives_pure ()

/-- As many fingers as there may be: the gesture runs to its end, with the events of its session. -/
theorem gesture_drives_inSession (paths : List FingerPath) (several : 2 ≤ paths.length) :
    let longest := Motion.longest (paths.map Subtype.val)
    (c.gesture (paths.map Subtype.val)).Drives b (.ok (.ok true))
      (c.inSession b.now longest paths) (b.now + (longest - 2) * pauseLength c.pace) := by
  intro longest
  have some : (paths.map Subtype.val).findIdx? List.isEmpty = none := by
    rw [List.findIdx?_eq_none_iff]
    intro points hpoints
    obtain ⟨p, _, rfl⟩ := List.mem_map.mp hpoints
    simpa using p.property
  simp only [gesture, List.length_map, Nat.not_lt.mpr several, if_false, some]
  rw [← List.append_nil (c.inSession b.now longest paths)]
  apply Drives.bind (c.gestureAlong_drives b paths)
  exact drives_pure _

/-- Of as many fingers as there are counts, the first event shows none. -/
theorem inSession_eq_cons (start longest : Nat) {paths : List FingerPath}
    (many : paths.length = UInt32.size) :
    ∃ rest, c.inSession start longest paths =
      .motion ⟨c.clock.stamp start, c.clock.stamp start, MotionKind.down.action, [],
        .touchscreen⟩ :: rest := by
  have none : (⟨c.clock.stamp start, paths.length⟩ : MultiTouchSession).fingers = 0 := by
    rw [many, MultiTouchSession.fingers, UInt32.toNat_ofNat']
    exact Nat.mod_self _
  refine ⟨_, congrArg (· :: _) ?_⟩
  simp [MultiTouchSession.firstDown, MultiTouchSession.event, MultiTouchSession.pointers, none]

theorem gesture_drives (paths : List FingerPath) (several : 2 ≤ paths.length)
    (few : paths.length < UInt32.size) :
    let longest := Motion.longest (paths.map Subtype.val)
    (c.gesture (paths.map Subtype.val)).Drives b (.ok (.ok true))
      (c.together b.now longest paths) (b.now + (longest - 2) * pauseLength c.pace) := by
  intro longest
  rw [← c.inSession_eq b.now longest few]
  exact c.gesture_drives_inSession b paths several

end Fingers

/-- A gesture with 2 ^ 32 fingers begins with an event that shows none of them, and goes on. -/
theorem gesture_uncounted (c : Controller) (w : World) {paths : List (List Coordinate)}
    (many : paths.length = UInt32.size) (nonempty : ∀ points ∈ paths, points ≠ []) :
    (w.run (c.gesture paths)).1 = .ok (.ok true) ∧ ∃ rest,
      (w.run (c.gesture paths)).2.sink = w.sink.offer (.motion ⟨c.clock.stamp w.now,
        c.clock.stamp w.now, MotionKind.down.action, [], .touchscreen⟩ :: rest) := by
  obtain ⟨fingers, rfl⟩ : ∃ fingers : List FingerPath, fingers.map Subtype.val = paths :=
    ⟨paths.attachWith _ nonempty, List.attachWith_map_subtype_val nonempty⟩
  rw [List.length_map] at many
  have several : 2 ≤ fingers.length := by
    rw [many]
    decide
  obtain ⟨value, reached⟩ := c.gesture_drives_inSession w.bench fingers several w rfl
  obtain ⟨rest, first⟩ := c.inSession_eq_cons w.now (Motion.longest (fingers.map Subtype.val)) many
  refine ⟨value, rest, ?_⟩
  rw [← first]
  exact congrArg Bench.sink reached

/-- A gesture along two or more paths, as many as can be counted in 32 bits, hands over its events
whatever is rejected, and succeeds. -/
theorem gesture_trace (c : Controller) (paths : List FingerPath) (several : 2 ≤ paths.length)
    (few : paths.length < UInt32.size) :
    ∃ longest, (paths.map fun p => p.val.length).max? = some longest ∧
      ∀ w : World,
        let delay := pauseLength c.pace
        let (result, after) := w.run (c.gesture (paths.map Subtype.val))
        after.sink = w.sink.offer (c.together w.now longest paths) ∧
          result = .ok (.ok true) ∧
          after.now = w.now + (longest - 2) * delay ∧
          (c.clock.start ≤ w.now → ∀ j,
            c.clock.stamp (w.now + j * delay) =
              c.clock.stamp w.now + UInt64.ofNat (j * delay)) := by
  have nonempty : paths.map Subtype.val ≠ [] := by
    intro none
    rw [List.map_eq_nil_iff] at none
    simp [none] at several
  have longest := Motion.longest_eq nonempty
  rw [List.map_map] at longest
  refine ⟨_, longest, ?_⟩
  intro w delay
  have drives := c.gesture_drives w.bench paths several few w rfl
  generalize w.run (c.gesture (paths.map Subtype.val)) = ran at drives ⊢
  obtain ⟨result, after⟩ := ran
  obtain ⟨value, reached⟩ := drives
  refine ⟨congrArg Bench.sink reached, value, congrArg Bench.now reached, ?_⟩
  intro started j
  exact Clock.stamp_add started (j * delay)

/-- Two fingers, one of which rests while the other moves twice; a verdict changes nothing. -/
theorem gesture_trace_pair :
    let c := Controller.fresh ⟨0, 0⟩
    let w := World.fresh 1 (.rejecting [2]) [] (.fresh Device.defaultLongPress)
    let paths : List FingerPath :=
      [⟨[⟨0, 0⟩], by decide⟩, ⟨[⟨5, 5⟩, ⟨6, 6⟩, ⟨7, 7⟩, ⟨8, 8⟩], by decide⟩]
    let (result, after) := w.run (c.gesture (paths.map Subtype.val))
    after.sink.log.toList.map (fun entry =>
        (entry.event.eventTime, entry.event.motion?.map fun e => e.pointers.map Pointer.position)) =
        [(0, some [⟨0, 0⟩]), (0, some [⟨0, 0⟩, ⟨5, 5⟩]), (0, some [⟨0, 0⟩, ⟨6, 6⟩]),
          (5, some [⟨0, 0⟩, ⟨7, 7⟩]), (10, some [⟨0, 0⟩, ⟨8, 8⟩]), (10, some [⟨0, 0⟩])] ∧
      result = .ok (.ok true) ∧ after.now = 10 := by
  intro c w paths
  obtain ⟨longest, known, trace⟩ := gesture_trace c paths (by decide) (by decide)
  cases known
  have traced := trace w
  generalize w.run (c.gesture (paths.map Subtype.val)) = ran at traced ⊢
  obtain ⟨result, after⟩ := ran
  obtain ⟨sink, value, now, _⟩ := traced
  refine ⟨?_, value, now⟩
  rw [sink]
  decide

/-- A delay of more than thirty years is not kept, and the first of 2 ^ 32 fingers is not shown when
it goes down. -/
theorem gesture_beyond_bounds :
    let w := World.fresh 1 (.rejecting []) [] (.fresh Device.defaultLongPress)
    (let delay : UInt64 := 946080000001
      let c := (Controller.fresh ⟨0, 0⟩).withTiming { injectionDelay := delay }
      let path : List Coordinate := [⟨0, 0⟩, ⟨1, 1⟩, ⟨2, 2⟩, ⟨3, 3⟩]
      let (_, after) := w.run (c.gesture [path, path])
      let moves := after.sink.log.toList.filter fun entry =>
        entry.event.motion?.any fun e => e.action.kind = .move
      moves.map (fun entry => entry.event.eventTime) ≠
        [0 + delay * (1 - 1), 0 + delay * (2 - 1)]) ∧
    (let c := Controller.fresh ⟨0, 0⟩
      let after := (w.run (c.gesture (List.replicate UInt32.size [⟨1, 2⟩]))).2
      let first := after.sink.log.toList.head?.bind fun entry => entry.event.motion?
      first.map (fun e => (e.action.kind, e.pointers)) = some (.down, [])) := by
  intro w
  refine ⟨by decide +kernel, ?_⟩
  intro c
  have unseen {paths : List (List Coordinate)} (many : paths.length = UInt32.size)
      (nonempty : ∀ points ∈ paths, points ≠ []) :
      let after := (w.run (c.gesture paths)).2
      let first := after.sink.log.toList.head?.bind fun entry => entry.event.motion?
      first.map (fun e => (e.action.kind, e.pointers)) = some (.down, []) := by
    obtain ⟨_, rest, handed⟩ := c.gesture_uncounted w many nonempty
    have log : w.sink.log = #[] := rfl
    simp [handed, log, Sink.offer, Sink.judged, InputEvent.motion?, MotionKind.action]
  apply unseen List.length_replicate
  intro points member
  rw [List.eq_of_mem_replicate member]
  decide

end Controller

end CorrelatedInput
