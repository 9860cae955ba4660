import CorrelatedInput.Gesture.Correlated
import CorrelatedInput.Gesture.Power
import CorrelatedInput.Proofs.Gesture.Passage
import CorrelatedInput.Proofs.Gesture.Typing
import CorrelatedInput.Proofs.Run.Correlation
/-!
A controller that performs operations one after the other, with any time in between. Each of them
finds nothing down and no key held, and leaves it so; hence all that a controller ever hands over is
one legal stream.

Pointers have 32-bit ids and the clock has 64 bits: the fingers of a gesture can be counted in 32
bits, and times are in order until the clock has run for 2 ^ 64 milliseconds.
-/
namespace CorrelatedInput

namespace Activity

/-- Where no event is rejected, the activity hands over a passage if it completes. -/
def Tidy {α : Type} (a : Activity α) (clock : Clock) : Prop :=
  ∀ w : World, w.sink.rejects = [] → ∀ x v, w.run a = (.ok x, v) →
    ∃ events, v.sink = w.sink.offer events ∧ Passage clock w.now v.now events

section Tidy

variable {α β : Type} {clock : Clock}

theorem tidy_pure (x : α) : (pure x : Activity α).Tidy clock := by
  intro w tolerant y v ran
  cases ran
  exact ⟨[], (Sink.offer_nil _).symm, .nil (Nat.le_refl _)⟩

theorem tidy_screenOn : (request .screenOn).Tidy clock := by
  intro w tolerant y v ran
  cases ran
  exact ⟨[], (Sink.offer_nil _).symm, .nil (Nat.le_refl _)⟩

theorem Tidy.bind {a : Activity α} {f : α → Activity β} (ha : a.Tidy clock)
    (hf : ∀ x, (f x).Tidy clock) : (a >>= f).Tidy clock := by
  intro w tolerant y v ran
  rw [World.run_bind] at ran
  cases first : w.run a with
  | mk result u =>
    rw [first] at ran
    cases result with
    | error cause => cases ran
    | ok x =>
      obtain ⟨events, handed, passage⟩ := ha w tolerant x u first
      have still : u.sink.rejects = [] := by rw [handed, Sink.offer_rejects, tolerant]
      obtain ⟨more, rest, onward⟩ := hf x u still y v ran
      refine ⟨events ++ more, ?_, passage.append onward⟩
      rw [rest, handed, Sink.offer_append]

/-- What is known of an activity beforehand settles whether it is tidy. -/
theorem tidy_of_drives {a : Activity α}
    (h : ∀ b : Bench, b.sink.rejects = [] → ∃ result events time,
      a.Drives b result events time ∧ ∀ x, result = .ok x → Passage clock b.now time events) :
    a.Tidy clock := by
  intro w tolerant x v ran
  obtain ⟨result, events, time, drives, passage⟩ := h w.bench tolerant
  obtain ⟨value, reached⟩ := drives w rfl
  rw [ran] at value reached
  have now : v.now = time := congrArg Bench.now reached
  refine ⟨events, congrArg Bench.sink reached, ?_⟩
  rw [now]
  exact passage x value.symm

/-- To wait beside an activity adds nothing but time. -/
theorem Tidy.correlate {a : Activity α} (ha : a.Tidy clock) (source : Source)
    (condition : Condition) (timeout : Nat) :
    (Activity.correlate source a condition timeout).Tidy clock := by
  intro w tolerant x v ran
  have start := World.listen_alike w source condition timeout
  rw [World.run_correlate] at ran
  cases first : (w.listen source condition timeout).2.run a with
  | mk result u =>
    rw [first] at ran
    cases result with
    | error cause => cases ran
    | ok y =>
      cases ran
      obtain ⟨events, handed, passage⟩ := ha _ (start.sink ▸ tolerant) y u first
      have waited := World.await_alike u w.opened
      refine ⟨events, ?_, ?_⟩
      · rw [← start.sink, ← handed]
        exact waited.sink
      · have onward := passage.append (.nil (World.await_forward u w.opened))
        rwa [List.append_nil, start.now] at onward

theorem Tidy.runAndWait {a : Activity α} (ha : a.Tidy clock) (source : Source) (timeout : Nat)
    (mode : WaitMode) (kinds : KindSet) :
    (Activity.runAndWait source a timeout mode kinds).Tidy clock := by
  unfold Activity.runAndWait
  cases Condition.make mode kinds with
  | error e => exact tidy_pure _
  | ok condition =>
    apply (ha.correlate source condition timeout).bind
    rintro ⟨result, outcome⟩
    exact tidy_pure _

end Tidy

end Activity

namespace Controller

open Activity

section Operations

variable (c : Controller)

theorem tap_tidy (place : Coordinate) (dwell : Nat) : (c.tap place dwell).Tidy c.clock := by
  apply tidy_of_drives
  intro b tolerant
  refine ⟨_, _, _, c.tap_drives b place dwell (b.sink.accepts_of_tolerant _ tolerant), ?_⟩
  intro _ _
  exact c.touch_passage place place (.nil (Nat.le_add_right _ _)) (List.forall_mem_nil _)

theorem longTap_tidy (place : Coordinate) : (c.longTap place).Tidy c.clock := by
  intro w tolerant x v ran
  exact c.tap_tidy place w.device.longPress w tolerant x v ran

theorem drag_tidy (first last : Coordinate) (moves : Except Overflow (List Coordinate)) :
    (c.drag first last moves).Tidy c.clock := by
  apply tidy_of_drives
  intro b _
  cases moves with
  | ok places =>
    refine ⟨_, _, _, c.drag_drives b first last places, ?_⟩
    intro _ _
    exact c.dragged_passage b.now first last places
  | error cause =>
    -- the finger is down and stays so, but the drag is not completed
    refine ⟨_, _, _, c.drag_stops b first last cause, ?_⟩
    intro _ completed
    cases completed

theorem swipePath_tidy (points : List Coordinate) (steps : UInt32) :
    (c.swipePath points steps).Tidy c.clock := by
  unfold swipePath
  split
  · exact (c.drag_tidy _ _ _).bind fun _ => tidy_pure _
  · exact tidy_pure _

theorem gesture_tidy {paths : List (List Coordinate)} (few : paths.length < UInt32.size) :
    (c.gesture paths).Tidy c.clock := by
  unfold gesture
  split
  · exact tidy_pure _
  · rename_i several
    split
    · exact tidy_pure _
    · rename_i found
      have nonempty : ∀ points ∈ paths, points ≠ [] := by
        intro points hpoints
        simpa using List.findIdx?_eq_none_iff.mp found points hpoints
      obtain ⟨fingers, rfl⟩ : ∃ fingers : List FingerPath, fingers.map Subtype.val = paths :=
        ⟨paths.attachWith _ nonempty, List.attachWith_map_subtype_val nonempty⟩
      rw [List.length_map] at several few
      refine Tidy.bind (tidy_of_drives ?_) fun _ => tidy_pure _
      intro b _
      refine ⟨_, _, _, c.gestureAlong_drives b fingers, ?_⟩
      intro _ _
      rw [c.inSession_eq _ _ few]
      exact c.together_passage b.now _ (by omega) (Nat.le_of_lt few)

theorem sendKey_tidy (code metaState : Int32) : (c.sendKey code metaState).Tidy c.clock := by
  apply tidy_of_drives
  intro b tolerant
  refine ⟨_, _, _, (c.sendKey_plays code metaState).of_tolerant tolerant, ?_⟩
  intro _ _
  exact c.key_passage b.now code metaState

theorem sendText_tidy (builtIn : c.keyMap = none) (text : List Char) :
    (c.sendText text).Tidy c.clock := by
  apply tidy_of_drives
  intro b tolerant
  have mapped : c.mapped? (c.clock.stamp b.now) text = Keys.type? (c.clock.stamp b.now) text := by
    rw [mapped?, builtIn]
  cases typing : Keys.type? (c.clock.stamp b.now) text with
  | none =>
    refine ⟨_, _, _, (c.sendText_plays_nothing (mapped.trans typing)).of_tolerant tolerant, ?_⟩
    intro _ _
    exact .nil (Nat.le_refl _)
  | some events =>
    refine ⟨_, _, _, (c.sendText_plays (mapped.trans typing)).of_tolerant tolerant, ?_⟩
    intro _ _
    exact c.typed_passage b.now typing

theorem pressPowerIf_tidy (on : Bool) : (c.pressPowerIf on).Tidy c.clock := by
  apply tidy_screenOn.bind
  intro answer
  cases answer with
  | error e => exact tidy_pure _
  | ok screen =>
    simp only
    split
    · exact (c.sendKey_tidy _ _).bind fun _ => tidy_pure _
    · exact tidy_pure _

end Operations

/-- The activity is one of the operations of a controller. -/
inductive IsOperation (c : Controller) : {α : Type} → Activity α → Prop
  | click (place : Coordinate) : IsOperation c (c.click place)
  | longTap (place : Coordinate) : IsOperation c (c.longTap place)
  | swipe (start finish : Coordinate) (steps : UInt32) : IsOperation c (c.swipe start finish steps)
  | swipePath (points : List Coordinate) (steps : UInt32) :
    IsOperation c (c.swipePath points steps)
  | gesture (paths : List (List Coordinate)) (few : paths.length < UInt32.size) :
    IsOperation c (c.gesture paths)
  | sendKey (code metaState : Int32) : IsOperation c (c.sendKey code metaState)
  | sendText (text : List Char) : IsOperation c (c.sendText text)
  | wake : IsOperation c c.wake
  | sleep : IsOperation c c.sleep
  | clickAndWait (place : Coordinate) (timeout : Nat) (mode : WaitMode) (kinds : KindSet) :
    IsOperation c (c.clickAndWait place timeout mode kinds)
  | clickAndWaitForKind (place : Coordinate) (timeout : Nat) (kind : Kind) :
    IsOperation c (c.clickAndWaitForKind place timeout kind)
  | clickAndWaitForWindow (place : Coordinate) (timeout : Nat) :
    IsOperation c (c.clickAndWaitForWindow place timeout)
  | sendKeyAndWait (code metaState : Int32) (kind : Kind) (timeout : Nat) :
    IsOperation c (c.sendKeyAndWait code metaState kind timeout)
  | scrollSwipe (start finish : Coordinate) (steps : UInt32) :
    IsOperation c (c.scrollSwipe start finish steps)
  | runAndWait {α : Type} {a : Activity α} (source : Source) (operation : IsOperation c a)
    (timeout : Nat) (mode : WaitMode) (kinds : KindSet) :
    IsOperation c (Activity.runAndWait source a timeout mode kinds)

theorem IsOperation.tidy {c : Controller} (builtIn : c.keyMap = none) {α : Type} {a : Activity α}
    (operation : c.IsOperation a) : a.Tidy c.clock := by
  induction operation with
  | click place => exact c.tap_tidy place _
  | longTap place => exact c.longTap_tidy place
  | swipe start finish steps => exact c.drag_tidy start finish _
  | swipePath points steps => exact c.swipePath_tidy points steps
  | gesture paths few => exact c.gesture_tidy few
  | sendKey code metaState => exact c.sendKey_tidy code metaState
  | sendText text => exact c.sendText_tidy builtIn text
  | wake => exact c.pressPowerIf_tidy false
  | sleep => exact c.pressPowerIf_tidy true
  | clickAndWait place timeout mode kinds =>
    exact ((c.tap_tidy place _).runAndWait .hub timeout mode kinds).bind fun _ => tidy_pure _
  | clickAndWaitForKind place timeout kind =>
    exact ((c.tap_tidy place _).runAndWait .hub timeout _ _).bind fun _ => tidy_pure _
  | clickAndWaitForWindow place timeout =>
    exact ((c.tap_tidy place _).runAndWait .hub timeout _ _).bind fun _ => tidy_pure _
  | sendKeyAndWait code metaState kind timeout =>
    exact ((c.sendKey_tidy code metaState).runAndWait .hub timeout _ _).bind fun _ => tidy_pure _
  | scrollSwipe start finish steps =>
    apply ((c.drag_tidy start finish _).runAndWait .hub _ .any _).bind
    intro outcome
    rcases outcome with e | ⟨accepted, _ | n⟩ <;> exact tidy_pure _
  | runAndWait source _ timeout mode kinds ih => exact ih.runAndWait source timeout mode kinds

/-- What a controller may have done between two moments: operations that were completed, while others
published what they liked, and in between any time and any change that has nothing to do with the
sink. -/
inductive Session (c : Controller) (w : World) : World → Prop
  | start : Session c w w
  | operate {u : World} {α : Type} {a : Activity α} {x : α} (before : Session c w u)
    (operation : c.IsOperation a) (arrivals : List (Nat × Notification))
    (completed : (u.perform arrivals a).1 = .ok x) : Session c w (u.perform arrivals a).2
  | elapse {u v : World} (before : Session c w u) (forward : u.now ≤ v.now)
    (sink : v.sink = u.sink) : Session c w v

theorem Session.passage {c : Controller} (builtIn : c.keyMap = none) {w v : World}
    (tolerant : w.sink.rejects = []) (session : c.Session w v) :
    ∃ events, v.sink = w.sink.offer events ∧ Passage c.clock w.now v.now events := by
  -- between operations nothing is down: a passage leads from the start to every moment
  induction session with
  | start => exact ⟨[], (Sink.offer_nil _).symm, .nil (Nat.le_refl _)⟩
  | @operate u α a x _ operation arrivals completed ih =>
    obtain ⟨events, handed, passage⟩ := ih
    have still : u.sink.rejects = [] := by rw [handed, Sink.offer_rejects, tolerant]
    cases ran : World.run { u with schedule := Schedule.ofDelays u.now arrivals } a with
    | mk result ended =>
      rw [World.perform_result, ran] at completed
      cases completed
      obtain ⟨more, rest, onward⟩ := operation.tidy builtIn
        { u with schedule := Schedule.ofDelays u.now arrivals } still x ended ran
      rw [World.perform_world, ran]
      refine ⟨events ++ more, ?_, passage.append onward⟩
      rw [Sink.offer_append, ← handed]
      exact rest
  | @elapse u v _ forward sink ih =>
    obtain ⟨events, handed, passage⟩ := ih
    refine ⟨events, sink.trans handed, ?_⟩
    rw [← List.append_nil events]
    exact passage.append (.nil forward)

/-- Whatever a controller with the built-in keyboard has done, where nothing is rejected, the log is
a legal stream, and no pointer and no key is down at its end. While the clock has room, no event is
before its down time, and none before an event that was handed over earlier. -/
theorem session_is_legal {c : Controller} (builtIn : c.keyMap = none) {w v : World}
    (fresh : w.sink = .rejecting []) (session : c.Session w v) :
    let log := v.sink.log.toList.map Injected.event
    (∀ since, ∃ later, (Panel.idle since).replay? log = some (Panel.idle later)) ∧
      (v.now - c.clock.start < UInt64.size →
        (∀ e ∈ log, e.downTime ≤ e.eventTime) ∧
          log.Pairwise fun e f => e.eventTime ≤ f.eventTime) := by
  intro log
  obtain ⟨events, handed, passage⟩ := session.passage builtIn (by rw [fresh]; rfl)
  have same : log = events := by
    simp [log, handed, fresh, Sink.offer, Sink.rejecting]
  rw [same]
  refine ⟨passage.legal, ?_⟩
  intro room
  obtain ⟨sound, sorted⟩ := passage.timely.ordered room
  exact ⟨fun e he => (sound e he).2, sorted⟩

/-- Two fingers, a moment later a capital letter, and a click that waits in vain. -/
theorem session_is_legal_mixed :
    let c := Controller.fresh ⟨0, 0⟩
    let w := World.fresh 1 (.rejecting []) [] (.fresh Device.defaultLongPress)
    let pinched := (w.perform [] (c.gesture [[⟨0, 0⟩], [⟨5, 5⟩, ⟨6, 6⟩, ⟨7, 7⟩]])).2
    let typed := ({ pinched with now := 70 }.perform [] (c.sendText ['A'])).2
    let clicked := (typed.perform [] (c.clickAndWaitForKind ⟨1, 1⟩ 250 .viewClicked)).2
    let log := clicked.sink.log.toList.map Injected.event
    log.length = 11 ∧ clicked.now = 320 ∧
      ((∀ since, ∃ later, (Panel.idle since).replay? log = some (Panel.idle later)) ∧
        (clicked.now - c.clock.start < UInt64.size →
          (∀ e ∈ log, e.downTime ≤ e.eventTime) ∧
            log.Pairwise fun e f => e.eventTime ≤ f.eventTime)) := by
  intro c w pinched typed clicked log
  have pinch : (w.perform [] (c.gesture [[⟨0, 0⟩], [⟨5, 5⟩, ⟨6, 6⟩, ⟨7, 7⟩]])).1 =
      .ok (.ok true) := by decide +kernel
  have text : ({ pinched with now := 70 }.perform [] (c.sendText ['A'])).1 = .ok true := by
    decide +kernel
  have click : (typed.perform [] (c.clickAndWaitForKind ⟨1, 1⟩ 250 .viewClicked)).1 =
      .ok (.ok false) := by decide +kernel
  have early : pinched.now ≤ 70 := by decide +kernel
  have first : c.Session w pinched := .operate .start (.gesture _ (by decide)) [] pinch
  have second : c.Session w { pinched with now := 70 } := .elapse first early rfl
  have third : c.Session w typed := .operate second (.sendText _) [] text
  have session : c.Session w clicked :=
    .operate third (.clickAndWaitForKind _ _ _) [] click
  refine ⟨by decide +kernel, by decide +kernel, ?_⟩
  exact session_is_legal rfl rfl session

/-- Beyond the counters a log need not be legal: the clock starts over after 2 ^ 64 milliseconds, in
the middle of a click, and a gesture with 2 ^ 32 fingers puts down none. -/
theorem log_beyond_counters :
    let w := World.fresh 1 (.rejecting []) [] (.fresh Device.defaultLongPress)
    let c := Controller.fresh ⟨0, 0⟩
    let log (v : World) := v.sink.log.toList.map Injected.event
    (let clicked := World.perform [] (c.click ⟨1, 1⟩) { w with now := UInt64.size - 50 }
     clicked.1 = .ok true ∧ c.Session w clicked.2 ∧
       ¬ ∀ e ∈ log clicked.2, e.downTime ≤ e.eventTime) ∧
    (let crowded := w.perform [] (c.gesture (List.replicate UInt32.size [⟨1, 2⟩]))
     crowded.1 = .ok (.ok true) ∧
       ∀ since, (Panel.idle since).replay? (log crowded.2) = none) := by
  intro w c log
  constructor
  · intro clicked
    have completed : clicked.1 = .ok true := by decide +kernel
    have later : c.Session w { w with now := UInt64.size - 50 } :=
      .elapse .start (Nat.zero_le _) rfl
    exact ⟨completed, .operate later (.click _) [] completed, by decide +kernel⟩
  · have uncounted {paths : List (List Coordinate)} (many : paths.length = UInt32.size)
        (nonempty : ∀ points ∈ paths, points ≠ []) :
        let crowded := w.perform [] (c.gesture paths)
        crowded.1 = .ok (.ok true) ∧
          ∀ since, (Panel.idle since).replay? (log crowded.2) = none := by
      obtain ⟨completed, rest, handed⟩ := c.gesture_uncounted
        { w with schedule := Schedule.ofDelays w.now [] } many nonempty
      refine ⟨completed, ?_⟩
      intro since
      have start : log (w.perform [] (c.gesture paths)).2 = .motion ⟨c.clock.stamp w.now,
          c.clock.stamp w.now, MotionKind.down.action, [], .touchscreen⟩ :: rest := by
        have sink : (w.perform [] (c.gesture paths)).2.sink = w.sink.offer _ := handed
        simp [log, sink, Sink.offer, show w.sink = .rejecting [] from rfl, Sink.rejecting]
      rw [start, Panel.replay?_cons]
      rfl
    apply uncounted List.length_replicate
    intro points member
    rw [List.eq_of_mem_replicate member]
    decide

end Controller

end CorrelatedInput
