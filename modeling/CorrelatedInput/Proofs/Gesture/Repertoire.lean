import CorrelatedInput.Gesture.Fingers
import CorrelatedInput.Gesture.Power
import CorrelatedInput.Gesture.Touch
import CorrelatedInput.Proofs.Run.Activity
/-!
The gestures a controller has, and that none of them looks at the hub: a gesture asks for the time
and about the device, injects and pauses, and nothing else.
-/
namespace CorrelatedInput.Controller

open Activity

/-- The activity is one of the plain gestures. -/
inductive IsGesture (c : Controller) : {α : Type} → Activity α → Prop
  | click (place : Coordinate) : IsGesture c (c.click place)
  | longTap (place : Coordinate) : IsGesture c (c.longTap place)
  | swipe (start finish : Coordinate) (steps : UInt32) : IsGesture c (c.swipe start finish steps)
  | swipePath (points : List Coordinate) (steps : UInt32) : IsGesture c (c.swipePath points steps)
  | gesture (paths : List (List Coordinate)) : IsGesture c (c.gesture paths)
  | sendKey (code metaState : Int32) : IsGesture c (c.sendKey code metaState)
  | sendText (text : List Char) : IsGesture c (c.sendText text)
  | wake : IsGesture c c.wake
  | sleep : IsGesture c c.sleep

section Silent

variable (c : Controller)

theorem inject_silent (event : InputEvent) : (inject event).IsSilent := asks_request ⟨id, id⟩

theorem stamp_silent : c.stamp.IsSilent := asks_map _ (asks_request ⟨id, id⟩)

/-! One finger -/

theorem follow_silent (session : TouchSession) (kind : MotionKind) (place : Coordinate) :
    (c.follow session kind place).IsSilent := by
  apply asks_bind c.stamp_silent
  intro _
  exact inject_silent _

theorem touch_silent (place : Coordinate) : (c.touch place).IsSilent := by
  apply asks_bind c.stamp_silent
  intro _
  exact asks_map _ (inject_silent _)

theorem tap_silent (place : Coordinate) (dwell : Nat) : (c.tap place dwell).IsSilent := by
  apply asks_bind (c.touch_silent place)
  rintro ⟨session, accepted⟩
  cases accepted with
  | true =>
    apply asks_bind (asks_pause dwell)
    intro _
    exact c.follow_silent session .up place
  | false => exact asks_pure false

theorem moveThrough_silent (session : TouchSession) (accepted : Bool) (places : List Coordinate) :
    (c.moveThrough session accepted places).IsSilent := by
  induction places generalizing accepted with
  | nil => exact asks_pure accepted
  | cons place rest ih =>
    apply asks_bind (c.follow_silent session .move place)
    intro here
    apply asks_bind (asks_pause c.pace)
    intro _
    exact ih (accepted && here)

theorem drag_silent (first last : Coordinate) (moves : Except Overflow (List Coordinate)) :
    (c.drag first last moves).IsSilent := by
  apply asks_bind (c.touch_silent first)
  rintro ⟨session, down⟩
  apply asks_bind (asks_ofExcept moves)
  intro places
  apply asks_bind (c.moveThrough_silent session down places)
  intro _
  exact asks_map _ (c.follow_silent session .up last)

theorem swipePath_silent (points : List Coordinate) (steps : UInt32) :
    (c.swipePath points steps).IsSilent := by
  unfold swipePath
  split
  · exact asks_map _ (c.drag_silent _ _ _)
  · exact asks_pure _

/-! Several fingers -/

theorem othersDown_silent (session : MultiTouchSession) (places : List Coordinate)
    (fingers : List Nat) : (c.othersDown session places fingers).IsSilent := by
  induction fingers with
  | nil => exact asks_pure ()
  | cons finger rest ih =>
    apply asks_bind c.stamp_silent
    intro _
    apply asks_bind (inject_silent _)
    intro _
    exact ih

theorem moveTogether_silent (session : MultiTouchSession) (paths : List (List Coordinate))
    (steps : List Nat) : (c.moveTogether session paths steps).IsSilent := by
  induction steps with
  | nil => exact asks_pure ()
  | cons step rest ih =>
    apply asks_bind c.stamp_silent
    intro _
    apply asks_bind (inject_silent _)
    intro _
    apply asks_bind (asks_pause c.pace)
    intro _
    exact ih

theorem othersUp_silent (session : MultiTouchSession) (places : List Coordinate)
    (fingers : List Nat) : (c.othersUp session places fingers).IsSilent := by
  induction fingers with
  | nil => exact asks_pure ()
  | cons finger rest ih =>
    apply asks_bind c.stamp_silent
    intro _
    apply asks_bind (inject_silent _)
    intro _
    exact ih

theorem gestureAlong_silent (paths : List (List Coordinate)) :
    (c.gestureAlong paths).IsSilent := by
  apply asks_bind c.stamp_silent
  intro _
  apply asks_bind c.stamp_silent
  intro _
  apply asks_bind (inject_silent _)
  intro _
  apply asks_bind (c.othersDown_silent _ _ _)
  intro _
  apply asks_bind (c.moveTogether_silent _ _ _)
  intro _
  apply asks_bind (c.othersUp_silent _ _ _)
  intro _
  apply asks_bind c.stamp_silent
  intro _
  apply asks_bind (inject_silent _)
  intro _
  exact asks_pure ()

theorem gesture_silent (paths : List (List Coordinate)) : (c.gesture paths).IsSilent := by
  unfold gesture
  split
  · exact asks_pure _
  · split
    · exact asks_pure _
    · apply asks_bind (c.gestureAlong_silent paths)
      intro _
      exact asks_pure _

/-! Keys -/

theorem sendKey_silent (code metaState : Int32) : (c.sendKey code metaState).IsSilent := by
  apply asks_bind c.stamp_silent
  intro time
  apply asks_bind (inject_silent _)
  intro accepted
  cases accepted with
  | true => exact inject_silent _
  | false => exact asks_pure false

theorem sendEvents_silent (events : List KeyEvent) : (c.sendEvents events).IsSilent := by
  induction events with
  | nil => exact asks_pure true
  | cons event rest ih =>
    apply asks_bind c.stamp_silent
    intro time
    apply asks_bind (inject_silent _)
    intro accepted
    cases accepted with
    | true => exact ih
    | false => exact asks_pure false

theorem sendText_silent (text : List Char) : (c.sendText text).IsSilent := by
  have typed : (c.typed? text).IsSilent := by
    unfold typed?
    split
    · exact asks_pure _
    · exact asks_map _ c.stamp_silent
  apply asks_bind typed
  intro events
  cases events with
  | some events => exact c.sendEvents_silent events
  | none => exact asks_pure true

theorem pressPowerIf_silent (on : Bool) : (c.pressPowerIf on).IsSilent := by
  apply asks_bind (asks_request ⟨id, id⟩)
  intro answer
  cases answer with
  | error e => exact asks_pure _
  | ok screen =>
    simp only
    split
    · exact asks_map _ (c.sendKey_silent _ _)
    · exact asks_pure _

end Silent

theorem IsGesture.silent {c : Controller} {α : Type} {a : Activity α} (h : c.IsGesture a) :
    a.IsSilent := by
  cases h with
  | click place => exact c.tap_silent place _
  | longTap place =>
    apply asks_bind (asks_request ⟨id, id⟩)
    intro dwell
    exact c.tap_silent place dwell
  | swipe => exact c.drag_silent _ _ _
  | swipePath points steps => exact c.swipePath_silent points steps
  | gesture paths => exact c.gesture_silent paths
  | sendKey code metaState => exact c.sendKey_silent code metaState
  | sendText text => exact c.sendText_silent text
  | wake => exact c.pressPowerIf_silent false
  | sleep => exact c.pressPowerIf_silent true

end CorrelatedInput.Controller
