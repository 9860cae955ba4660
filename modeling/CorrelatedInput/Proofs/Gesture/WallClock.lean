import CorrelatedInput.Gesture.Fingers
import CorrelatedInput.Gesture.Touch
import CorrelatedInput.Gesture.Typing
/-!
Gestures and the wall clock. Events are stamped with the time since the clock was started, so what
the wall clock showed then makes no difference to any gesture.
-/
namespace CorrelatedInput.Controller

/-- The same controller, started when the wall clock shows another time. -/
def withWall (wall : Nat) (c : Controller) : Controller := c.withClock { c.clock with wall }

section Wall

variable (wall : Nat) (c : Controller)

@[simp] theorem withWall_stamp : (c.withWall wall).stamp = c.stamp := rfl

@[simp] theorem withWall_pace : (c.withWall wall).pace = c.pace := rfl

@[simp] theorem withWall_keyMap : (c.withWall wall).keyMap = c.keyMap := by
  rw [withWall, keyMap_withClock]

@[simp] theorem withWall_follow : (c.withWall wall).follow = c.follow := rfl

@[simp] theorem withWall_moveThrough (session : TouchSession) (accepted : Bool)
    (places : List Coordinate) :
    (c.withWall wall).moveThrough session accepted places =
      c.moveThrough session accepted places := by
  induction places generalizing accepted with
  | nil => rfl
  | cons place rest ih => simp [moveThrough, ih]

@[simp] theorem withWall_drag : (c.withWall wall).drag = c.drag := by
  funext first last moves
  simp only [drag, withWall_moveThrough]
  rfl

@[simp] theorem withWall_othersDown (session : MultiTouchSession) (places : List Coordinate)
    (fingers : List Nat) :
    (c.withWall wall).othersDown session places fingers = c.othersDown session places fingers := by
  induction fingers with
  | nil => rfl
  | cons finger rest ih => simp [othersDown, ih]

@[simp] theorem withWall_moveTogether (session : MultiTouchSession)
    (paths : List (List Coordinate)) (steps : List Nat) :
    (c.withWall wall).moveTogether session paths steps = c.moveTogether session paths steps := by
  induction steps with
  | nil => rfl
  | cons step rest ih => simp [moveTogether, ih]

@[simp] theorem withWall_othersUp (session : MultiTouchSession) (places : List Coordinate)
    (fingers : List Nat) :
    (c.withWall wall).othersUp session places fingers = c.othersUp session places fingers := by
  induction fingers with
  | nil => rfl
  | cons finger rest ih => simp [othersUp, ih]

@[simp] theorem withWall_gesture : (c.withWall wall).gesture = c.gesture := by
  funext paths
  simp [gesture, gestureAlong]

@[simp] theorem withWall_sendEvents (events : List KeyEvent) :
    (c.withWall wall).sendEvents events = c.sendEvents events := by
  induction events with
  | nil => rfl
  | cons event rest ih => simp [sendEvents, ih]

@[simp] theorem withWall_typed? : (c.withWall wall).typed? = c.typed? := by
  funext text
  unfold typed?
  rw [(c.withWall wall).keyboard_eq, c.keyboard_eq, withWall_keyMap]
  cases c.keyMap <;> rfl

@[simp] theorem withWall_sendText : (c.withWall wall).sendText = c.sendText := by
  funext text
  simp only [sendText, withWall_typed?, withWall_sendEvents]

end Wall

end CorrelatedInput.Controller
