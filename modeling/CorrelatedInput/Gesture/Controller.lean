import CorrelatedInput.Run.Activity
import CorrelatedInput.Settings.Basic
import CorrelatedInput.Time.Clock
/-!
Who performs gestures: the pace, the clock that stamps events, and the keyboard that types. A
controller holds nothing of a gesture in progress, so that one controller may perform several.

Some of it a controller holds twice: the pause after each move beside the timing that says how long
it is, and the clock of the built-in keyboard beside its own.
-/
namespace CorrelatedInput

/-- The key events that type a text, if there are any. -/
abbrev KeyMap := List Char → Option (List KeyEvent)

inductive Keyboard where
  /-- The keyboard there is from the start, which stamps what it types by its own clock. -/
  | builtIn (clock : Clock)
  | custom (keyMap : KeyMap)

namespace Keyboard

/-- The key map to use in place of the built-in keyboard. -/
def keyMap? : Keyboard → Option KeyMap
  | builtIn _ => none
  | custom keyMap => some keyMap

/-- The keyboard was put in place of the built-in one, or is the built-in one and reads the clock. -/
def Suits (clock : Clock) : (replaced : Bool) → Keyboard → Prop
  | false, builtIn own => own = clock
  | true, custom _ => True
  | _, _ => False

section Suits

variable {clock : Clock} {replaced : Bool} {keyboard : Keyboard}

theorem Suits.eq (suits : keyboard.Suits clock replaced) :
    keyboard = keyboard.keyMap?.elim (.builtIn clock) .custom := by
  cases keyboard with
  | custom => rfl
  | builtIn own =>
    cases replaced with
    | false => exact congrArg builtIn suits
    | true => exact suits.elim

theorem Suits.replaced_eq (suits : keyboard.Suits clock replaced) :
    replaced = keyboard.keyMap?.isSome := by
  cases keyboard <;> cases replaced <;> first | rfl | exact suits.elim

theorem Suits.retuned (suits : keyboard.Suits clock replaced) (next : Clock) :
    (if replaced then keyboard else builtIn next).Suits next replaced := by
  cases replaced with
  | false => rfl
  | true =>
    cases keyboard with
    | builtIn => exact suits
    | custom => trivial

theorem Suits.keyMap?_retuned (suits : keyboard.Suits clock replaced) (next : Clock) :
    (if replaced then keyboard else builtIn next).keyMap? = keyboard.keyMap? := by
  cases replaced with
  | true => rfl
  | false =>
    cases keyboard with
    | builtIn => rfl
    | custom => exact suits.elim

end Suits

end Keyboard

structure Controller where
  timing : Timing
  /-- The pause after each move, in milliseconds. -/
  pace : Nat
  clock : Clock
  keyboard : Keyboard
  /-- Whether the keyboard was put in place of the built-in one. -/
  replaced : Bool
  paced_by_timing : pace = timing.injectionDelay.toNat
  keyboard_suits : keyboard.Suits clock replaced

namespace Controller

def fresh (clock : Clock) : Controller where
  timing := {}
  pace := (Timing.injectionDelay {}).toNat
  clock := clock
  keyboard := .builtIn clock
  replaced := false
  paced_by_timing := rfl
  keyboard_suits := rfl

def withTiming (timing : Timing) (c : Controller) : Controller :=
  { c with timing, pace := timing.injectionDelay.toNat, paced_by_timing := rfl }

/-- The built-in keyboard follows the clock; one that was put in its place stays as it is. -/
def withClock (clock : Clock) (c : Controller) : Controller :=
  { c with
    clock
    keyboard := if c.replaced then c.keyboard else .builtIn clock
    keyboard_suits := c.keyboard_suits.retuned clock }

def withKeyMap (keyMap : KeyMap) (c : Controller) : Controller :=
  { c with keyboard := .custom keyMap, replaced := true, keyboard_suits := trivial }

/-- The key map in use, if it is not the built-in keyboard that types. -/
def keyMap (c : Controller) : Option KeyMap := c.keyboard.keyMap?

theorem keyboard_eq (c : Controller) : c.keyboard = c.keyMap.elim (.builtIn c.clock) .custom :=
  c.keyboard_suits.eq

@[simp] theorem keyMap_withClock (clock : Clock) (c : Controller) :
    (c.withClock clock).keyMap = c.keyMap := c.keyboard_suits.keyMap?_retuned clock

/-- What a controller holds twice is told by the rest of it. -/
theorem eq_of_settings {c d : Controller} (timing : c.timing = d.timing) (clock : c.clock = d.clock)
    (keyMap : c.keyMap = d.keyMap) : c = d := by
  have pace : c.pace = d.pace := by rw [c.paced_by_timing, d.paced_by_timing, timing]
  have keyboard : c.keyboard = d.keyboard := by rw [c.keyboard_eq, d.keyboard_eq, clock, keyMap]
  have replaced : c.replaced = d.replaced := by
    rw [c.keyboard_suits.replaced_eq, d.keyboard_suits.replaced_eq, keyboard]
  cases c
  cases d
  simp_all

def stamp (c : Controller) : Activity UInt64 := do
  return c.clock.stamp (← Activity.now)

end Controller

end CorrelatedInput
