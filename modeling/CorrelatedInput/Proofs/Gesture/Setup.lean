import CorrelatedInput.Proofs.Gesture.Touch
import CorrelatedInput.Proofs.Gesture.Typing
import CorrelatedInput.Proofs.Keys.Keyboard
import Mathlib.Data.List.Induction
/-!
Controllers that are set up step by step. Of each kind of setting the last one counts, in whatever
order they come; so the pace is always that of the timing, and a text typed by the built-in keyboard
is stamped by one clock alone.
-/
namespace CorrelatedInput.Controller

open Activity

inductive Setting where
  | timing (timing : Timing)
  /-- A clock, started at any time. -/
  | clock (clock : Clock)
  | keyMap (keyMap : KeyMap)

namespace Setting

def timing? : Setting → Option Timing
  | timing t => some t
  | _ => none

def clock? : Setting → Option Clock
  | clock k => some k
  | _ => none

def keyMap? : Setting → Option KeyMap
  | keyMap m => some m
  | _ => none

/-- The last setting of a kind. -/
def last? {α : Type} (kind : Setting → Option α) (settings : List Setting) : Option α :=
  (settings.filterMap kind).getLast?

theorem last?_concat {α : Type} (kind : Setting → Option α) (settings : List Setting)
    (s : Setting) : last? kind (settings ++ [s]) = (kind s).or (last? kind settings) := by
  cases told : kind s <;> simp [last?, told, List.getLast?_append]

end Setting

def set (c : Controller) : Setting → Controller
  | .timing timing => c.withTiming timing
  | .clock clock => c.withClock clock
  | .keyMap keyMap => c.withKeyMap keyMap

/-- A controller that starts with a clock of its own and is set up step by step. -/
def assembled (start : Clock) (settings : List Setting) : Controller :=
  settings.foldl set (fresh start)

section Assembled

variable (c : Controller) (start : Clock) (settings : List Setting) (s : Setting)

theorem assembled_concat :
    assembled start (settings ++ [s]) = (assembled start settings).set s := by
  simp [assembled]

/-! One step -/

theorem set_timing : some (c.set s).timing = s.timing?.or (some c.timing) := by cases s <;> rfl

theorem set_clock : some (c.set s).clock = s.clock?.or (some c.clock) := by cases s <;> rfl

theorem set_keyMap : (c.set s).keyMap = s.keyMap?.or c.keyMap := by
  cases s with
  | timing => rfl
  | clock clock => exact keyMap_withClock clock c
  | keyMap => rfl

/-! All steps -/

theorem assembled_view {α : Type} {kind : Setting → Option α} (view : Controller → Option α)
    (step : ∀ c s, view (set c s) = (kind s).or (view c)) :
    view (assembled start settings) =
      (Setting.last? kind settings).or (view (fresh start)) := by
  induction settings using List.reverseRecOn with
  | nil => rfl
  | append_singleton settings s ih =>
    rw [assembled_concat, step, ih, Setting.last?_concat, Option.or_assoc]

theorem assembled_timing :
    (assembled start settings).timing = (Setting.last? Setting.timing? settings).getD {} := by
  have view := assembled_view start settings (fun c => some c.timing) set_timing
  rwa [Option.or_some, Option.some_inj] at view

theorem assembled_clock :
    (assembled start settings).clock = (Setting.last? Setting.clock? settings).getD start := by
  have view := assembled_view start settings (fun c => some c.clock) set_clock
  rwa [Option.or_some, Option.some_inj] at view

theorem assembled_keyMap :
    (assembled start settings).keyMap = Setting.last? Setting.keyMap? settings :=
  (assembled_view start settings keyMap set_keyMap).trans Option.or_none

end Assembled

/-! What a controller does by its settings -/

/-- What the controller does is told by a timing, a clock, and a key map in place of the built-in
keyboard: how long it dwells and pauses, how it stamps events, and what it types. -/
structure GoesBy (c : Controller) (timing : Timing) (clock : Clock) (keyMap : Option KeyMap) :
    Prop where
  click : ∀ (b : Bench) (place : Coordinate),
    let session : TouchSession := ⟨clock.stamp b.now⟩
    let lifted := b.now + pauseLength timing.clickDuration.toNat
    (c.click place).Plays b
      [session.down place, session.event (clock.stamp lifted) .up place]
      (if b.sink.accepts [session.down place] then lifted else b.now)
  swipe : ∀ (b : Bench) (first last : Coordinate) (steps : UInt32) (places : List Coordinate),
    Motion.swipeMoves first last steps = .ok places →
      let session : TouchSession := ⟨clock.stamp b.now⟩
      let time (j : Nat) := b.now + j * pauseLength timing.injectionDelay.toNat
      let events := session.down first ::
        places.mapIdx (fun j place => session.event (clock.stamp (time j)) .move place) ++
        [session.event (clock.stamp (time places.length)) .up last]
      (c.swipe first last steps).Drives b (.ok (b.sink.accepts events)) events
        (time places.length)
  text : ∀ (b : Bench) (text : List Char),
    match keyMap.elim (Keys.type? (clock.stamp b.now) text) (fun typed? => typed? text) with
    | some events =>
      (c.sendText text).Plays b
        (events.map fun e => .key (e.restamped (clock.stamp b.now))) b.now
    | none => (c.sendText text).Plays b [] b.now

section Acts

variable (c : Controller)

theorem mapped?_eq (time : UInt64) (text : List Char) :
    c.mapped? time text =
      c.keyMap.elim (Keys.type? time text) fun typed? => typed? text := by
  unfold mapped?
  cases c.keyMap <;> rfl

theorem goesBy : c.GoesBy c.timing c.clock c.keyMap where
  click b place := c.tap_plays b place _
  swipe b first last steps places moves := by
    have drives := c.drag_drives b first last places
    rw [← moves] at drives
    simp only [dragged, Controller.moves, paced, c.paced_by_timing] at drives
    exact drives
  text b text := by
    rw [← c.mapped?_eq]
    split
    · exact c.sendText_plays ‹_›
    · exact c.sendText_plays_nothing ‹_›

/-- What the built-in keyboard types is stamped by the clock that stamps its events. -/
theorem sendText_in_order (builtIn : c.keyMap = none) (text : List Char) (w : World) :
    ∃ offered, (w.run (c.sendText text)).2.sink = w.sink.offer offered ∧
      ∀ e ∈ offered, e.downTime ≤ e.eventTime := by
  have plays := c.goesBy.text w.bench text
  rw [builtIn, Option.elim_none] at plays
  cases typing : Keys.type? (c.clock.stamp w.now) text with
  | none =>
    simp only [World.bench, typing] at plays
    exact ⟨[], congrArg Bench.sink (plays w rfl).2, by simp⟩
  | some events =>
    simp only [World.bench, typing] at plays
    refine ⟨_, congrArg Bench.sink (plays w rfl).2, ?_⟩
    intro e offered
    obtain ⟨k, typed, rfl⟩ := List.mem_map.mp ((Sink.untilRejected_prefix _ _).subset offered)
    exact UInt64.le_of_eq (Keys.downTime_of_type? typing k typed)

end Acts

/-- The setup of a controller does not depend on the order of its steps. Whatever they are and
whenever its clocks were started, the controller goes by the last timing, the last clock and the last
key map, and by the defaults, its first clock and the built-in keyboard where there is none; its pace
and the clock of its keyboard are those, too. So another setup with the same last settings gives the
same controller; and with the built-in keyboard no event of a text says that its key went down after
the event itself. -/
theorem setup_in_any_order (start : Clock) (settings : List Setting) :
    let c := assembled start settings
    let timing := (Setting.last? Setting.timing? settings).getD {}
    let clock := (Setting.last? Setting.clock? settings).getD start
    let keyMap := Setting.last? Setting.keyMap? settings
    (c.timing = timing ∧ c.pace = timing.injectionDelay.toNat ∧ c.clock = clock ∧
      c.keyboard = keyMap.elim (.builtIn clock) .custom) ∧
    c.GoesBy timing clock keyMap ∧
    (∀ others, Setting.last? Setting.timing? others = Setting.last? Setting.timing? settings →
      Setting.last? Setting.clock? others = Setting.last? Setting.clock? settings →
      Setting.last? Setting.keyMap? others = keyMap → assembled start others = c) ∧
    (keyMap = none → ∀ (text : List Char) (w : World),
      ∃ offered, (w.run (c.sendText text)).2.sink = w.sink.offer offered ∧
        ∀ e ∈ offered, e.downTime ≤ e.eventTime) := by
  intro c timing clock keyMap
  have timed : c.timing = timing := assembled_timing start settings
  have clocked : c.clock = clock := assembled_clock start settings
  have mapped : c.keyMap = keyMap := assembled_keyMap start settings
  refine ⟨⟨timed, ?_, clocked, ?_⟩, ?_, ?_, ?_⟩
  · rw [c.paced_by_timing, timed]
  · rw [c.keyboard_eq, clocked, mapped]
  · have acts := c.goesBy
    rwa [timed, clocked, mapped] at acts
  · intro others timing' clock' keyMap'
    apply eq_of_settings
    · rw [assembled_timing, timing', timed]
    · rw [assembled_clock, clock', clocked]
    · rw [assembled_keyMap, keyMap', mapped]
  · intro builtIn text w
    exact c.sendText_in_order (mapped.trans builtIn) text w

/-- The clock is replaced twice, the second time after the pace was set. -/
theorem setup_in_any_order_late_clock :
    let quick : Timing := { injectionDelay := 7 }
    let late : Clock := ⟨50, 0⟩
    let settings : List Setting := [.clock ⟨20, 0⟩, .timing quick, .clock late]
    let others : List Setting := [.timing {}, .clock late, .timing quick]
    let c := assembled ⟨0, 0⟩ settings
    let w := { World.fresh 1 (.rejecting []) [] (.fresh Device.defaultLongPress) with now := 60 }
    c.keyboard = .builtIn late ∧ assembled ⟨0, 0⟩ others = c ∧
      (w.run (c.swipe ⟨0, 0⟩ ⟨9, 0⟩ 3)).2.now = 60 + 2 * 7 ∧
      ∃ offered, (w.run (c.sendText ['a', 'B'])).2.sink = w.sink.offer offered ∧
        ∀ e ∈ offered, e.downTime ≤ e.eventTime := by
  intro quick late settings others c w
  obtain ⟨⟨_, _, _, keyboard⟩, acts, same, inOrder⟩ := setup_in_any_order ⟨0, 0⟩ settings
  have moves : Motion.swipeMoves ⟨0, 0⟩ ⟨9, 0⟩ 3 = .ok [⟨3, 0⟩, ⟨6, 0⟩] := by decide +kernel
  have swiped := acts.swipe w.bench ⟨0, 0⟩ ⟨9, 0⟩ 3 _ moves w rfl
  exact ⟨keyboard, same others rfl rfl rfl, congrArg Bench.now swiped.2, inOrder rfl ['a', 'B'] w⟩

end CorrelatedInput.Controller
