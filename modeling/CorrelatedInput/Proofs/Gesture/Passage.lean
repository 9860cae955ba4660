import CorrelatedInput.Proofs.Gesture.Fingers
import CorrelatedInput.Proofs.Gesture.Touch
import CorrelatedInput.Proofs.Input.Stream
import CorrelatedInput.Proofs.Keys.Keyboard
/-!
The events of one gesture as part of a stream: where nothing is down and no key is held, they are
legal, and at their end nothing is down and no key is held again.
-/
namespace CorrelatedInput

/-- Events from `start` to `finish` that a panel at rest takes and that leave it at rest. -/
structure Passage (clock : Clock) (start finish : Nat) (events : List InputEvent) : Prop where
  timely : Timely clock start finish events
  legal (since : UInt64) : ∃ later, (Panel.idle since).replay? events = some (Panel.idle later)

namespace Passage

variable {clock : Clock} {start middle finish : Nat} {events more : List InputEvent}

theorem nil (forward : start ≤ finish) : Passage clock start finish [] where
  timely := .nil forward
  legal since := ⟨since, rfl⟩

theorem append (first : Passage clock start middle events)
    (second : Passage clock middle finish more) : Passage clock start finish (events ++ more) where
  timely := first.timely.append second.timely
  legal since := by
    obtain ⟨between, here⟩ := first.legal since
    obtain ⟨later, there⟩ := second.legal between
    exact ⟨later, by rw [Panel.replay?_append, here, Option.bind_some, there]⟩

end Passage

namespace Controller

open Activity

section Passages

variable (c : Controller) {start finish : Nat}

theorem paced_timely {α : Type} {make : UInt64 → α → InputEvent} {began : Nat}
    (since : began ≤ start) (items : List α)
    (h : ∀ time item, (make time item).eventTime = time ∧
      (make time item).downTime = c.clock.stamp began) :
    Timely c.clock start (start + items.length * pauseLength c.pace)
      (c.paced make start items) := by
  induction items generalizing start with
  | nil => exact .nil (Nat.le_add_right _ _)
  | cons item rest ih =>
    have later := Nat.le_add_right start (pauseLength c.pace)
    rw [paced_cons, List.length_cons, pauses_succ]
    refine .cons (Nat.le_refl start) since (h _ item).1 (h _ item).2 ?_
    exact (ih (Nat.le_trans since later)).earlier later

/-! One finger -/

theorem take?_event (p : Panel) (session : TouchSession) (time : UInt64) (kind : MotionKind)
    (place : Coordinate) :
    p.take? (session.event time kind place) =
      p.touch? (pointerIds 1) ⟨kind, 0⟩ session.downTime time := rfl

/-- A finger goes down, moves in some way, and is lifted. -/
theorem touch_passage (first last : Coordinate) {moves : List InputEvent}
    (timely : Timely c.clock start finish moves)
    (stays : ∀ e ∈ moves, (Panel.mk (pointerIds 1) (c.clock.stamp start) []).take? e =
      some ⟨pointerIds 1, c.clock.stamp start, []⟩) :
    let session : TouchSession := ⟨c.clock.stamp start⟩
    Passage c.clock start finish
      (session.down first :: moves ++ [session.event (c.clock.stamp finish) .up last]) := by
  intro session
  constructor
  · have lifted : Timely c.clock finish finish [session.event (c.clock.stamp finish) .up last] :=
      .cons (Nat.le_refl _) timely.forward rfl rfl (.nil (Nat.le_refl _))
    refine .cons (Nat.le_refl start) (Nat.le_refl start) rfl rfl ?_
    exact timely.append lifted
  · intro since
    have down := Panel.touch?_down (c.clock.stamp start) [] since
    have up := Panel.touch?_up (c.clock.stamp start) (c.clock.stamp finish) []
    refine ⟨c.clock.stamp start, ?_⟩
    rw [List.cons_append, Panel.replay?_cons, TouchSession.down, take?_event, Panel.idle, down,
      Option.bind_some, Panel.replay?_append, Panel.replay?_same stays, Option.bind_some,
      Panel.replay?_cons, take?_event, up]
    rfl

theorem dragged_passage (start : Nat) (first last : Coordinate) (places : List Coordinate) :
    Passage c.clock start (start + places.length * pauseLength c.pace)
      (c.dragged start first last places) := by
  apply c.touch_passage first last
  · exact c.paced_timely (Nat.le_refl start) places fun _ _ => ⟨rfl, rfl⟩
  · intro e he
    obtain ⟨i, _, rfl⟩ := List.mem_mapIdx.mp he
    rw [take?_event]
    exact Panel.touch?_move _ _ _ Nat.zero_lt_one

/-! Several fingers -/

section Together

variable {paths : List FingerPath}

theorem take?_touching (p : Panel) (began time : UInt64) (action : MotionAction) {shown : Nat}
    (within : shown ≤ paths.length) (place : FingerPath → Coordinate) :
    p.take? (touching began time action paths shown place) =
      p.touch? (pointerIds shown) action began time := by
  have ids : ((paths.take shown).mapIdx fun finger q =>
      (⟨UInt32.ofNat finger, .finger, place q⟩ : Pointer)).map Pointer.id = pointerIds shown := by
    apply List.ext_getElem
    · simp [pointerIds, within]
    · intro i _ _
      simp [pointerIds]
  rw [← ids]
  rfl

theorem replay?_othersDown (few : paths.length ≤ UInt32.size) (began time : UInt64)
    (place : FingerPath → Coordinate) {first others : Nat} (one : 0 < first)
    (within : first + others ≤ paths.length) :
    (Panel.mk (pointerIds first) began []).replay? ((List.range' first others).map fun finger =>
      touching began time ⟨.pointerDown, UInt32.ofNat finger⟩ paths (finger + 1) place) =
        some ⟨pointerIds (first + others), began, []⟩ := by
  -- a pointer more is down each time, so `first` grows with the induction
  induction others generalizing first with
  | zero => rfl
  | succ others ih =>
    have word : first < UInt32.size := by omega
    have shown : first + 1 ≤ paths.length := by omega
    have later : first + 1 + others = first + (others + 1) := by omega
    rw [List.range'_succ, List.map_cons, Panel.replay?_cons, take?_touching _ _ _ _ shown,
      Panel.touch?_pointerDown _ _ _ one word, Option.bind_some, ← later]
    exact ih (Nat.succ_pos first) (by omega)

theorem replay?_othersUp (few : paths.length ≤ UInt32.size) (began time : UInt64)
    (place : FingerPath → Coordinate) {others : List Nat}
    (within : ∀ finger ∈ others, 0 < finger ∧ finger < paths.length) :
    (Panel.mk (0 :: others.map UInt32.ofNat) began []).replay? (others.map fun finger =>
      touching began time ⟨.pointerUp, UInt32.ofNat finger⟩ paths paths.length place) =
        some ⟨pointerIds 1, began, []⟩ := by
  -- the event shows all fingers, also those that are up again
  induction others with
  | nil => rfl
  | cons finger rest ih =>
    have others := within
    obtain ⟨⟨other, shown⟩, within⟩ := List.forall_mem_cons.mp within
    have carried : 0 :: UInt32.ofNat finger :: rest.map UInt32.ofNat ⊆
        pointerIds paths.length := by
      apply List.cons_subset.mpr
      refine ⟨mem_pointerIds (Nat.zero_lt_of_lt shown), ?_⟩
      intro id hid
      obtain ⟨i, hi, rfl⟩ := List.mem_map.mp (List.map_cons ▸ hid)
      exact mem_pointerIds (others i hi).2
    rw [List.map_cons, List.map_cons, Panel.replay?_cons,
      take?_touching _ _ _ _ (Nat.le_refl _),
      Panel.touch?_pointerUp _ _ _ other (by omega) carried, Option.bind_some]
    exact ih within

theorem together_timely (start longest : Nat) (paths : List FingerPath) :
    Timely c.clock start (start + (longest - 2) * pauseLength c.pace)
      (c.together start longest paths) := by
  have moves : Timely c.clock start _ (c.paced (fun time step =>
      touching (c.clock.stamp start) time ⟨.move, 0⟩ paths paths.length (FingerPath.point step))
      start (List.range' 1 (longest - 2))) :=
    c.paced_timely (Nat.le_refl start) _ fun _ _ => ⟨rfl, rfl⟩
  rw [paced_steps, List.length_range'] at moves
  have atOnce {time : Nat} (since : start ≤ time) {events : List InputEvent}
      (h : ∀ e ∈ events, e.eventTime = c.clock.stamp time ∧ e.downTime = c.clock.stamp start) :
      Timely c.clock time time events := Timely.sameTime since h
  refine (((atOnce (Nat.le_refl start) ?_).append moves).append
    (atOnce moves.forward ?_)).append (atOnce moves.forward ?_)
  all_goals
    simp only [List.forall_mem_cons, List.forall_mem_map, List.not_mem_nil, false_implies,
      touching_eventTime, touching_downTime, and_self, implies_true]

theorem together_passage (start longest : Nat) (one : 0 < paths.length)
    (few : paths.length ≤ UInt32.size) :
    Passage c.clock start (start + (longest - 2) * pauseLength c.pace)
      (c.together start longest paths) where
  timely := c.together_timely start longest paths
  legal since := by
    have all : 1 + (paths.length - 1) = paths.length := by omega
    have others : ∀ finger ∈ List.range' 1 (paths.length - 1),
        0 < finger ∧ finger < paths.length := by
      intro finger hfinger
      rw [List.mem_range'_1] at hfinger
      omega
    have down := Panel.touch?_down (c.clock.stamp start) [] since
    have downs := replay?_othersDown few (c.clock.stamp start) (c.clock.stamp start)
      FingerPath.first Nat.zero_lt_one (Nat.le_of_eq all)
    rw [all] at downs
    have moves : (Panel.mk (pointerIds paths.length) (c.clock.stamp start) []).replay?
        ((List.range' 1 (longest - 2)).map fun step =>
          touching (c.clock.stamp start)
            (c.clock.stamp (start + (step - 1) * pauseLength c.pace)) ⟨.move, 0⟩ paths
            paths.length (FingerPath.point step)) =
          some ⟨pointerIds paths.length, c.clock.stamp start, []⟩ := by
      apply Panel.replay?_same
      intro e he
      obtain ⟨step, _, rfl⟩ := List.mem_map.mp he
      rw [take?_touching _ _ _ _ (Nat.le_refl _)]
      exact Panel.touch?_move _ _ _ one
    have ups := replay?_othersUp few (c.clock.stamp start)
      (c.clock.stamp (start + (longest - 2) * pauseLength c.pace)) FingerPath.last others
    rw [← pointerIds_eq_cons one] at ups
    have up := Panel.touch?_up (c.clock.stamp start)
      (c.clock.stamp (start + (longest - 2) * pauseLength c.pace)) []
    refine ⟨c.clock.stamp start, ?_⟩
    simp only [together, Panel.replay?_append, Panel.replay?_cons, take?_touching _ _ _ _ one,
      Panel.idle, down, downs, moves, ups, up, Option.bind_some]
    rfl

end Together

/-! Keys -/

theorem key_passage (time : Nat) (code metaState : Int32) :
    Passage c.clock time time
      [.key (.stamped (c.clock.stamp time) .down code metaState),
        .key (.stamped (c.clock.stamp time) .up code metaState)] where
  timely := by
    apply Timely.sameTime (Nat.le_refl time)
    simp [KeyEvent.stamped, InputEvent.eventTime, InputEvent.downTime]
  legal since := by
    refine ⟨since, ?_⟩
    simp [Panel.idle, Panel.replay?, Panel.take?, Panel.key?, KeyEvent.stamped]

theorem strokes_passage (time : Nat) {key : Int32 × Bool} (other : key.1 ≠ Keys.leftShift) :
    Passage c.clock time time ((Keys.strokes (c.clock.stamp time) key).map fun e =>
      .key (e.restamped (c.clock.stamp time))) where
  timely := by
    apply Timely.sameTime (Nat.le_refl time)
    obtain ⟨code, shift⟩ := key
    cases shift <;> simp [Keys.strokes, KeyEvent.restamped, KeyEvent.stamped,
      InputEvent.eventTime, InputEvent.downTime]
  legal since := by
    refine ⟨since, ?_⟩
    obtain ⟨code, shift⟩ := key
    have other : code ≠ Keys.leftShift := other
    cases shift <;> simp [Keys.strokes, KeyEvent.restamped, KeyEvent.stamped, Panel.idle,
      Panel.replay?, Panel.take?, Panel.key?, other]

theorem typed_passage (time : Nat) {text : List Char} {events : List KeyEvent}
    (typing : Keys.type? (c.clock.stamp time) text = some events) :
    Passage c.clock time time (events.map fun e => .key (e.restamped (c.clock.stamp time))) := by
  induction text generalizing events with
  | nil =>
    cases typing
    exact .nil (Nat.le_refl time)
  | cons char text ih =>
    simp only [Keys.type?_cons, Option.bind_eq_some_iff, Option.map_eq_some_iff] at typing
    obtain ⟨key, found, rest, typing, rfl⟩ := typing
    rw [List.map_append]
    exact (c.strokes_passage time (Keys.lookup?_spec found).2).append (ih typing)

end Passages

end Controller

end CorrelatedInput
