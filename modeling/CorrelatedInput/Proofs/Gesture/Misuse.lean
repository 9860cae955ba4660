import CorrelatedInput.Proofs.Gesture.Correlated
/-!
Requests that break a rule. They are refused before anything happens: no event is handed over,
nobody subscribes, nothing is read, no time passes, and of an activity that was to be waited for not
even the first step is taken. A request that keeps the rules is not refused, and a wait that brings
nothing is no failure.
-/
namespace CorrelatedInput

namespace Activity

variable {α β : Type}

/-- Wherever it runs, the activity fails at once for this reason, and leaves the world as it was. -/
def Refuses (a : Activity (Except Failure α)) (misuse : Misuse) : Prop :=
  ∀ w : World, w.run a = (.ok (.error (.invalidArgument misuse)), w)

/-- Wherever it runs, the activity does not fail. -/
def NeverFails (a : Activity (Except Failure α)) : Prop :=
  ∀ (w : World) (e : Failure), (w.run a).1 ≠ .ok (.error e)

theorem neverFails_map (f : β → α) (a : Activity β) :
    ((fun x => .ok (f x)) <$> a : Activity (Except Failure α)).NeverFails := by
  intro w e failed
  rw [World.run_map] at failed
  cases result : (w.run a).1 with
  | error | ok =>
    rw [result] at failed
    cases failed

/-! Waits -/

section Wait

variable {source : Source} {action : Activity α} {timeout : Nat} {mode : WaitMode} {kinds : KindSet}

theorem runAndWait_refuses (nothing : kinds.isEmpty = true) :
    (runAndWait source action timeout mode kinds).Refuses .noKinds := by
  intro w
  simp only [runAndWait, Condition.make, nothing, if_true]
  rfl

theorem runAndWait_neverFails (something : kinds.isEmpty = false) :
    (runAndWait source action timeout mode kinds).NeverFails := by
  obtain ⟨condition, made⟩ := World.make_of_nonempty mode something
  rw [World.runAndWait_eq made]
  exact neverFails_map _ _

theorem runAndWait_ended {w : World} (known : ∀ wait ∈ w.waits, wait.id < w.opened) {a : α}
    {found : Option Notification}
    (returned : (w.run (runAndWait .ended action timeout mode kinds)).1 = .ok (.ok (a, found))) :
    found = none := by
  cases empty : kinds.isEmpty with
  | true =>
    rw [runAndWait_refuses empty w] at returned
    cases returned
  | false =>
    obtain ⟨condition, made⟩ := World.make_of_nonempty mode empty
    have after := (World.listen_deaf known condition timeout).run action
    rw [World.run_runAndWait w .ended action timeout made] at returned
    generalize (w.listen .ended condition timeout).2.run action = ran at after returned
    obtain ⟨r, u⟩ := ran
    cases r with
    | error cause => cases returned
    | ok b =>
      simp only [after.await] at returned
      cases returned
      rfl

end Wait

end Activity

namespace Controller

open Activity

variable (c : Controller)

section Click

variable {place : Coordinate} {timeout : Nat} {mode : WaitMode} {kinds : KindSet}

theorem clickAndWait_refuses (nothing : kinds.isEmpty = true) :
    (c.clickAndWait place timeout mode kinds).Refuses .noKinds := by
  intro w
  rw [clickAndWait, World.run_map, runAndWait_refuses nothing w]
  rfl

theorem clickAndWait_neverFails (something : kinds.isEmpty = false) :
    (c.clickAndWait place timeout mode kinds).NeverFails := by
  intro w e failed
  rw [clickAndWait, World.run_map] at failed
  cases result : (w.run (runAndWait .hub (c.click place) timeout mode kinds)).1 with
  | error cause =>
    rw [result] at failed
    cases failed
  | ok waited =>
    cases waited with
    | error e' => exact runAndWait_neverFails something w e' result
    | ok found =>
      rw [result] at failed
      cases failed

end Click

/-! Paths -/

theorem swipePath_refuses (steps : UInt32) : (c.swipePath [] steps).Refuses .noWaypoints :=
  fun _ => rfl

theorem swipePath_neverFails {points : List Coordinate} (steps : UInt32) (some : points ≠ []) :
    (c.swipePath points steps).NeverFails := by
  have first := List.head?_eq_some_head some
  have last := List.getLast?_eq_some_getLast some
  simp only [swipePath, first, last]
  exact neverFails_map id _

theorem gesture_refuses_few {paths : List (List Coordinate)} (few : paths.length < 2) :
    (c.gesture paths).Refuses .tooFewPointers := by
  intro w
  simp only [gesture, few, if_true]
  rfl

theorem findIdx?_isEmpty_eq_none {paths : List (List Coordinate)} (nonempty : [] ∉ paths) :
    paths.findIdx? List.isEmpty = none := by
  rw [List.findIdx?_eq_none_iff]
  intro path here
  cases path with
  | nil => exact absurd here nonempty
  | cons => rfl

theorem findIdx?_isEmpty_append {front back : List (List Coordinate)} (nonempty : [] ∉ front) :
    (front ++ [] :: back).findIdx? List.isEmpty = some front.length := by
  rw [List.findIdx?_append, findIdx?_isEmpty_eq_none nonempty, List.findIdx?_cons]
  simp

theorem gesture_refuses_empty {front back : List (List Coordinate)}
    (enough : 2 ≤ (front ++ [] :: back).length) (nonempty : [] ∉ front) :
    (c.gesture (front ++ [] :: back)).Refuses (.emptyPath front.length) := by
  intro w
  simp only [gesture, Nat.not_lt.mpr enough, if_false, findIdx?_isEmpty_append nonempty]
  rfl

theorem gesture_neverFails {paths : List (List Coordinate)} (enough : 2 ≤ paths.length)
    (nonempty : [] ∉ paths) : (c.gesture paths).NeverFails := by
  simp only [gesture, Nat.not_lt.mpr enough, if_false, findIdx?_isEmpty_eq_none nonempty]
  exact neverFails_map (fun _ => true) (c.gestureAlong paths)

/-- A wait for no kind at all, a swipe along no place, and a gesture with fewer than two paths or
with an empty one are refused, wherever and with whatever activity they are asked for; of several
empty paths, the first is named. A wait for some kind never fails: it runs its activity while it
listens, stops only where that stops, and then brings a notification or nothing, which is all that
is left of a timeout or of a stream that has ended. -/
theorem misuse_changes_nothing :
    (∀ (α : Type) (source : Source) (action : Activity α) (timeout : Nat) (mode : WaitMode)
        (kinds : KindSet),
      (kinds.isEmpty = true →
        (runAndWait source action timeout mode kinds).Refuses .noKinds) ∧
      (kinds.isEmpty = false →
        (runAndWait source action timeout mode kinds).NeverFails ∧
        ∃ condition, Condition.make mode kinds = .ok condition ∧
          ∀ w : World, w.run (runAndWait source action timeout mode kinds) =
            match (w.listen source condition timeout).2.run action with
            | (.error cause, u) => (.error cause, u)
            | (.ok a, u) => match u.await w.opened with
              | (.ok n, v) => (.ok (.ok (a, some n)), v)
              | (.error _, v) => (.ok (.ok (a, none)), v)) ∧
      ∀ (w : World) (a : α) (found : Option Notification),
        (∀ wait ∈ w.waits, wait.id < w.opened) →
        (w.run (runAndWait .ended action timeout mode kinds)).1 = .ok (.ok (a, found)) →
        found = none) ∧
    ∀ c : Controller,
      (∀ (place : Coordinate) (timeout : Nat) (mode : WaitMode) (kinds : KindSet),
        (kinds.isEmpty = true → (c.clickAndWait place timeout mode kinds).Refuses .noKinds) ∧
        (kinds.isEmpty = false → (c.clickAndWait place timeout mode kinds).NeverFails)) ∧
      (∀ steps : UInt32,
        (c.swipePath [] steps).Refuses .noWaypoints ∧
        ∀ points, points ≠ [] → (c.swipePath points steps).NeverFails) ∧
      (∀ paths : List (List Coordinate), paths.length < 2 →
        (c.gesture paths).Refuses .tooFewPointers) ∧
      (∀ front back : List (List Coordinate), 2 ≤ (front ++ [] :: back).length → [] ∉ front →
        (c.gesture (front ++ [] :: back)).Refuses (.emptyPath front.length)) ∧
      (∀ paths : List (List Coordinate), 2 ≤ paths.length → [] ∉ paths →
        (c.gesture paths).NeverFails) := by
  constructor
  · intro α source action timeout mode kinds
    refine ⟨runAndWait_refuses, ?_, fun w a found known => runAndWait_ended known⟩
    intro something
    obtain ⟨condition, made⟩ := World.make_of_nonempty mode something
    refine ⟨runAndWait_neverFails something, condition, made, fun w => ?_⟩
    rw [World.run_runAndWait w source action timeout made]
    rcases (w.listen source condition timeout).2.run action with ⟨cause | a, u⟩
    · rfl
    · dsimp only
      rcases u.await w.opened with ⟨cause | n, v⟩ <;> rfl
  · intro c
    refine ⟨fun place timeout mode kinds => ⟨?_, ?_⟩, fun steps => ⟨?_, ?_⟩, ?_, ?_, ?_⟩
    · exact c.clickAndWait_refuses
    · exact c.clickAndWait_neverFails
    · exact c.swipePath_refuses steps
    · exact fun points => c.swipePath_neverFails steps
    · exact fun paths => c.gesture_refuses_few
    · exact fun front back => c.gesture_refuses_empty
    · exact fun paths => c.gesture_neverFails

/-- Where nothing is published: a wait for no kind takes not even the first step of an activity that
would stop the program; a wait for a click times out, or finds its stream ended, and brings nothing;
of three paths the second and the third are empty, and the second is named. -/
theorem misuse_changes_nothing_second_finger :
    let c := Controller.fresh ⟨0, 0⟩
    let w := World.fresh 1 (.rejecting []) [] (.fresh Device.defaultLongPress)
    let place : Coordinate := ⟨0, 0⟩
    let click : KindSet := .singleton .viewClicked
    w.run (runAndWait .hub (.stop .addition : Activity Unit) 5 .any .empty) =
        (.ok (.error (.invalidArgument .noKinds)), w) ∧
      (w.run (runAndWait .hub (pause 3) 5 .any click)).1 = .ok (.ok ((), none)) ∧
      (∃ found, (w.run (runAndWait .ended (pause 3) 5 .any click)).1 = .ok (.ok ((), found)) ∧
        found = none) ∧
      w.run (c.clickAndWait place 5 .all .empty) =
        (.ok (.error (.invalidArgument .noKinds)), w) ∧
      (c.clickAndWait place 5 .all click).NeverFails ∧
      (c.swipePath [place] 1).NeverFails ∧
      w.run (c.gesture [[]]) = (.ok (.error (.invalidArgument .tooFewPointers)), w) ∧
      w.run (c.gesture [[place], [], []]) =
        (.ok (.error (.invalidArgument (.emptyPath 1))), w) ∧
      (c.gesture [[place], [place]]).NeverFails := by
  intro c w place click
  obtain ⟨waits, gestures⟩ := misuse_changes_nothing
  obtain ⟨clicks, swipes, few, empty, enough⟩ := gestures c
  obtain ⟨refused, _, _⟩ := waits Unit .hub (.stop .addition) 5 .any .empty
  obtain ⟨_, accepted, _⟩ := waits Unit .hub (pause 3) 5 .any click
  obtain ⟨_, condition, made, brings⟩ := accepted rfl
  refine ⟨refused rfl w, ?_, ?_, (clicks place 5 .all .empty).1 rfl w,
    (clicks place 5 .all click).2 rfl, (swipes 1).2 [place] (by simp), few [[]] (by decide) w,
    empty [[place]] [[]] (by decide) (by decide) w, enough _ (by decide) (by decide)⟩
  · cases made
    rw [brings w]
    decide +kernel
  · have ended : (w.run (runAndWait .ended (pause 3) 5 .any click)).1 = .ok (.ok ((), none)) := by
      decide +kernel
    obtain ⟨_, _, nothing⟩ := waits Unit .ended (pause 3) 5 .any click
    exact ⟨none, ended, nothing w () none (List.forall_mem_nil _) ended⟩

end Controller

end CorrelatedInput
