import CorrelatedInput.Gesture.Correlated
import CorrelatedInput.Proofs.Gesture.Repertoire
import CorrelatedInput.Proofs.Run.Alike
import CorrelatedInput.Proofs.Run.Correlation
/-!
Gestures that wait for what they cause, against the plain gestures.
-/
namespace CorrelatedInput

open Activity Controller

namespace World

/-- `waiting` drives the input that `plain` drives when it starts in the same world, and waits for a
condition beside it. The wait sees what others publish and what `plain` makes the user interface
publish. All that it changes is the result and the time at the end: it lasts until both the input
and the wait have ended. It has then closed its wait and given back its subscription by itself. -/
structure Accompanies {α β : Type} (w : World) (arrivals : List (Nat × Notification))
    (plain : Activity α) (condition : Condition) (timeout : Nat)
    (result : α → Option Notification → β) (waiting : Activity β) : Prop where
  sink : (w.perform arrivals waiting).2.sink = (w.perform arrivals plain).2.sink
  device : (w.perform arrivals waiting).2.device = (w.perform arrivals plain).2.device
  subscribers : (World.run { w with schedule := Schedule.ofDelays w.now arrivals }
    waiting).2.hub.subscribers = w.hub.subscribers
  waits : (World.run { w with schedule := Schedule.ofDelays w.now arrivals } waiting).2.waits =
    w.waits
  stops (cause : Overflow) : (w.perform arrivals plain).1 = .error cause →
    (w.perform arrivals waiting).1 = .error cause
  ends (a : α) : (w.perform arrivals plain).1 = .ok a →
    let own := World.emits { w with schedule := Schedule.ofDelays w.now arrivals } plain
    let found := condition.satisfaction? (Timeline.ahead w.hub.limit w.now (w.now + timeout) []
      (Schedule.due w.now arrivals) own)
    (w.perform arrivals waiting).1 = .ok (result a (found.map Prod.snd)) ∧
      (w.perform arrivals waiting).2.now =
        max (w.perform arrivals plain).2.now ((found.map Prod.fst).getD (w.now + timeout))

section Accompanies

variable {α β γ : Type} {capacity : Nat} {w : World}

theorem Accompanies.map {arrivals : List (Nat × Notification)} {plain : Activity α}
    {condition : Condition} {timeout : Nat} {result : α → Option Notification → β}
    {waiting : Activity β} (f : β → γ)
    (h : w.Accompanies arrivals plain condition timeout result waiting) :
    w.Accompanies arrivals plain condition timeout (fun a found => f (result a found))
      (f <$> waiting) where
  sink := by
    rw [perform_map]
    exact h.sink
  device := by
    rw [perform_map]
    exact h.device
  subscribers := by
    rw [run_map]
    exact h.subscribers
  waits := by
    rw [run_map]
    exact h.waits
  stops cause stopped := by
    rw [perform_map, h.stops cause stopped]
    rfl
  ends a done := by
    obtain ⟨value, now⟩ := h.ends a done
    rw [perform_map, value]
    exact ⟨rfl, now⟩

theorem perform_correlate_alike (arrivals : List (Nat × Notification)) {plain : Activity α}
    (silent : plain.IsSilent) (condition : Condition) (timeout : Nat) :
    let ended := (w.perform arrivals (correlate .hub plain condition timeout)).2
    Alike { (w.perform arrivals plain).2 with now := ended.now } ended := by
  have start : Alike { w with schedule := Schedule.ofDelays w.now arrivals }
    (w.awaiting arrivals .hub condition timeout) := listen_alike _ _ _ _
  obtain ⟨result, after, _⟩ := start.run silent
  have dropped (v : World) : Alike { v.closeAll with schedule := [] } v :=
    ((closeAll_alike v).trans ⟨_, _, _, _, _, rfl⟩).symm
  simp only [perform_world, run_correlate_awaiting]
  generalize (w.awaiting arrivals .hub condition timeout).run plain = ran at result after ⊢
  obtain ⟨r, u⟩ := ran
  refine ((dropped _).trans after |>.later _).trans ?_
  cases r with
  | ok a =>
    exact (await_alike u w.opened).trans (dropped _).symm
  | error cause => exact (dropped u).symm

theorem correlate_accompanies (rest : w.AtRest capacity) (arrivals : List (Nat × Notification))
    {plain : Activity α} (silent : plain.IsSilent) (condition : Condition) (timeout : Nat) :
    w.Accompanies arrivals plain condition timeout
      (fun a found => (a, found.elim (.error (.timedOut timeout)) .ok))
      (correlate .hub plain condition timeout) := by
  have alike := perform_correlate_alike (w := w) arrivals silent condition timeout
  have start : Alike { w with schedule := Schedule.ofDelays w.now arrivals }
    (w.awaiting arrivals .hub condition timeout) := listen_alike _ _ _ _
  obtain ⟨result, after, emits⟩ := start.run silent
  obtain ⟨value, closed, subscribers, now⟩ :=
    perform_correlate (rest.ready timeout) arrivals silent.isScript condition
  have whole : w.horizon (max capacity 1).nextPowerOfTwo arrivals plain condition timeout =
      Timeline.ahead w.hub.limit w.now (w.now + timeout) [] (Schedule.due w.now arrivals)
        (World.emits { w with schedule := Schedule.ofDelays w.now arrivals } plain) := by
    rw [horizon, emits, rest.sound.room, rest.endless, Timeline.upTo_none, Timeline.upTo_none]
  rw [whole, expiry_of_le (by simp [rest.endless])] at value now
  rw [after.now] at now
  rw [result, ← perform_result] at value
  refine ⟨alike.sink, alike.device, subscribers, closed.trans rest.idle.symm, ?_, ?_⟩
  · intro cause stopped
    rw [value, stopped]
    rfl
  · intro a done own found
    rw [done] at value
    have time := now (by rw [value]; rfl)
    rw [value, time]
    simp only [Condition.verdict]
    cases same : found <;> simp only [found, own] at same <;> rw [same] <;> exact ⟨rfl, rfl⟩

theorem runAndWait_accompanies (rest : w.AtRest capacity) (arrivals : List (Nat × Notification))
    {plain : Activity α} (silent : plain.IsSilent) {mode : WaitMode} {kinds : KindSet}
    {condition : Condition} (some : Condition.make mode kinds = .ok condition) (timeout : Nat) :
    w.Accompanies arrivals plain condition timeout (fun a found => .ok (a, found))
      (runAndWait .hub plain timeout mode kinds) := by
  have same : (fun (a : α) found => (.ok (a, found) : Except Failure (α × Option Notification))) =
      fun a found => .ok (a, (found.elim (.error (.timedOut timeout)) .ok : Outcome).toOption) := by
    funext a found
    cases found <;> rfl
  rw [runAndWait_eq some, same]
  exact (correlate_accompanies rest arrivals silent condition timeout).map
    fun p : α × Outcome => (.ok (p.1, p.2.toOption) : Except Failure _)

theorem make_of_nonempty (mode : WaitMode) {kinds : KindSet} (some : kinds.isEmpty = false) :
    ∃ condition, Condition.make mode kinds = .ok condition := by
  simp only [Condition.make, some]
  cases mode <;> exact ⟨_, rfl⟩

theorem clickAndWait_accompanies (rest : w.AtRest capacity)
    (arrivals : List (Nat × Notification)) (c : Controller) (place : Coordinate) (timeout : Nat)
    {mode : WaitMode} {kinds : KindSet} {condition : Condition}
    (some : Condition.make mode kinds = .ok condition) :
    w.Accompanies arrivals (c.click place) condition timeout (fun _ found => .ok found.isSome)
      (c.clickAndWait place timeout mode kinds) :=
  (runAndWait_accompanies rest arrivals (IsGesture.click place).silent some timeout).map cameInTime

theorem scrollSwipe_accompanies (rest : w.AtRest capacity) (arrivals : List (Nat × Notification))
    (c : Controller) (start finish : Coordinate) (steps : UInt32) :
    w.Accompanies arrivals (c.swipe start finish steps) (.any (.singleton .viewScrolled))
      c.timing.scrollTimeout.toNat (fun _ found => found.elim false fun n =>
        n.scroll.hasMore start finish) (c.scrollSwipe start finish steps) := by
  let more : Except Failure (Bool × Option Notification) → Bool
    | .ok (_, found) => found.elim false fun n => n.scroll.hasMore start finish
    | .error _ => false
  have waits : c.scrollSwipe start finish steps =
      more <$> runAndWait .hub (c.swipe start finish steps) c.timing.scrollTimeout.toNat .any
        (.singleton .viewScrolled) := by
    refine congrArg (runAndWait .hub (c.swipe start finish steps) _ .any _ >>= ·) ?_
    funext outcome
    rcases outcome with e | ⟨accepted, _ | n⟩ <;> rfl
  rw [waits]
  exact (runAndWait_accompanies rest arrivals (IsGesture.swipe start finish steps).silent rfl
    _).map more

/-- Waiting never changes what a gesture does. A click, a key, a swipe or any other gesture that
waits for notifications hands over the same events at the same times as the plain one, with the same
verdicts. It returns when the gesture has ended and its condition holds, or its time is over, and
then the hub has the subscribers that it had before, and nobody waits. -/
theorem waiting_keeps_gestures (rest : w.AtRest capacity) (arrivals : List (Nat × Notification))
    (c : Controller) (timeout : Nat) :
    (∀ (place : Coordinate) (mode : WaitMode) (kinds : KindSet), kinds.isEmpty = false →
      ∃ condition, Condition.make mode kinds = .ok condition ∧
        w.Accompanies arrivals (c.click place) condition timeout (fun _ found => .ok found.isSome)
          (c.clickAndWait place timeout mode kinds)) ∧
    (∀ (place : Coordinate) (kind : Kind),
      w.Accompanies arrivals (c.click place) (.any (.singleton kind)) timeout
        (fun _ found => .ok found.isSome) (c.clickAndWaitForKind place timeout kind)) ∧
    (∀ place : Coordinate,
      let kinds : KindSet := .ofList [.windowStateChanged, .windowContentChanged]
      w.Accompanies arrivals (c.click place) (.all kinds kinds) timeout
        (fun _ found => .ok found.isSome) (c.clickAndWaitForWindow place timeout)) ∧
    (∀ (code metaState : Int32) (kind : Kind),
      w.Accompanies arrivals (c.sendKey code metaState) (.any (.singleton kind)) timeout
        (fun _ found => .ok found.isSome) (c.sendKeyAndWait code metaState kind timeout)) ∧
    (∀ (start finish : Coordinate) (steps : UInt32),
      w.Accompanies arrivals (c.swipe start finish steps) (.any (.singleton .viewScrolled))
        c.timing.scrollTimeout.toNat (fun _ found => found.elim false fun n =>
          n.scroll.hasMore start finish) (c.scrollSwipe start finish steps)) ∧
    ∀ {α : Type} (plain : Activity α), c.IsGesture plain → ∀ (mode : WaitMode) (kinds : KindSet),
      kinds.isEmpty = false → ∃ condition, Condition.make mode kinds = .ok condition ∧
        w.Accompanies arrivals plain condition timeout (fun a found => .ok (a, found))
          (runAndWait .hub plain timeout mode kinds) := by
  have one (kind : Kind) : Condition.make .any (.singleton kind) =
      .ok (.any (.singleton kind)) := by cases kind <;> rfl
  refine ⟨?_, ?_, ?_, ?_, ?_, ?_⟩
  · intro place mode kinds nonempty
    obtain ⟨condition, some⟩ := make_of_nonempty mode nonempty
    exact ⟨condition, some, clickAndWait_accompanies rest arrivals c place timeout some⟩
  · intro place kind
    exact clickAndWait_accompanies rest arrivals c place timeout (one kind)
  · intro place
    exact clickAndWait_accompanies rest arrivals c place timeout rfl
  · intro code metaState kind
    have silent := (IsGesture.sendKey (c := c) code metaState).silent
    exact (runAndWait_accompanies rest arrivals silent (one kind) timeout).map cameInTime
  · exact scrollSwipe_accompanies rest arrivals c
  · intro α plain gesture mode kinds nonempty
    obtain ⟨condition, some⟩ := make_of_nonempty mode nonempty
    exact ⟨condition, some, runAndWait_accompanies rest arrivals gesture.silent some timeout⟩

end Accompanies

/-- A click whose second event is rejected still takes its time, though what it waits for comes at
its first event. -/
theorem waiting_keeps_rejected_click :
    let w := fresh 4 (.rejecting [1]) [⟨.motion .down, [Kind.viewClicked.notification]⟩]
      (.fresh Device.defaultLongPress)
    let c := Controller.fresh ⟨0, 0⟩
    let waiting := w.perform [] (c.clickAndWaitForKind ⟨10, 20⟩ 20 .viewClicked)
    let plain := w.perform [] (c.click ⟨10, 20⟩)
    let left := (World.run { w with schedule := Schedule.ofDelays w.now [] }
      (c.clickAndWaitForKind ⟨10, 20⟩ 20 .viewClicked)).2
    waiting.2.sink = plain.2.sink ∧ plain.1 = .ok false ∧ waiting.1 = .ok (.ok true) ∧
      waiting.2.now = plain.2.now ∧ left.hub.subscribers = [] ∧ left.waits = [] := by
  intro w c waiting plain left
  have rest : w.AtRest 4 := fresh_atRest 4 _ _ _
  have same := (waiting_keeps_gestures rest [] c 20).2.1 ⟨10, 20⟩ .viewClicked
  have rejected : plain.1 = .ok false := by decide +kernel
  obtain ⟨value, now⟩ := same.ends false rejected
  exact ⟨same.sink, rejected, value.trans (by decide +kernel), now.trans (by decide +kernel),
    same.subscribers, same.waits⟩

end World

end CorrelatedInput
