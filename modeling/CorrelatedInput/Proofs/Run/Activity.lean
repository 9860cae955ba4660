import CorrelatedInput.Proofs.Signals.Timeline
import CorrelatedInput.Run.Correlation
/-!
How activities run: one after the other, what they may ask, what they publish on the way, and that
time only goes forward.
-/
namespace CorrelatedInput

namespace Request

def Listens : Request → Prop
  | .listen _ _ _ => True
  | _ => False

/-- The request is to publish something, whatever else happens. -/
def Publishes : Request → Prop
  | .publish _ => True
  | _ => False

end Request

namespace Activity

/-- The activity asks nothing but what is allowed, and never waits. -/
def Asks {α : Type} (allowed : Request → Prop) : Activity α → Prop
  | .done _ => True
  | .stop _ => True
  | .ask request next => allowed request ∧ ∀ answer, (next answer).Asks allowed
  | .sleep _ next => next.Asks allowed
  | .await _ _ => False

/-- A script publishes, injects and sleeps, and asks about the device; it never waits. -/
abbrev IsScript {α : Type} (a : Activity α) : Prop := a.Asks fun r => ¬ r.Listens

/-- An activity that drives input and nothing else: what it makes others publish is their affair. -/
abbrev IsSilent {α : Type} (a : Activity α) : Prop :=
  a.Asks fun r => ¬ r.Listens ∧ ¬ r.Publishes

section Asks

variable {α β : Type} {allowed more : Request → Prop}

theorem Asks.mono {a : Activity α} (h : ∀ r, allowed r → more r) (ha : a.Asks allowed) :
    a.Asks more := by
  induction a with
  | done | stop => trivial
  | ask request next ih =>
    constructor
    · exact h _ ha.1
    · intro answer
      exact ih answer (ha.2 answer)
  | sleep milliseconds next ih => exact ih ha
  | await wait next => exact ha.elim

theorem IsSilent.isScript {a : Activity α} (ha : a.IsSilent) : a.IsScript :=
  Asks.mono (fun _ h => h.1) ha

theorem asks_pure (a : α) : (pure a : Activity α).Asks allowed := trivial

theorem asks_request {r : Request} (h : allowed r) : (request r).Asks allowed :=
  ⟨h, fun _ => trivial⟩

theorem asks_pause (milliseconds : Nat) : (pause milliseconds).Asks allowed := trivial

theorem asks_ofExcept (r : Except Overflow α) : (ofExcept r).Asks allowed := by
  cases r <;> trivial

theorem asks_bind {a : Activity α} {f : α → Activity β} (ha : a.Asks allowed)
    (hf : ∀ x, (f x).Asks allowed) : (a >>= f).Asks allowed := by
  change (a.andThen f).Asks allowed
  induction a with
  | done x => exact hf x
  | stop cause => trivial
  | ask request next ih =>
    constructor
    · exact ha.1
    · intro answer
      exact ih answer (ha.2 answer)
  | sleep milliseconds next ih => exact ih ha
  | await wait next => exact ha.elim

theorem asks_map {a : Activity α} (f : α → β) (ha : a.Asks allowed) : (f <$> a).Asks allowed := by
  apply asks_bind ha
  intro x
  exact asks_pure (f x)

end Asks

end Activity

namespace World

section Run

variable {α β : Type}

theorem run_bind (w : World) (a : Activity α) (f : α → Activity β) :
    w.run (a >>= f) =
      match w.run a with
      | (.ok x, v) => v.run (f x)
      | (.error cause, v) => (.error cause, v) := by
  change w.run (a.andThen f) = _
  induction a generalizing w with
  | done x => rfl
  | stop cause => rfl
  | ask request next ih => exact ih _ _
  | sleep milliseconds next ih => exact ih _
  | await wait next ih => exact ih _ _

theorem run_map (w : World) (f : α → β) (a : Activity α) :
    w.run (f <$> a) = ((w.run a).1.map f, (w.run a).2) := by
  change w.run (a >>= fun x => pure (f x)) = _
  rw [run_bind]
  obtain ⟨r, v⟩ := w.run a
  cases r <;> rfl

variable {w : World}

theorem perform_result (arrivals : List (Nat × Notification)) (a : Activity α) :
    (w.perform arrivals a).1 =
      (World.run { w with schedule := Schedule.ofDelays w.now arrivals } a).1 := rfl

theorem perform_world (arrivals : List (Nat × Notification)) (a : Activity α) :
    (w.perform arrivals a).2 =
      { (World.run { w with schedule := Schedule.ofDelays w.now arrivals } a).2.closeAll with
        schedule := [] } := rfl

theorem perform_map (arrivals : List (Nat × Notification)) (f : α → β) (a : Activity α) :
    w.perform arrivals (f <$> a) =
      ((w.perform arrivals a).1.map f, (w.perform arrivals a).2) := by
  simp only [perform, during, run_map]

end Run

/-! Publishing -/

/-- What the answer to a request publishes: a notification, or the reactions to an accepted event. -/
def announced (w : World) : Request → List Notification
  | .inject event => if (w.sink.inject event).1 then w.reactionsTo event else []
  | .publish n => [n]
  | _ => []

/-- What an activity publishes while it runs, each notification with its instant. -/
def emits {α : Type} (w : World) : Activity α → Timeline
  | .done _ => []
  | .stop _ => []
  | .ask request next =>
    Timeline.moment w.now (w.announced request) ++
      (w.answer request).2.emits (next (w.answer request).1)
  | .sleep milliseconds next => (w.sleep milliseconds).emits next
  | .await wait next => (w.await wait).2.emits (next (w.await wait).1)

/-- A recording sink passes events on and verdicts back, and takes note of both. -/
theorem hand_eq (event : InputEvent) (sink : Sink) (recorder : Option Recorder) :
    hand event sink recorder = ((sink.inject event).1, (sink.inject event).2,
      recorder.map (RecordingSink.note event (sink.inject event).1)) := by
  cases recorder <;> rfl

theorem inject_eq (w : World) (event : InputEvent) :
    w.inject event = ((w.sink.inject event).1, { w with
      sink := (w.sink.inject event).2
      recorder := w.recorder.map (RecordingSink.note event (w.sink.inject event).1)
      hub := w.hub.publishAll (w.announced (.inject event)) }) := by
  rw [inject, hand_eq]
  rfl

theorem answer_changes {w : World} {r : Request} (h : ¬ r.Listens) :
    ∃ sink recorder device, (w.answer r).2 =
      { w with sink, recorder, device, hub := w.hub.publishAll (w.announced r) } := by
  cases r with
  | inject event =>
    rw [answer, inject_eq]
    exact ⟨_, _, _, rfl⟩
  | rotate c =>
    simp only [answer, rotate]
    split <;> exact ⟨_, _, _, rfl⟩
  | listen => exact absurd trivial h
  | _ => exact ⟨_, _, _, rfl⟩

/-! Time -/

@[simp] theorem settle_now (w : World) : w.settle.now = w.now := rfl

/-- What holds after any time if no step of its passing makes a difference to it. -/
theorem pass_preserves (holds : World → Prop) {enough : World → Bool}
    (passes : ∀ limit s w, holds w → holds (passFrom enough limit s w))
    (ends : ∀ w, holds w → holds w.endStream) (reads : ∀ w, holds w → holds w.settle)
    (limit : Nat) {w : World} (h : holds w) : holds (w.pass enough limit) := by
  have upToEnding (time : Nat) : holds (w.passEnding enough time) := by
    unfold passEnding
    simp only
    split
    · exact passes _ _ _ h
    · exact reads _ (ends _ (passes _ _ _ h))
  unfold pass
  split
  · exact passes _ _ _ h
  · split
    · exact passes _ _ _ h
    · simp only
      split
      · exact upToEnding _
      · exact passes _ _ _ (upToEnding _)

theorem passFrom_forward (enough : World → Bool) (limit : Nat) (s : Schedule) (w : World) :
    w.now ≤ (w.passFrom enough limit s).now := by
  induction s generalizing w with
  | nil => exact Nat.le_max_left _ _
  | cons m s ih =>
    have forward : w.now ≤ (w.arrive m.1 m.2).now := Nat.le_max_left _ _
    simp only [passFrom]
    split
    · split
      · exact forward
      · exact Nat.le_trans forward (ih (w.arrive m.1 m.2).settle)
    · split
      · exact forward
      · exact Nat.le_max_left _ _

theorem pass_forward (enough : World → Bool) (limit : Nat) (w : World) :
    w.now ≤ (w.pass enough limit).now :=
  pass_preserves (fun v => w.now ≤ v.now)
    (fun _ _ _ h => Nat.le_trans h (passFrom_forward _ _ _ _)) (fun _ h => h) (fun _ h => h) limit
    (Nat.le_refl _)

theorem await_forward (w : World) (id : Nat) : w.now ≤ (w.await id).2.now := by
  simp only [await]
  split
  · exact pass_forward _ _ w.settle
  · exact Nat.le_refl _

theorem passFrom_le {enough : World → Bool} {time limit : Nat} {s : Schedule} {w : World}
    (ahead : w.now ≤ limit) (within : time ≤ limit) : (passFrom enough time s w).now ≤ limit := by
  induction s generalizing w with
  | nil => exact Nat.max_le.mpr ⟨ahead, within⟩
  | cons m s ih =>
    have arrived (here : m.1 ≤ limit) : (w.arrive m.1 m.2).now ≤ limit :=
      Nat.max_le.mpr ⟨ahead, here⟩
    simp only [passFrom]
    split
    · have here : m.1 ≤ limit := by omega
      split
      · exact arrived here
      · exact ih (arrived here)
    · split
      · exact arrived (by omega)
      · exact Nat.max_le.mpr ⟨ahead, within⟩

theorem passFrom_now {limit : Nat} {s : Schedule} {w : World} (ahead : w.now ≤ limit) :
    (passFrom (fun _ => false) limit s w).now = limit := by
  induction s generalizing w with
  | nil => exact Nat.max_eq_right ahead
  | cons m s ih =>
    simp only [passFrom]
    split
    · apply ih
      simp only [settle_now, arrive]
      omega
    · split
      · simp only [arrive]
        omega
      · exact Nat.max_eq_right ahead

theorem pass_now {limit : Nat} {w : World} (ahead : w.now ≤ limit) :
    (w.pass (fun _ => false) limit).now = limit := by
  unfold pass
  split
  · exact passFrom_now ahead
  · split
    · exact passFrom_now ahead
    · simp only [passEnding, Bool.false_eq_true, if_false]
      exact passFrom_now (passFrom_le ahead (by omega))

theorem sleep_now (w : World) (milliseconds : Nat) :
    (w.sleep milliseconds).now = w.now + milliseconds := by
  unfold sleep
  split
  · simp_all
  · exact pass_now (Nat.le_add_right _ _)

theorem emits_after {α : Type} {a : Activity α} (script : a.IsScript) (w : World) :
    ∀ p ∈ w.emits a, w.now ≤ p.1 := by
  induction a generalizing w with
  | done | stop => simp [emits]
  | ask request next ih =>
    obtain ⟨sink, recorder, device, same⟩ := answer_changes (w := w) script.1
    intro p hp
    rcases List.mem_append.mp hp with hp | hp
    · obtain ⟨n, _, rfl⟩ := List.mem_map.mp hp
      exact Nat.le_refl _
    · have later := ih _ (script.2 _) _ p hp
      rw [same] at later
      exact later
  | sleep milliseconds next ih =>
    intro p hp
    have later := ih script _ p hp
    rw [sleep_now] at later
    omega
  | await wait next => exact script.elim

theorem emits_instant_eq_nil {α : Type} {a : Activity α} (script : a.IsScript) {w : World}
    {time : Nat} (h : time < w.now) : (w.emits a).instant time = [] := by
  apply Timeline.instant_eq_nil
  intro p hp
  have := emits_after script w p hp
  omega

/-- Nothing is published while an activity sleeps. -/
theorem emits_asleep {α : Type} {a : Activity α} (script : a.IsScript) {w : World}
    {milliseconds : Nat} (time : Nat) (asleep : time < w.now + milliseconds) :
    ((w.sleep milliseconds).emits a).instant time = [] := by
  apply emits_instant_eq_nil script
  rwa [sleep_now]

end World

end CorrelatedInput
