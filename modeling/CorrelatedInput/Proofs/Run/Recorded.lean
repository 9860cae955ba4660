import CorrelatedInput.Proofs.Input.Sink
import CorrelatedInput.Proofs.Run.Alike
/-!
Activities behind a recording sink. They do what they do without it, at the same times and with the
same verdicts, and the recorder takes note of every event that goes into the sink.
-/
namespace CorrelatedInput

namespace RecordingSink

def offer (s : RecordingSink) (events : List InputEvent) : RecordingSink :=
  events.foldl (fun s event => (s.inject event).2) s

/-- What a recorder has when it has taken note of all this. -/
def recorded (log : List Injected) (r : Recorder) : Recorder :=
  log.foldl (fun r i => note i.event i.accepted r) r

theorem recorded_append (first second : List Injected) (r : Recorder) :
    recorded (first ++ second) r = recorded second (recorded first r) := List.foldl_append

theorem recorded_singleton (s : Sink) (event : InputEvent) :
    recorded (s.judged [event]) = note event (s.accepts [event]) := by
  funext r
  simp [recorded, Sink.judged, Sink.accepts]

/-- A recording sink that is handed events one by one has recorded the log of the sink behind it. -/
theorem offer_eq (s : Sink) (r : Recorder) (events : List InputEvent) :
    offer ⟨s, r⟩ events = ⟨s.offer events, recorded (s.judged events) r⟩ := by
  induction events generalizing s r with
  | nil => rw [Sink.offer_nil]; rfl
  | cons event events ih =>
    have one : (inject event ⟨s, r⟩).2 = ⟨s.offer [event], recorded (s.judged [event]) r⟩ := by
      rw [recorded_singleton]
      simp only [inject, Sink.injection_inject, Sink.inject_eq]
    change offer (inject event ⟨s, r⟩).2 events = _
    rw [one, ih, ← Sink.offer_append, ← recorded_append, ← Sink.judged_append]
    rfl

end RecordingSink

namespace World

/-- The same world with no recording sink in front of the sink. -/
def unrecorded (w : World) : World := { w with recorder := none }

section Unrecorded

variable (w : World)

theorem unrecorded_answer (r : Request) :
    w.unrecorded.answer r = ((w.answer r).1, (w.answer r).2.unrecorded) := by
  cases r with
  | inject event =>
    simp only [answer, inject_eq]
    rfl
  | rotate command =>
    simp only [answer, rotate, unrecorded]
    split <;> rfl
  | _ => rfl

theorem unrecorded_settle : w.unrecorded.settle = w.settle.unrecorded := rfl

variable {enough : World → Bool} (blind : ∀ v : World, enough v.unrecorded = enough v) (limit : Nat)

include blind

theorem unrecorded_passFrom (s : Schedule) :
    w.unrecorded.passFrom enough limit s = (w.passFrom enough limit s).unrecorded := by
  induction s generalizing w with
  | nil => rfl
  | cons m s ih =>
    have arrived : (w.unrecorded.arrive m.1 m.2).settle =
        (w.arrive m.1 m.2).settle.unrecorded := rfl
    simp only [passFrom, arrived, blind]
    split
    · split
      · rfl
      · exact ih _
    · split <;> rfl

theorem unrecorded_pass : w.unrecorded.pass enough limit = (w.pass enough limit).unrecorded := by
  have schedule (v : World) : v.unrecorded.schedule = v.schedule := rfl
  have ended (time : Nat) :
      w.unrecorded.passEnding enough time = (w.passEnding enough time).unrecorded := by
    simp only [passEnding, schedule, unrecorded_passFrom _ blind, blind]
    split <;> rfl
  have ending : w.unrecorded.ending = w.ending := rfl
  unfold pass
  rw [ending]
  split
  · exact w.unrecorded_passFrom blind limit _
  · split
    · exact w.unrecorded_passFrom blind limit _
    · simp only [ended, blind, schedule, unrecorded_passFrom _ blind]
      split <;> rfl

omit blind

theorem unrecorded_sleep (milliseconds : Nat) :
    w.unrecorded.sleep milliseconds = (w.sleep milliseconds).unrecorded := by
  unfold sleep
  split
  · rfl
  · exact w.settle.unrecorded_pass (fun _ => rfl) _

theorem unrecorded_await (id : Nat) :
    w.unrecorded.await id = ((w.await id).1, (w.await id).2.unrecorded) := by
  have outcome (v : World) : v.unrecorded.outcome? id = v.outcome? id := rfl
  have deadline (v : World) : v.unrecorded.deadline? id = v.deadline? id := rfl
  have passed (v : World) (limit : Nat) :
      v.unrecorded.pass (fun w => (w.outcome? id).isSome) limit =
        (v.pass (fun w => (w.outcome? id).isSome) limit).unrecorded :=
    v.unrecorded_pass (fun _ => rfl) limit
  simp only [await, unrecorded_settle, outcome, deadline]
  split
  · simp only [passed, unrecorded_settle, outcome]
    rfl
  · rfl

/-- Nothing depends on whether it is recorded. -/
theorem unrecorded_run {α : Type} (a : Activity α) (w : World) :
    w.unrecorded.run a = ((w.run a).1, (w.run a).2.unrecorded) := by
  induction a generalizing w with
  | done | stop => rfl
  | ask request next ih =>
    simp only [run, unrecorded_answer]
    exact ih _ _
  | sleep milliseconds next ih =>
    simp only [run, unrecorded_sleep]
    exact ih _
  | await wait next ih =>
    simp only [run, unrecorded_await]
    exact ih _ _

end Unrecorded

/-! What goes into the sink -/

/-- Some events have gone into the sink and the recorder in front of it. -/
def Offered (w v : World) (events : List InputEvent) : Prop :=
  v.sink = w.sink.offer events ∧
    v.recorder = w.recorder.map (RecordingSink.recorded (w.sink.judged events))

section Offered

variable {u v w : World} {first second : List InputEvent}

theorem offered_nothing (sink : v.sink = w.sink) (recorder : v.recorder = w.recorder) :
    Offered w v [] := by
  constructor
  · rw [sink, Sink.offer_nil]
  · rw [recorder]
    exact Option.map_id'.symm

theorem Offered.trans (h : Offered u v first) (k : Offered v w second) :
    Offered u w (first ++ second) := by
  obtain ⟨sink, recorder⟩ := h
  constructor
  · rw [k.1, sink, Sink.offer_append]
  · rw [k.2, recorder, sink, Option.map_map, Sink.judged_append]
    congr 1
    funext r
    exact (RecordingSink.recorded_append _ _ r).symm

theorem Alike.offered (h : Alike w v) : Offered w v [] := by
  obtain ⟨hub, schedule, ending, waits, opened, rfl⟩ := h
  exact offered_nothing rfl rfl

theorem offered_answer (w : World) (r : Request) : ∃ events, Offered w (w.answer r).2 events := by
  cases r with
  | inject event =>
    refine ⟨[event], ?_, ?_⟩
    · simp only [answer, inject_eq, Sink.inject_eq]
    · rw [RecordingSink.recorded_singleton]
      simp only [answer, inject_eq, Sink.inject_eq]
  | rotate command =>
    refine ⟨[], ?_⟩
    simp only [answer, rotate]
    split <;> exact offered_nothing rfl rfl
  | _ => exact ⟨[], offered_nothing rfl rfl⟩

theorem offered_run {α : Type} (a : Activity α) (w : World) :
    ∃ events, Offered w (w.run a).2 events := by
  induction a generalizing w with
  | done => exact ⟨[], offered_nothing rfl rfl⟩
  | stop => exact ⟨[], (closeAll_alike w).offered⟩
  | ask request next ih =>
    obtain ⟨first, here⟩ := w.offered_answer request
    obtain ⟨events, there⟩ := ih (w.answer request).1 (w.answer request).2
    exact ⟨first ++ events, here.trans there⟩
  | sleep milliseconds next ih =>
    obtain ⟨events, there⟩ := ih (w.sleep milliseconds)
    exact ⟨events, (sleep_alike w milliseconds).offered.trans there⟩
  | await wait next ih =>
    obtain ⟨events, there⟩ := ih (w.await wait).1 (w.await wait).2
    exact ⟨events, (await_alike w wait).offered.trans there⟩

end Offered

/-- Behind a recording sink an activity has the result that it has without one, and leaves the same
world; the sink has been handed the events that go into the plain sink. -/
theorem perform_behind {α : Type} (sink : RecordingSink) (arrivals : List (Nat × Notification))
    (a : Activity α) {w : World} (inner : w.sink = sink.inner) (plain : w.recorder = none) :
    ∃ events, (w.perform arrivals a).2.sink = w.sink.offer events ∧
      (w.behind sink).perform arrivals a = ((w.perform arrivals a).1,
        (w.perform arrivals a).2.behind (sink.offer events)) := by
  let start : World := { w.behind sink with schedule := Schedule.ofDelays w.now arrivals }
  have bare : { w with schedule := Schedule.ofDelays w.now arrivals } = start.unrecorded := by
    simp only [start, behind, unrecorded, ← inner, ← plain]
  obtain ⟨events, handed, recorded⟩ := start.offered_run a
  have after := RecordingSink.offer_eq sink.inner sink.recorder events
  refine ⟨events, ?_, ?_⟩
  · rw [perform_world, bare, unrecorded_run, inner]
    exact handed
  · have noted : (start.run a).2.recorder = some (sink.offer events).recorder :=
      recorded.trans (congrArg (fun s => some (RecordingSink.recorder s)) after).symm
    have taken : (start.run a).2.sink = (sink.offer events).inner :=
      handed.trans (congrArg RecordingSink.inner after).symm
    have whole : (start.run a).2 = (start.run a).2.unrecorded.behind (sink.offer events) := by
      rw [behind, ← noted, ← taken]
      rfl
    apply Prod.ext
    · rw [perform_result, perform_result, bare, unrecorded_run]
      rfl
    · rw [perform_world, perform_world, bare, unrecorded_run]
      exact congrArg (fun v => { closeAll v with schedule := [] }) whole

end World

end CorrelatedInput
