import CorrelatedInput.Proofs.Gesture.WallClock
import CorrelatedInput.Proofs.Input.EventText
import CorrelatedInput.Proofs.Recording.Sink
import CorrelatedInput.Proofs.Run.Recorded
import CorrelatedInput.Terminal.Program
import Mathlib.Algebra.Order.Ring.Nat
/-!
Plans that are printed and plans that are recorded. Whatever a gesture does, its sink logs the
events it is handed, and where plans are performed it accepts them all. Behind a recording sink the
gesture does the same, and what is recorded is that log, so the two outputs of a plan hold the same
events.
-/
namespace CorrelatedInput

namespace Recording

theorem of_accepts {s : Sink} {events : List InputEvent} (all : s.accepts events) :
    accepted (s.judged events) = events ∧ rejected (s.judged events) = [] ∧
      counts (s.judged events) = ⟨UInt64.ofNat events.length, 0⟩ := by
  have each := s.accepts_iff events |>.mp all
  have taken : accepted (s.judged events) = events := by
    rw [accepted, List.filter_eq_self.mpr each, Sink.judged_events]
  have refused : rejected (s.judged events) = [] := by
    rw [rejected, List.filter_eq_nil_iff.mpr fun i hi => by simp [each i hi], List.map_nil]
  exact ⟨taken, refused, by rw [counts, taken, refused]; rfl⟩

end Recording

/-! What a recording sink writes -/

namespace RecordingSink

section Recorded

variable {header : RecordingHeader} {log : List Injected} {r next : Recorder}

theorem recorded_written (h : Recorder.Written header log r) (more : List Injected) :
    Recorder.Grows r (recorded more r) ∧
      Recorder.Written header (log ++ more) (recorded more r) := by
  induction more generalizing log r with
  | nil =>
    rw [List.append_nil]
    exact ⟨.refl r, h⟩
  | cons i more ih =>
    obtain ⟨next, taken, grows, written⟩ := h.record i.event i.accepted
    have noted : note i.event i.accepted r = next := by rw [note, taken]
    obtain ⟨further, all⟩ := ih written
    rw [List.append_assoc] at all
    change Recorder.Grows r (recorded more (note i.event i.accepted r)) ∧
      Recorder.Written header _ (recorded more (note i.event i.accepted r))
    rw [noted]
    exact ⟨grows.trans further, all⟩

/-- What a recording sink has written once it was handed some events and is finished. -/
theorem offer_reads {path : String} {s t : Store}
    (created : (Recorder.create path header).perform s = (.ok r, t)) (inner : Sink)
    (events : List InputEvent) :
    let sink := offer ⟨inner, r⟩ events
    let log := inner.judged events
    sink.recorder.summary = Recording.counts log ∧
      ∃ text, (sink.finish.recorder.save r.out t).readText path = .ok text ∧
        parseEvents text.toList = .ok (Recording.accepted log) ∧
        Recording.rejectedEvents text.toList = .ok (Recording.rejected log) ∧
        Recording.summary? text.toList = some (Recording.counts log) := by
  obtain ⟨rfl, opened⟩ := Recorder.create_open created
  obtain ⟨grows, written⟩ := recorded_written opened.written (inner.judged events)
  obtain ⟨closed, place⟩ := written.finish grows opened.file
  simp only [offer_eq]
  refine ⟨written.summary, ?_⟩
  obtain ⟨text, found, contents⟩ := closed.reads
  rw [place] at found
  exact ⟨text, found, contents⟩

end Recorded

end RecordingSink

namespace Terminal

theorem recordedMessage_all (accepted : UInt64) (path : String) :
    recordedMessage ⟨accepted, 0⟩ path =
      "Recorded " ++ accepted.toNat.repr ++ " events (0 rejected) to " ++ path ++ "\n" := by
  have words : " events (0 rejected) to " =
      " events (" ++ (0 : UInt64).toNat.repr ++ " rejected) to " := by decide
  simp only [recordedMessage, words, String.append_assoc]

section Plan

variable {plan : Plan} {timing : Timing} {path out : String} {wall wall' : Nat} {s s' t : Store}
  {sink : RecordingSink}

/-- How a gesture ends, and the world it leaves. -/
def performance (plan : Plan) (timing : Timing) (wall : Nat) :
    Except Overflow (Except Failure Bool) × World :=
  (stage timing).perform [] (plan.activity ((Controller.fresh ⟨0, wall⟩).withTiming timing))

theorem activity_withWall (plan : Plan) (wall : Nat) (c : Controller) :
    plan.activity (c.withWall wall) = plan.activity c := by
  cases plan with
  | swipe | path | pinch | text =>
    simp [Plan.activity, Controller.swipe, Controller.swipePath]
  | click | longTap | key => rfl

theorem performance_wall (plan : Plan) (timing : Timing) (wall wall' : Nat) :
    performance plan timing wall' = performance plan timing wall := by
  have same := activity_withWall plan wall' ((Controller.fresh ⟨0, wall⟩).withTiming timing)
  exact congrArg (World.perform [] · (stage timing)) same

/-- The events that a gesture hands over, with a recording sink in between or without. -/
theorem performance_behind (plan : Plan) (timing : Timing) (wall : Nat) (sink : RecordingSink)
    (inner : sink.inner = .rejecting []) :
    ∃ events, (performance plan timing wall).2.sink = (Sink.rejecting []).offer events ∧
      ((stage timing).behind sink).perform []
          (plan.activity ((Controller.fresh ⟨0, wall⟩).withTiming timing)) =
        ((performance plan timing wall).1,
          (performance plan timing wall).2.behind (sink.offer events)) :=
  World.perform_behind sink [] _ inner.symm rfl

theorem log_of_offers {w : World} {events : List InputEvent}
    (offers : w.sink = (Sink.rejecting []).offer events) :
    w.sink.log.toList = (Sink.rejecting []).judged events := by
  rw [offers]
  simp [Sink.offer, Sink.rejecting]

theorem printed_of_runPlan (printed : (runPlan plan none timing wall s).ending = .printed out) :
    (∃ done, (performance plan timing wall).1 = .ok (.ok done)) ∧
      out = String.ofList (serializeEvents
        ((performance plan timing wall).2.sink.log.toList.map Injected.event)) := by
  unfold performance
  simp only [runPlan] at printed
  generalize (stage timing).perform [] _ = performed at printed ⊢
  obtain ⟨cause | failure | done, world⟩ := performed
  · cases printed
  · cases printed
  · cases printed
    exact ⟨⟨done, rfl⟩, rfl⟩

theorem runPlan_recorded {done : Bool} {events : List InputEvent}
    (behind : ((stage timing).behind sink).perform []
      (plan.activity ((Controller.fresh ⟨0, wall⟩).withTiming timing)) =
        (.ok (.ok done), (performance plan timing wall).2.behind (sink.offer events)))
    (created : (RecordingSink.create (Sink.rejecting []) path
      (Clock.epochWall ⟨0, wall⟩)).perform s = (.ok sink, t)) :
    let last := sink.offer events
    let result := runPlan plan (some path) timing wall s
    result.ending = .printed (recordedMessage last.recorder.summary path) ∧
      result.store = last.finish.recorder.save sink.recorder.out t := by
  have front : (stage timing).sink = .rejecting [] := rfl
  simp only [runPlan, front, created, behind]
  exact ⟨rfl, rfl⟩

/-- The two outputs of a plan agree. If its gesture comes to its end, and the file can be made, the
text that is printed and the file that is written hold the same events, whenever the two runs take
place and whatever else was stored. The file is the one that a recording sink writes that is handed
these events one by one; nothing in it is rejected, and its summary and the message count the events
that are printed, in a word of 64 bits. -/
theorem printed_as_recorded (plan : Plan) (timing : Timing)
    (printed : (runPlan plan none timing wall s).ending = .printed out)
    (created : (RecordingSink.create (Sink.rejecting []) path
      (Clock.epochWall ⟨0, wall'⟩)).perform s' = (.ok sink, t)) :
    let result := runPlan plan (some path) timing wall' s'
    ∃ events text, parseEvents out.toList = .ok events ∧
      result.store.readText path = .ok text ∧ parseEvents text.toList = .ok events ∧
      Recording.rejectedEvents text.toList = .ok [] ∧
      Recording.summary? text.toList = some ⟨UInt64.ofNat events.length, 0⟩ ∧
      result.ending = .printed ("Recorded " ++ (UInt64.ofNat events.length).toNat.repr ++
        " events (0 rejected) to " ++ path ++ "\n") ∧
      (events.length < 2 ^ 64 → (UInt64.ofNat events.length).toNat = events.length) ∧
      result.store = (sink.offer events).finish.recorder.save sink.recorder.out t := by
  intro result
  obtain ⟨⟨done, ends⟩, rfl⟩ := printed_of_runPlan printed
  obtain ⟨inner, opened⟩ := RecordingSink.of_create created
  -- the second run stamps its events as the first one does, whatever the wall clock shows
  rw [← performance_wall plan timing wall wall'] at ends ⊢
  obtain ⟨events, offers, behind⟩ := performance_behind plan timing wall' sink inner
  rw [ends] at behind
  obtain ⟨message, store⟩ := runPlan_recorded behind created
  obtain ⟨taken, refused, counts⟩ := Recording.of_accepts
    (Sink.accepts_of_tolerant (.rejecting []) events rfl)
  obtain ⟨counted, text, found, parsed, none, summary⟩ :=
    RecordingSink.offer_reads opened (.rejecting []) events
  rw [taken] at parsed
  rw [refused] at none
  rw [counts] at counted summary
  rw [log_of_offers offers, Sink.judged_events, String.toList_ofList]
  have whole : sink = ⟨.rejecting [], sink.recorder⟩ := by rw [← inner]
  rw [whole, counted, recordedMessage_all] at message
  refine ⟨events, text, (serializeEvents_dressed events).parse, ?_, parsed, none, summary, message,
    UInt64.toNat_ofNat_of_lt', store⟩
  rw [store, whole]
  exact found

/-- A tap that is planned twice, the second time a second later and into a file. -/
theorem printed_as_recorded_click :
    let plan : Plan := .click ⟨-3, 7⟩
    let session : TouchSession := ⟨0⟩
    let events := [session.down ⟨-3, 7⟩, session.event 100 .up ⟨-3, 7⟩]
    let out := String.ofList (serializeEvents events)
    let result := runPlan plan (some "taps.jsonl") {} 1000 Store.empty
    (runPlan plan none {} 0 Store.empty).ending = .printed out ∧
      (∃ sink t, (RecordingSink.create (Sink.rejecting []) "taps.jsonl"
        (Clock.epochWall ⟨0, 1000⟩)).perform Store.empty = (.ok sink, t)) ∧
      result.ending = .printed "Recorded 2 events (0 rejected) to taps.jsonl\n" ∧
      ∃ text, result.store.readText "taps.jsonl" = .ok text ∧
        parseEvents text.toList = .ok events ∧ Recording.rejectedEvents text.toList = .ok [] ∧
        Recording.summary? text.toList = some ⟨2, 0⟩ := by
  intro plan session events out result
  have printed : (runPlan plan none {} 0 Store.empty).ending = .printed out := rfl
  obtain ⟨sink, t, created⟩ : ∃ sink t, (RecordingSink.create (Sink.rejecting []) "taps.jsonl"
      (Clock.epochWall ⟨0, 1000⟩)).perform Store.empty = (.ok sink, t) :=
    ⟨⟨.rejecting [], Recorder.start "taps.jsonl" ["taps.jsonl"] _⟩, _, rfl⟩
  obtain ⟨found, text, read, written, parsed, none, summary, message, _⟩ :=
    printed_as_recorded plan {} printed created
  have same : parseEvents out.toList = .ok events := by
    rw [String.toList_ofList]
    exact (serializeEvents_dressed events).parse
  obtain rfl : events = found := Except.ok.inj (same.symm.trans read)
  have counted : result.ending = .printed "Recorded 2 events (0 rejected) to taps.jsonl\n" :=
    message.trans (by decide +kernel)
  exact ⟨printed, ⟨sink, t, created⟩, counted, text, written, parsed, none, summary⟩

end Plan

end Terminal

end CorrelatedInput
