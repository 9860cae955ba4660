import CorrelatedInput.Proofs.Recording.Recorder
/-!
A recording sink is to its callers what the sink behind it is, and hands that sink what its callers
hand to it. Its recorder looks on: when it refuses to take note of an event, because the recording
is finished, nobody learns of it.
-/
namespace CorrelatedInput

/-! A sink by itself -/

namespace InjectionSink

variable {σ : Type} [InjectionSink σ]

/-- The verdicts of a sink on events that it is handed one by one, and the sink after them. -/
def offer (s : σ) : List InputEvent → List Injected × σ
  | [] => ([], s)
  | event :: events =>
    let (accepted, next) := inject s event
    let (log, last) := offer next events
    (⟨event, accepted⟩ :: log, last)

theorem offer_append (s : σ) (first second : List InputEvent) :
    offer s (first ++ second) = ((offer s first).1 ++ (offer (offer s first).2 second).1,
      (offer (offer s first).2 second).2) := by
  induction first generalizing s with
  | nil => rfl
  | cons event events ih => simp only [List.cons_append, offer, ih]

end InjectionSink

open InjectionSink (offer)

namespace RecordingSink

inductive Call where
  | inject (event : InputEvent)
  | summary
  | finish
deriving DecidableEq

inductive Answer where
  | verdict (accepted : Bool)
  | summary (s : Summary)
deriving DecidableEq

def Answer.verdict? : Answer → Option Bool
  | .verdict accepted => some accepted
  | .summary _ => none

section Calls

variable {σ : Type} [InjectionSink σ]

/-- The answer to a call, and the sink and the store of its file after it. -/
def serve (sink : RecordingSink σ) (s : Store) : Call → Answer × RecordingSink σ × Store
  | .inject event =>
    let (accepted, next) := sink.inject event
    (.verdict accepted, next, next.recorder.save sink.recorder.out s)
  | .summary => (.summary sink.recorder.summary, sink, s)
  | .finish =>
    (.summary sink.finish.recorder.summary, sink.finish,
      sink.finish.recorder.save sink.recorder.out s)

def serveAll (sink : RecordingSink σ) (s : Store) :
    List Call → List Answer × RecordingSink σ × Store
  | [] => ([], sink, s)
  | call :: calls =>
    let (answer, sink, s) := sink.serve s call
    let (answers, sink, s) := sink.serveAll s calls
    (answer :: answers, sink, s)

namespace Call

def event? : Call → Option InputEvent
  | .inject event => some event
  | .summary | .finish => none

def events (calls : List Call) : List InputEvent := calls.filterMap event?

/-- The calls before the first one to finish. -/
def early (calls : List Call) : List Call := calls.takeWhile (· ≠ .finish)

/-- What a sink by itself makes of the events that come before the first call to finish. -/
def log (inner : σ) (calls : List Call) : List Injected := (offer inner (events (early calls))).1

/-- What a call that comes after others should be answered: the verdict that the sink by itself
would pass, or the counts of what is recorded. -/
def answer (inner : σ) (before : List Call) : Call → Answer
  | .inject event => .verdict (InjectionSink.inject (offer inner (events before)).2 event).1
  | .summary | .finish => .summary (Recording.counts (log inner before))

def answers (inner : σ) (before : List Call) : List Call → List Answer
  | [] => []
  | call :: calls => call.answer inner before :: answers inner (before ++ [call]) calls

variable {before : List Call} (inner : σ)

theorem early_open (unfinished : .finish ∉ before) : early before = before :=
  List.takeWhile_eq_self_iff.mpr fun call hc => by
    simpa using fun same : call = .finish => unfinished (same ▸ hc)

theorem early_append (finished : .finish ∈ before) (more : List Call) :
    early (before ++ more) = early before := by
  rw [early, List.takeWhile_append, if_neg]
  · rfl
  · intro whole
    have all := (List.takeWhile_prefix (l := before) _).eq_of_length whole
    have never := List.takeWhile_eq_self_iff.mp all .finish finished
    simp at never

theorem log_append (finished : .finish ∈ before) (more : List Call) :
    log inner (before ++ more) = log inner before := by
  rw [log, early_append finished, log]

theorem log_inject (unfinished : .finish ∉ before) (event : InputEvent) :
    log inner (before ++ [.inject event]) = log inner before ++
      [⟨event, (InjectionSink.inject (offer inner (events before)).2 event).1⟩] := by
  have still : Call.finish ∉ before ++ [.inject event] := by simpa using unfinished
  rw [log, early_open still, log, early_open unfinished, events, List.filterMap_append,
    InjectionSink.offer_append]
  rfl

theorem log_other (unfinished : .finish ∉ before) (call : Call) (silent : call.event? = none) :
    log inner (before ++ [call]) = log inner before := by
  have heard : events (early [call]) = [] := by
    cases call with
    | inject => cases silent
    | summary | finish => rfl
  have each : early (before ++ [call]) = before ++ early [call] :=
    List.takeWhile_append_of_pos (List.takeWhile_eq_self_iff.mp (early_open unfinished))
  have same : events (early (before ++ [call])) = events (early before) := by
    rw [each, early_open unfinished]
    simpa [events] using heard
  rw [log, same, log]

end Call

/-- The calls up to now have left the sink and the recorder like this. -/
structure Stands (header : RecordingHeader) (path : String) (inner : σ) (before : List Call)
    (sink : RecordingSink σ) (s : Store) : Prop where
  behind : sink.inner = (offer inner (Call.events before)).2
  path : sink.recorder.path = path
  unfinished : .finish ∉ before →
    Recorder.Open header (Call.log inner before) sink.recorder s
  finished : .finish ∈ before →
    Recorder.Closed header (Call.log inner before) sink.recorder s

variable {header : RecordingHeader} {path : String} {log : List Injected} {inner : σ}
  {before : List Call} {sink : RecordingSink σ} {s : Store}

theorem serve_inject (sink : RecordingSink σ) (s : Store) (event : InputEvent) :
    sink.serve s (.inject event) =
      let (accepted, next) := InjectionSink.inject sink.inner event
      let (_, r, t) := sink.recorder.serve s (.record event accepted)
      (.verdict accepted, ⟨next, r⟩, t) := by
  simp only [serve, inject, note, Recorder.serve]
  cases sink.recorder.record event (InjectionSink.inject sink.inner event).1 with
  | ok r => rfl
  | error failure => simp only [Recorder.save_same]

theorem serve_finish (sink : RecordingSink σ) (s : Store) :
    sink.serve s .finish =
      let (_, r, t) := sink.recorder.serve s .finish
      (.summary r.summary, ⟨sink.inner, r⟩, t) := rfl

theorem serve_finished (closed : Recorder.Closed header log sink.recorder s) (call : Call) :
    (sink.serve s call).2.1.recorder = sink.recorder ∧ (sink.serve s call).2.2 = s := by
  cases call with
  | inject event =>
    simp only [serve_inject, closed.serve, and_self]
  | summary => exact ⟨rfl, rfl⟩
  | finish =>
    simp only [serve_finish, closed.serve, and_self]

theorem serveAll_finished (closed : Recorder.Closed header log sink.recorder s)
    (calls : List Call) :
    (sink.serveAll s calls).2.1.recorder = sink.recorder ∧ (sink.serveAll s calls).2.2 = s := by
  induction calls generalizing sink s with
  | nil => exact ⟨rfl, rfl⟩
  | cons call calls ih =>
    obtain ⟨recorder, store⟩ := serve_finished closed call
    have still : Recorder.Closed header log (sink.serve s call).2.1.recorder
        (sink.serve s call).2.2 := by
      rw [recorder, store]
      exact closed
    obtain ⟨last, kept⟩ := ih still
    exact ⟨last.trans recorder, kept.trans store⟩

/-- Whatever the recorder does, its sink passes events on and verdicts back. -/
theorem serveAll_inner (sink : RecordingSink σ) (s : Store) (calls : List Call) :
    (sink.serveAll s calls).1.filterMap Answer.verdict? =
        (offer sink.inner (Call.events calls)).1.map Injected.accepted ∧
      (sink.serveAll s calls).2.1.inner = (offer sink.inner (Call.events calls)).2 := by
  induction calls generalizing sink s with
  | nil => exact ⟨rfl, rfl⟩
  | cons call calls ih =>
    obtain ⟨verdicts, last⟩ := ih (sink.serve s call).2.1 (sink.serve s call).2.2
    cases call with
    | inject event =>
      refine ⟨?_, last⟩
      exact congrArg ((InjectionSink.inject sink.inner event).1 :: ·) verdicts
    | summary | finish => exact ⟨verdicts, last⟩

/-- A sink whose recording is finished is the sink behind it and nothing more. -/
theorem serveAll_after (closed : Recorder.Closed header log sink.recorder s) (more : List Call) :
    let later := offer sink.inner (Call.events more)
    ∃ answers, sink.serveAll s more = (answers, ⟨later.2, sink.recorder⟩, s) ∧
      answers.filterMap Answer.verdict? = later.1.map Injected.accepted := by
  intro later
  obtain ⟨verdicts, behind⟩ := serveAll_inner sink s more
  obtain ⟨recorder, store⟩ := serveAll_finished closed more
  refine ⟨(sink.serveAll s more).1, ?_, verdicts⟩
  generalize sink.serveAll s more = result at behind recorder store ⊢
  obtain ⟨answers, ⟨last, r⟩, u⟩ := result
  cases behind
  cases recorder
  cases store
  rfl

theorem Stands.summary (h : Stands header path inner before sink s) :
    sink.recorder.summary = Recording.counts (Call.log inner before) := by
  by_cases finish : .finish ∈ before
  · exact (h.finished finish).summary
  · exact (h.unfinished finish).summary

theorem Stands.answer (h : Stands header path inner before sink s) (call : Call) :
    (sink.serve s call).1 = call.answer inner before := by
  have counts := h.summary
  cases call with
  | inject event =>
    simp only [serve, inject, Call.answer, h.behind]
  | summary =>
    simp only [serve, Call.answer, counts]
  | finish =>
    simp only [serve, finish, Recorder.finish_summary, Call.answer, counts]

theorem Stands.serve (h : Stands header path inner before sink s) (call : Call) :
    Stands header path inner (before ++ [call]) (sink.serve s call).2.1
      (sink.serve s call).2.2 := by
  have behind : (sink.serve s call).2.1.inner =
      (offer inner (Call.events (before ++ [call]))).2 := by
    rw [Call.events, List.filterMap_append, InjectionSink.offer_append]
    have one := (serveAll_inner sink s [call]).2
    rw [h.behind] at one
    exact one
  -- the recorder takes part only as long as the recording is not finished
  by_cases finish : .finish ∈ before
  · obtain ⟨recorder, store⟩ := serve_finished (h.finished finish) call
    have closed : Recorder.Closed header (Call.log inner (before ++ [call]))
        (sink.serve s call).2.1.recorder (sink.serve s call).2.2 := by
      rw [recorder, store, Call.log_append inner finish]
      exact h.finished finish
    have still : Call.finish ∈ before ++ [call] := List.mem_append_left [call] finish
    exact ⟨behind, by rw [recorder, h.path], fun never => absurd still never, fun _ => closed⟩
  · have opened := h.unfinished finish
    cases call with
    | inject event =>
      obtain ⟨next, t, served, path, opened⟩ :=
        opened.record event (InjectionSink.inject sink.inner event).1
      have after := serve_inject sink s event
      simp only [served] at after
      rw [h.behind, ← Call.log_inject inner finish event] at opened
      rw [after] at behind ⊢
      exact ⟨behind, path.trans h.path, fun _ => opened,
        fun last => absurd (by simpa using last) finish⟩
    | summary =>
      rw [← Call.log_other inner finish .summary rfl] at opened
      exact ⟨behind, h.path, fun _ => opened, fun last => absurd (by simpa using last) finish⟩
    | finish =>
      obtain ⟨next, t, served, path, closed⟩ := opened.finish
      have after := serve_finish sink s
      simp only [served] at after
      rw [← Call.log_other inner finish .finish rfl] at closed
      rw [after] at behind ⊢
      exact ⟨behind, path.trans h.path, fun never => absurd (by simp) never, fun _ => closed⟩

theorem Stands.serveAll (h : Stands header path inner before sink s) (calls : List Call) :
    (sink.serveAll s calls).1 = Call.answers inner before calls ∧
      Stands header path inner (before ++ calls) (sink.serveAll s calls).2.1
        (sink.serveAll s calls).2.2 := by
  induction calls generalizing before sink s with
  | nil =>
    rw [List.append_nil]
    exact ⟨rfl, h⟩
  | cons call calls ih =>
    obtain ⟨answers, last⟩ := ih (h.serve call)
    rw [List.append_assoc, List.singleton_append] at last
    refine ⟨?_, last⟩
    simp only [RecordingSink.serveAll, Call.answers, h.answer call, answers]

theorem stands_of_create {r : Recorder} {t : Store} (inner : σ)
    (created : (Recorder.create path header).perform s = (.ok r, t)) :
    Stands header path inner [] ⟨inner, r⟩ t := by
  obtain ⟨rfl, opened⟩ := Recorder.create_open created
  exact ⟨rfl, rfl, fun _ => opened, fun last => by cases last⟩

theorem of_create {epochWall : String} {t : Store}
    (created : (create inner path epochWall).perform s = (.ok sink, t)) :
    sink.inner = inner ∧
      (Recorder.create path (RecordingSink.header epochWall (InjectionSink.name inner))).perform s =
        (.ok sink.recorder, t) := by
  obtain ⟨r, u, opened, made⟩ := Access.of_perform_bind created
  cases made
  exact ⟨rfl, opened⟩

end Calls

/-- Recording is transparent. Whatever sink there is behind it, a recording sink passes the verdicts
that this sink would pass by itself, and leaves it as the events by themselves would leave it. It
counts the outcomes before the first call to finish; from then on neither what it counts nor its
file changes, while events still go to the sink and verdicts come back. -/
theorem recording_is_transparent {σ : Type} [InjectionSink σ] (inner : σ) {path : String}
    {header : RecordingHeader} {s t : Store} {r : Recorder}
    (created : (Recorder.create path header).perform s = (.ok r, t)) (calls : List Call) :
    let bare := offer inner (Call.events calls)
    let log := Call.log inner calls
    let answers := Call.answers inner [] calls
    ∃ sink u, serveAll ⟨inner, r⟩ t calls = (answers, sink, u) ∧
      answers.filterMap Answer.verdict? = bare.1.map Injected.accepted ∧
      sink.inner = bare.2 ∧
      sink.recorder.summary = Recording.counts log ∧
      (log.length < UInt64.size →
        sink.recorder.summary.accepted.toNat = (Recording.accepted log).length ∧
          sink.recorder.summary.rejected.toNat = (Recording.rejected log).length) ∧
      (.finish ∈ calls →
        (∃ text, u.readText path = .ok text ∧
          parseEvents text.toList = .ok (Recording.accepted log) ∧
          Recording.rejectedEvents text.toList = .ok (Recording.rejected log) ∧
          Recording.summary? text.toList = some (Recording.counts log)) ∧
        ∀ more,
          let later := offer bare.2 (Call.events more)
          ∃ answers, sink.serveAll u more = (answers, ⟨later.2, sink.recorder⟩, u) ∧
            answers.filterMap Answer.verdict? = later.1.map Injected.accepted) := by
  intro bare log answers
  obtain ⟨answered, stands⟩ := (stands_of_create inner created).serveAll calls
  obtain ⟨verdicts, behind⟩ := serveAll_inner ⟨inner, r⟩ t calls
  rw [answered] at verdicts
  refine ⟨_, _, Prod.ext answered rfl, verdicts, behind, stands.summary, ?_, ?_⟩
  · rw [stands.summary]
    exact Recording.counts_exact
  · intro finish
    have closed := stands.finished finish
    refine ⟨?_, ?_⟩
    · rw [← stands.path]
      exact closed.reads
    · intro more later
      have after := serveAll_after closed more
      rw [behind] at after
      exact after

/-- A key whose press is rejected; pressed once more when the recording is finished, it is taken. -/
theorem recording_is_transparent_key :
    let down : InputEvent := .key (.stamped 5 .down 66 0)
    let up : InputEvent := .key (.stamped 9 .up 66 0)
    let calls : List Call :=
      [.inject down, .summary, .inject up, .finish, .inject down, .summary, .finish]
    ∃ sink t, (create (Sink.rejecting [0]) "keys.jsonl" "now").perform Store.empty = (.ok sink, t) ∧
      ∃ last u, sink.serveAll t calls =
          ([.verdict false, .summary ⟨0, 1⟩, .verdict true, .summary ⟨1, 1⟩, .verdict true,
            .summary ⟨1, 1⟩, .summary ⟨1, 1⟩], last, u) ∧
        last.inner.log = #[⟨down, false⟩, ⟨up, true⟩, ⟨down, true⟩] ∧
        ∃ text, u.readText "keys.jsonl" = .ok text ∧
          parseEvents text.toList = .ok [up] ∧
          Recording.rejectedEvents text.toList = .ok [down] ∧
          Recording.summary? text.toList = some ⟨1, 1⟩ := by
  intro down up calls
  obtain ⟨⟨inner, r⟩, t, made⟩ : ∃ sink t,
      (create (Sink.rejecting [0]) "keys.jsonl" "now").perform Store.empty = (.ok sink, t) :=
    ⟨⟨.rejecting [0], Recorder.start "keys.jsonl" ["keys.jsonl"] (header "now")⟩, _, rfl⟩
  obtain ⟨rfl, created⟩ := of_create made
  obtain ⟨last, u, answers, _, behind, _, _, ended⟩ :=
    recording_is_transparent (Sink.rejecting [0]) created calls
  obtain ⟨read, _⟩ := ended (by simp [calls])
  exact ⟨_, t, made, last, u, answers, congrArg Sink.log behind, read⟩

end RecordingSink

end CorrelatedInput
