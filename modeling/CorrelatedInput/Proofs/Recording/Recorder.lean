import CorrelatedInput.Proofs.Recording.Buffer
import CorrelatedInput.Proofs.Recording.Text
import CorrelatedInput.Proofs.Storage.Store
import CorrelatedInput.Recording.Recorder
/-!
A recorder from its creation on, whatever it is asked in whatever order. While it is open its
buffer and its file hold together what was recorded; once it is finished the file holds all of it,
and nothing changes any more.
-/
namespace CorrelatedInput.Recorder

inductive Call where
  | record (event : InputEvent) (accepted : Bool)
  | finish
deriving DecidableEq

inductive Answer where
  | recorded
  | refused (failure : Failure)
  | summary (s : Summary)
deriving DecidableEq

/-- The answer to a call, and the recorder and the store of its file after it. -/
def serve (r : Recorder) (s : Store) : Call → Answer × Recorder × Store
  | .record event accepted =>
    match r.record event accepted with
    | .ok next => (.recorded, next, next.save r.out s)
    | .error failure => (.refused failure, r, s)
  | .finish => (.summary r.finish.summary, r.finish, r.finish.save r.out s)

def serveAll (r : Recorder) (s : Store) : List Call → List Answer × Recorder × Store
  | [] => ([], r, s)
  | call :: calls =>
    let (answer, r, s) := r.serve s call
    let (answers, r, s) := r.serveAll s calls
    (answer :: answers, r, s)

/-- What is recorded: the outcomes up to the first call to finish. -/
def Call.log : List Call → List Injected
  | .record event accepted :: calls => ⟨event, accepted⟩ :: log calls
  | .finish :: _ => []
  | [] => []

/-- What is answered: every outcome is taken until the recorder is `finished`, and none after
that. To finish brings the same summary each time. -/
def Call.answers (path : String) (s : Summary) : Bool → List Call → List Answer
  | _, [] => []
  | true, .record _ _ :: calls =>
    .refused (Failure.recordingFinished path) :: answers path s true calls
  | false, .record _ _ :: calls => .recorded :: answers path s false calls
  | _, .finish :: calls => .summary s :: answers path s true calls

/-- Nothing is finished: the summary counts what was recorded, the text holds it, and the file as
much of the text as has left the buffer. -/
structure Open (header : RecordingHeader) (log : List Injected) (r : Recorder) (s : Store) :
    Prop where
  unfinished : r.finished = false
  summary : r.summary = Recording.counts log
  text : r.out.text.toList = Recording.openText header log
  file : s.Holds r.path r.file r.out.saved

/-- All is finished: the file holds what was recorded and the summary of it. -/
structure Closed (header : RecordingHeader) (log : List Injected) (r : Recorder) (s : Store) :
    Prop where
  finished : r.finished = true
  summary : r.summary = Recording.counts log
  text : r.out.saved.toList = Recording.finishedText header log (Recording.counts log)
  file : s.Holds r.path r.file r.out.saved

/-- Nothing is finished: the summary counts what was recorded, and the text holds it. -/
structure Written (header : RecordingHeader) (log : List Injected) (r : Recorder) : Prop where
  unfinished : r.finished = false
  summary : r.summary = Recording.counts log
  text : r.out.text.toList = Recording.openText header log

/-- The second recorder came of the first one by writing. -/
structure Grows (r next : Recorder) : Prop where
  path : next.path = r.path
  file : next.file = r.file
  out : r.out.Precedes next.out

theorem Grows.refl (r : Recorder) : Grows r r := ⟨rfl, rfl, .refl r.out⟩

theorem Grows.trans {r next last : Recorder} (h : Grows r next) (k : Grows next last) :
    Grows r last :=
  ⟨k.path.trans h.path, k.file.trans h.file, h.out.trans k.out⟩

section Steps

variable {header : RecordingHeader} {log : List Injected} {r next : Recorder} {s : Store}

theorem writeLine_precedes (start json : List Char) (b : Buffer) :
    Buffer.Precedes b (writeLine start json b) :=
  (Buffer.write_precedes _ b).trans
    ((Buffer.write_precedes _ _).trans (Buffer.write_precedes _ _))

theorem writeLine_text (start json : List Char) (b : Buffer) :
    (writeLine start json b).text.toList = b.text.toList ++ (start ++ json ++ ['\n']) := by
  simp [writeLine]

theorem save_holds (file : s.Holds r.path r.file r.out.saved) (grows : Grows r next) :
    (next.save r.out s).Holds next.path next.file next.out.saved := by
  obtain ⟨more, saved⟩ := grows.out
  rw [save, Buffer.sentSince_eq saved, grows.path, grows.file, saved]
  exact file.append more

theorem save_same (r : Recorder) (s : Store) : r.save r.out s = s := by
  have none : Buffer.sentSince r.out r.out = ByteArray.empty :=
    Buffer.sentSince_eq (String.append_empty).symm
  rw [save, none, Store.writeAt_empty]

theorem finish_summary (r : Recorder) : r.finish.summary = r.summary := by
  unfold Recorder.finish
  split <;> rfl

theorem Open.written (h : Open header log r s) : Written header log r :=
  ⟨h.unfinished, h.summary, h.text⟩

theorem Written.record (h : Written header log r) (event : InputEvent) (accepted : Bool) :
    ∃ next, r.record event accepted = .ok next ∧ Grows r next ∧
      Written header (log ++ [⟨event, accepted⟩]) next := by
  let start := if accepted then [] else Recording.rejection
  let next := { r with
    out := writeLine start event.toText r.out, summary := r.summary.add accepted }
  have taken : r.record event accepted = .ok next := by simp [Recorder.record, h.unfinished, next,
    start]
  have grows : Grows r next := ⟨rfl, rfl, writeLine_precedes start event.toText r.out⟩
  refine ⟨next, taken, grows, h.unfinished, ?_, ?_⟩
  · exact (congrArg (·.add accepted) h.summary).trans (Recording.counts_add log ⟨event, accepted⟩)
  · rw [← Recording.openText_append, ← h.text]
    exact writeLine_text start event.toText r.out

theorem Open.record (h : Open header log r s) (event : InputEvent) (accepted : Bool) :
    ∃ next t, r.serve s (.record event accepted) = (.recorded, next, t) ∧ next.path = r.path ∧
      Open header (log ++ [⟨event, accepted⟩]) next t := by
  obtain ⟨next, taken, grows, written⟩ := h.written.record event accepted
  refine ⟨next, next.save r.out s, ?_, grows.path, written.unfinished, written.summary,
    written.text, save_holds h.file grows⟩
  simp only [serve, taken]

/-- However much was written since the file was last saved, to finish saves all of it. -/
theorem Written.finish (h : Written header log next) (grows : Grows r next)
    (file : s.Holds r.path r.file r.out.saved) :
    Closed header log next.finish (next.finish.save r.out s) ∧ next.finish.path = r.path := by
  let line := writeLine Recording.remark next.summary.toValue.write next.out
  let last := { next with out := line.flush, finished := true }
  have finished : next.finish = last := by simp [Recorder.finish, h.unfinished, last, line]
  have more : Grows next last :=
    ⟨rfl, rfl, (writeLine_precedes _ _ next.out).trans (Buffer.flush_precedes line)⟩
  have saved : last.out.saved = line.text := rfl
  rw [finished]
  refine ⟨⟨rfl, h.summary, ?_, save_holds file (grows.trans more)⟩, grows.path⟩
  rw [saved, ← Recording.openText_finished, ← h.text, ← h.summary]
  exact writeLine_text Recording.remark next.summary.toValue.write next.out

theorem Open.finish (h : Open header log r s) :
    ∃ next t, r.serve s .finish = (.summary (Recording.counts log), next, t) ∧
      next.path = r.path ∧ Closed header log next t := by
  obtain ⟨closed, path⟩ := h.written.finish (.refl r) h.file
  refine ⟨r.finish, r.finish.save r.out s, ?_, path, closed⟩
  rw [serve, closed.summary]

/-- What the file of a finished recorder gives back. -/
theorem Closed.reads (h : Closed header log r s) :
    ∃ text, s.readText r.path = .ok text ∧
      parseEvents text.toList = .ok (Recording.accepted log) ∧
      Recording.rejectedEvents text.toList = .ok (Recording.rejected log) ∧
      Recording.summary? text.toList = some (Recording.counts log) := by
  refine ⟨r.out.saved, h.file.readText, ?_⟩
  rw [h.text]
  exact ⟨Recording.parseEvents_finishedText header log _,
    Recording.rejectedEvents_finishedText header log _,
    Recording.summary?_finishedText header log _⟩

theorem Closed.serve (h : Closed header log r s) (call : Call) :
    r.serve s call = (match call with
      | .record _ _ => .refused (Failure.recordingFinished r.path)
      | .finish => .summary (Recording.counts log), r, s) := by
  cases call with
  | record event accepted => simp [Recorder.serve, Recorder.record, h.finished]
  | finish =>
    have same : r.finish = r := by simp [Recorder.finish, h.finished]
    simp only [Recorder.serve, same, save_same, h.summary]

end Steps

/-! Runs -/

section Runs

variable {header : RecordingHeader} {log : List Injected} {r : Recorder} {s : Store}

theorem Closed.serveAll (h : Closed header log r s) (calls : List Call) :
    r.serveAll s calls = (Call.answers r.path (Recording.counts log) true calls, r, s) := by
  induction calls with
  | nil => rfl
  | cons call calls ih =>
    simp only [Recorder.serveAll, h.serve call, ih]
    cases call <;> rfl

theorem Open.serveAll (h : Open header log r s) (calls : List Call) :
    ∃ next t, r.serveAll s calls =
        (Call.answers r.path (Recording.counts (log ++ Call.log calls)) false calls, next, t) ∧
      (.finish ∈ calls → Closed header (log ++ Call.log calls) next t ∧ next.path = r.path) := by
  -- the log grows with every outcome, until the first call to finish closes it
  induction calls generalizing log r s with
  | nil =>
    refine ⟨r, s, rfl, ?_⟩
    intro finish
    cases finish
  | cons call calls ih =>
    cases call with
    | record event accepted =>
      obtain ⟨next, t, answer, path, after⟩ := h.record event accepted
      obtain ⟨last, u, answers, closed⟩ := ih after
      rw [path, List.append_assoc] at answers closed
      refine ⟨last, u, ?_, ?_⟩
      · simp only [Recorder.serveAll, answer, answers]
        rfl
      · intro finish
        exact closed (by simpa using finish)
    | finish =>
      obtain ⟨next, t, answer, path, closed⟩ := h.finish
      refine ⟨next, t, ?_, ?_⟩
      · simp only [Recorder.serveAll, answer, closed.serveAll calls, path, Call.log,
          List.append_nil, Call.answers]
      · intro _
        exact ⟨by simpa [Call.log] using closed, path⟩

end Runs

theorem start_open {path : String} {place : Place} {s : Store} (header : RecordingHeader)
    (file : s.Holds path place "") :
    Open header [] (start path place header) ((start path place header).save .empty s) := by
  have text := writeLine_text Recording.remark header.toValue.write .empty
  have grows := writeLine_precedes Recording.remark header.toValue.write .empty
  unfold start
  -- from here on it does not matter what the line says
  generalize writeLine Recording.remark header.toValue.write .empty = out at text grows ⊢
  let blank : Recorder := ⟨path, place, .empty, .zero, false⟩
  refine ⟨rfl, rfl, ?_, save_holds (r := blank) file ⟨rfl, rfl, grows⟩⟩
  have none : Buffer.empty.text = "" := rfl
  simpa [none, Recording.openText] using text

theorem create_open {path : String} {header : RecordingHeader} {s t : Store} {r : Recorder}
    (created : (create path header).perform s = (.ok r, t)) :
    r.path = path ∧ Open header [] r t := by
  obtain ⟨_, _, _, created⟩ := Access.of_perform_bind created
  obtain ⟨place, u, made, started⟩ := Access.of_perform_bind created
  cases started
  exact ⟨rfl, start_open header (Access.writeBytes_holds made)⟩

/-- A recording gives back what was recorded before the first call to finish. Until then every
outcome is taken, and from then on neither the file nor the summary changes. -/
theorem recording_gives_back {path : String} {header : RecordingHeader} {s t : Store}
    {r : Recorder} (created : (create path header).perform s = (.ok r, t)) (calls : List Call) :
    let log := Call.log calls
    let counts := Recording.counts log
    ∃ next u, r.serveAll t calls = (Call.answers path counts false calls, next, u) ∧
      (.finish ∈ calls →
        next.summary = counts ∧
        (∀ more, next.serveAll u more = (Call.answers path counts true more, next, u)) ∧
        ∃ text, u.readText path = .ok text ∧
          parseEvents text.toList = .ok (Recording.accepted log) ∧
          Recording.rejectedEvents text.toList = .ok (Recording.rejected log) ∧
          Recording.summary? text.toList = some counts) := by
  intro log counts
  obtain ⟨rfl, opened⟩ := create_open created
  obtain ⟨next, u, answers, ended⟩ := opened.serveAll calls
  refine ⟨next, u, answers, ?_⟩
  intro finish
  obtain ⟨closed, path⟩ := ended finish
  have closed : Closed header log next u := closed
  have written := closed.file.readText
  rw [path] at written
  refine ⟨closed.summary, ?_, next.out.saved, written, ?_⟩
  · intro more
    rw [closed.serveAll more, path]
  · rw [closed.text]
    exact ⟨Recording.parseEvents_finishedText header log counts,
      Recording.rejectedEvents_finishedText header log counts,
      Recording.summary?_finishedText header log counts⟩

/-- One key that was accepted and one that was not, and a third that came too late. -/
theorem recording_gives_back_two :
    let header : RecordingHeader := ⟨"1.0", "now\n# rejected", "memory"⟩
    let down : InputEvent := .key (.stamped 5 .down 66 0)
    let up : InputEvent := .key (.stamped 9 .up 66 0)
    let calls : List Call :=
      [.record down true, .record up false, .finish, .record up true, .finish]
    ∃ r t, (create "keys.jsonl" header).perform Store.empty = (.ok r, t) ∧
      ∃ next u, r.serveAll t calls =
          ([.recorded, .recorded, .summary ⟨1, 1⟩,
            .refused (.injection "Recording keys.jsonl is already finished"), .summary ⟨1, 1⟩],
            next, u) ∧
        ∃ text, u.readText "keys.jsonl" = .ok text ∧
          parseEvents text.toList = .ok [down] ∧
          Recording.rejectedEvents text.toList = .ok [up] ∧
          Recording.summary? text.toList = some ⟨1, 1⟩ := by
  intro header down up calls
  obtain ⟨r, t, created⟩ : ∃ r t, (create "keys.jsonl" header).perform Store.empty = (.ok r, t) :=
    ⟨start "keys.jsonl" ["keys.jsonl"] header, _, rfl⟩
  have counts : Recording.counts (Call.log calls) = ⟨1, 1⟩ := rfl
  have taken : Recording.accepted (Call.log calls) = [down] := rfl
  have refused : Recording.rejected (Call.log calls) = [up] := rfl
  obtain ⟨next, u, answers, ended⟩ := recording_gives_back created calls
  obtain ⟨_, _, read⟩ := ended (by simp [calls])
  rw [taken, refused, counts] at read
  rw [counts] at answers
  exact ⟨r, t, created, next, u, answers, read⟩

end CorrelatedInput.Recorder
