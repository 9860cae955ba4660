import CorrelatedInput.Input.Sink
import CorrelatedInput.Recording.Buffer
import CorrelatedInput.Recording.Text
import CorrelatedInput.Storage.Store
/-!
Writing a recording. A finished recording takes no more events: it says so, and neither its text
nor its summary changes any more.
-/
namespace CorrelatedInput

structure Recorder where
  path : String
  /-- The file that was opened under the path. -/
  file : Place
  out : Buffer
  summary : Summary
  finished : Bool
deriving DecidableEq, Repr

namespace Recorder

def writeLine (start json : List Char) (b : Buffer) : Buffer :=
  ((b.write (String.ofList start)).write (String.ofList json)).write "\n"

def start (path : String) (file : Place) (header : RecordingHeader) : Recorder :=
  ⟨path, file, writeLine Recording.remark header.toValue.write .empty, .zero, false⟩

def record (event : InputEvent) (accepted : Bool) (r : Recorder) : Except Failure Recorder :=
  if r.finished then .error (Failure.recordingFinished r.path)
  else .ok { r with
    out := writeLine (if accepted then [] else Recording.rejection) event.toText r.out
    summary := r.summary.add accepted }

/-- Writes the summary as the last line. The second time nothing is written. -/
def finish (r : Recorder) : Recorder :=
  if r.finished then r
  else { r with
    out := (writeLine Recording.remark r.summary.toValue.write r.out).flush, finished := true }

/-- Writes all that waits, and no summary. -/
def close (r : Recorder) : Recorder := { r with out := r.out.flush }

/-- Writes into the file what has left the buffer since it was `before`. -/
def save (before : Buffer) (r : Recorder) (s : Store) : Store :=
  s.writeAt r.file before.saved.utf8ByteSize (Buffer.sentSince before r.out)

/-- Starts a recording in a new file, or in place of what a file holds. -/
def create (path : String) (header : RecordingHeader) : Access Recorder := do
  Access.createParents path
  let file ← Access.writeBytes path .empty
  let r := start path file header
  modify (r.save .empty)
  return r

end Recorder

/-- A sink whose verdicts are recorded. The recording has no say in them. -/
structure RecordingSink (σ : Type := Sink) where
  inner : σ
  recorder : Recorder
deriving DecidableEq, Repr

namespace RecordingSink

def schemaVersion : String := "1.0"

def sinkName : String := Sink.name

def header (epochWall : String) (sink : String := sinkName) : RecordingHeader :=
  ⟨schemaVersion, epochWall, sink⟩

/-- Takes note of an event and the verdict on it, unless the recording is finished. -/
def note (event : InputEvent) (accepted : Bool) (r : Recorder) : Recorder :=
  match r.record event accepted with
  | .ok r => r
  | .error _ => r

variable {σ : Type} [InjectionSink σ]

def create (inner : σ) (path epochWall : String) : Access (RecordingSink σ) := do
  return ⟨inner, ← Recorder.create path (header epochWall (InjectionSink.name inner))⟩

def inject (event : InputEvent) (s : RecordingSink σ) : Bool × RecordingSink σ :=
  let (accepted, inner) := InjectionSink.inject s.inner event
  (accepted, ⟨inner, note event accepted s.recorder⟩)

def finish (s : RecordingSink σ) : RecordingSink σ := { s with recorder := s.recorder.finish }

instance : InjectionSink (RecordingSink σ) :=
  ⟨fun s event => s.inject event, fun s => InjectionSink.name s.inner⟩

end RecordingSink

end CorrelatedInput
