import CorrelatedInput.Arithmetic
import CorrelatedInput.Device
import CorrelatedInput.Failure
import CorrelatedInput.Gesture.Controller
import CorrelatedInput.Gesture.Correlated
import CorrelatedInput.Gesture.Fingers
import CorrelatedInput.Gesture.Power
import CorrelatedInput.Gesture.Touch
import CorrelatedInput.Gesture.Typing
import CorrelatedInput.Input.ActionCode
import CorrelatedInput.Input.Event
import CorrelatedInput.Input.EventText
import CorrelatedInput.Input.Session
import CorrelatedInput.Input.Sink
import CorrelatedInput.Json.Reader
import CorrelatedInput.Json.Shape
import CorrelatedInput.Json.Value
import CorrelatedInput.Keys.Code
import CorrelatedInput.Keys.Keyboard
import CorrelatedInput.Main
import CorrelatedInput.Motion.Interpolation
import CorrelatedInput.Proofs.Except
import CorrelatedInput.Proofs.Gesture.Correlated
import CorrelatedInput.Proofs.Gesture.Ending
import CorrelatedInput.Proofs.Gesture.Fingers
import CorrelatedInput.Proofs.Gesture.Misuse
import CorrelatedInput.Proofs.Gesture.Passage
import CorrelatedInput.Proofs.Gesture.Rejection
import CorrelatedInput.Proofs.Gesture.Repertoire
import CorrelatedInput.Proofs.Gesture.Session
import CorrelatedInput.Proofs.Gesture.Touch
import CorrelatedInput.Proofs.Gesture.Typing
import CorrelatedInput.Proofs.Input.ActionCode
import CorrelatedInput.Proofs.Input.Event
import CorrelatedInput.Proofs.Input.EventText
import CorrelatedInput.Proofs.Input.Sink
import CorrelatedInput.Proofs.Input.Stream
import CorrelatedInput.Proofs.Json.Compact
import CorrelatedInput.Proofs.Json.Layout
import CorrelatedInput.Proofs.Json.Longer
import CorrelatedInput.Proofs.Json.Number
import CorrelatedInput.Proofs.Json.Quoted
import CorrelatedInput.Proofs.Json.Reading
import CorrelatedInput.Proofs.Json.Record
import CorrelatedInput.Proofs.Json.Shape
import CorrelatedInput.Proofs.Json.Tagged
import CorrelatedInput.Proofs.Keys.Keyboard
import CorrelatedInput.Proofs.Motion.Drift
import CorrelatedInput.Proofs.Motion.Interpolation
import CorrelatedInput.Proofs.Recording.Buffer
import CorrelatedInput.Proofs.Recording.Cut
import CorrelatedInput.Proofs.Recording.Recorder
import CorrelatedInput.Proofs.Recording.Sink
import CorrelatedInput.Proofs.Recording.Text
import CorrelatedInput.Proofs.Rounding
import CorrelatedInput.Proofs.Run.Activity
import CorrelatedInput.Proofs.Run.Alike
import CorrelatedInput.Proofs.Run.Correlation
import CorrelatedInput.Proofs.Run.Destiny
import CorrelatedInput.Proofs.Run.Driving
import CorrelatedInput.Proofs.Run.Rest
import CorrelatedInput.Proofs.Run.Watching
import CorrelatedInput.Proofs.Signals.Hub
import CorrelatedInput.Proofs.Signals.Timeline
import CorrelatedInput.Proofs.Storage.Store
import CorrelatedInput.Proofs.Storage.Tree
import CorrelatedInput.Proofs.Text.Line
import CorrelatedInput.Proofs.Text.Numeral
import CorrelatedInput.Proofs.Time.Clock
import CorrelatedInput.Recording.Buffer
import CorrelatedInput.Recording.Recorder
import CorrelatedInput.Recording.Text
import CorrelatedInput.Rounding
import CorrelatedInput.Run.Activity
import CorrelatedInput.Run.Correlation
import CorrelatedInput.Run.Schedule
import CorrelatedInput.Run.Together
import CorrelatedInput.Run.World
import CorrelatedInput.Settings.Basic
import CorrelatedInput.Settings.File
import CorrelatedInput.Settings.Text
import CorrelatedInput.Signals.Condition
import CorrelatedInput.Signals.Hub
import CorrelatedInput.Signals.Kind
import CorrelatedInput.Signals.Notification
import CorrelatedInput.Signals.NotificationText
import CorrelatedInput.Storage.Path
import CorrelatedInput.Storage.Store
import CorrelatedInput.Storage.Tree
import CorrelatedInput.Terminal.Arguments
import CorrelatedInput.Terminal.Invocation
import CorrelatedInput.Terminal.Program
import CorrelatedInput.Terminal.Value
import CorrelatedInput.Text.Blank
import CorrelatedInput.Text.Line
import CorrelatedInput.Text.Numeral
import CorrelatedInput.Time.Calendar
import CorrelatedInput.Time.Clock
import CorrelatedInput.Proofs.Signals.Condition
import CorrelatedInput.Proofs.Run.Abreast
import CorrelatedInput.Proofs.Run.Decision
import CorrelatedInput.Proofs.Run.Patience
import CorrelatedInput.Proofs.Run.Recorded
import CorrelatedInput.Proofs.Gesture.WallClock
import CorrelatedInput.Proofs.Terminal.Arguments
import CorrelatedInput.Proofs.Terminal.Places
import CorrelatedInput.Proofs.Terminal.Plan
import CorrelatedInput.Proofs.Input.Lines
import CorrelatedInput.Proofs.Signals.Scroll
import CorrelatedInput.Proofs.Gesture.Scrolling
import CorrelatedInput.Proofs.Input.Layout
import CorrelatedInput.Proofs.Gesture.Setup
import CorrelatedInput.Proofs.Keys.Code
import CorrelatedInput.Proofs.Terminal.Pinch
import CorrelatedInput.Proofs.Json.Pretty
import CorrelatedInput.Proofs.Settings.Text
import CorrelatedInput.Proofs.Storage.Directories
import CorrelatedInput.Proofs.Settings.File
import CorrelatedInput.Proofs.Device
import CorrelatedInput.Proofs.Input.Clearing
import CorrelatedInput.Proofs.Signals.KindSet
import CorrelatedInput.Proofs.Signals.NotificationText
