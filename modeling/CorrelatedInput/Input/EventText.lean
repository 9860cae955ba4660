import CorrelatedInput.Input.Event
import CorrelatedInput.Json.Shape
import CorrelatedInput.Text.Blank
import CorrelatedInput.Text.Line
/-!
Events as text: one event is one line of compact JSON, and a stream is a text of such lines among
blank lines and lines that begin with a number sign.

An event line is read as JSON to its end before its members are judged; a key event on its own is
judged from left to right.
-/
namespace CorrelatedInput

open Json (Value Shape Fields Fault)

def named? {α : Type} (all : List α) (name : α → String) (s : String) : Option α :=
  all.find? fun a => name a = s

/-! Shapes -/

def InputSource.shape : Shape := .name (InputSource.all.map InputSource.name)

def Pointer.shape : Shape :=
  .record false <|
    .cons "id" Json.word32 none <|
    .cons "tool_type" (.name (ToolType.all.map ToolType.name)) none <|
    .cons "x" Json.signed32 none <|
    .cons "y" Json.signed32 none .nil

def MotionAction.shape : Shape :=
  .record true <|
    .cons "kind" (.name (MotionKind.all.map MotionKind.name)) none <|
    .cons "pointer_index" Json.word32 (some (.integer 0)) .nil

def MotionEvent.shape : Shape :=
  .record true <|
    .cons "down_time" Json.word64 none <|
    .cons "event_time" Json.word64 none <|
    .cons "action" MotionAction.shape none <|
    .cons "pointers" (.list Pointer.shape) none <|
    .cons "source" InputSource.shape none .nil

def KeyEvent.shape : Shape :=
  .record true <|
    .cons "down_time" Json.word64 none <|
    .cons "event_time" Json.word64 none <|
    .cons "action" (.name (KeyAction.all.map KeyAction.name)) none <|
    .cons "key_code" Json.signed32 none <|
    .cons "repeat" Json.word32 none <|
    .cons "meta_state" Json.signed32 none <|
    .cons "source" InputSource.shape none .nil

/-! From values of these shapes -/

def Pointer.ofValue? : Value → Option Pointer
  | .array [.integer id, .text tool, .integer x, .integer y] => do
    let tool ← named? ToolType.all ToolType.name tool
    return ⟨UInt32.ofNat id.toNat, tool, ⟨Int32.ofInt x, Int32.ofInt y⟩⟩
  | _ => none

def MotionAction.ofValue? : Value → Option MotionAction
  | .array [.text kind, .integer index] => do
    return ⟨← named? MotionKind.all MotionKind.name kind, UInt32.ofNat index.toNat⟩
  | _ => none

def MotionEvent.ofValue? : Value → Option MotionEvent
  | .array [.integer down, .integer time, action, .array pointers, .text source] => do
    return {
      downTime := UInt64.ofNat down.toNat
      eventTime := UInt64.ofNat time.toNat
      action := ← MotionAction.ofValue? action
      pointers := ← pointers.mapM Pointer.ofValue?
      source := ← named? InputSource.all InputSource.name source }
  | _ => none

def KeyEvent.ofValue? : Value → Option KeyEvent
  | .array [.integer down, .integer time, .text action, .integer code, .integer count,
      .integer metaState, .text source] => do
    return {
      downTime := UInt64.ofNat down.toNat
      eventTime := UInt64.ofNat time.toNat
      action := ← named? KeyAction.all KeyAction.name action
      keyCode := Int32.ofInt code
      repeatCount := UInt32.ofNat count.toNat
      metaState := Int32.ofInt metaState
      source := ← named? InputSource.all InputSource.name source }
  | _ => none

/-! To values -/

def Pointer.toValue (p : Pointer) : Value :=
  .object [("id", .integer p.id.toNat), ("tool_type", .text p.tool.name),
    ("x", .integer p.position.x.toInt), ("y", .integer p.position.y.toInt)]

def MotionAction.toValue (a : MotionAction) : Value :=
  .object [("kind", .text a.kind.name), ("pointer_index", .integer a.pointerIndex.toNat)]

def MotionEvent.members (e : MotionEvent) : List (String × Value) :=
  [("down_time", .integer e.downTime.toNat), ("event_time", .integer e.eventTime.toNat),
    ("action", e.action.toValue), ("pointers", .array (e.pointers.map Pointer.toValue)),
    ("source", .text e.source.name)]

def KeyEvent.members (e : KeyEvent) : List (String × Value) :=
  [("down_time", .integer e.downTime.toNat), ("event_time", .integer e.eventTime.toNat),
    ("action", .text e.action.name), ("key_code", .integer e.keyCode.toInt),
    ("repeat", .integer e.repeatCount.toNat), ("meta_state", .integer e.metaState.toInt),
    ("source", .text e.source.name)]

def KeyEvent.toValue (e : KeyEvent) : Value := .object e.members

def InputEvent.toValue : InputEvent → Value
  | .motion e => .object (("type", .text "motion") :: e.members)
  | .key e => .object (("type", .text "key") :: e.members)

/-! Reading and writing -/

def KeyEvent.ofText (cs : List Char) : Except Fault KeyEvent :=
  Json.readAll (fun cs => do
    let (v, rest) ← KeyEvent.shape.read cs
    match KeyEvent.ofValue? v with
    | some e => return (e, rest)
    | none => throw .unfit) cs

def InputEvent.ofTagged? (kind : String) (v : Value) : Option InputEvent :=
  if kind = "motion" then
    InputEvent.motion <$> (MotionEvent.shape.conform? v >>= MotionEvent.ofValue?)
  else if kind = "key" then
    InputEvent.key <$> (KeyEvent.shape.conform? v >>= KeyEvent.ofValue?)
  else none

def InputEvent.ofText (cs : List Char) : Except Fault InputEvent :=
  Json.readAll (fun cs => do
    let ((kind, v), rest) ← Json.readTagged "type" ["motion", "key"] cs
    match InputEvent.ofTagged? kind v with
    | some e => return (e, rest)
    | none => throw .unfit) cs

def InputEvent.toText (e : InputEvent) : List Char := e.toValue.write

/-- A trimmed line that holds no event: it is empty, or begins with a number sign. -/
def isComment (line : List Char) : Bool :=
  match line with
  | [] => true
  | c :: _ => c = '#'

/-- The events of a stream. The first line that cannot be read decides. -/
def parseEvents (text : List Char) : Except Fault (List InputEvent) :=
  (((Text.lines text).map Text.trim).filter fun line => !isComment line).mapM InputEvent.ofText

def serializeEvents (events : List InputEvent) : List Char :=
  events.flatMap fun e => e.toText ++ ['\n']

end CorrelatedInput
