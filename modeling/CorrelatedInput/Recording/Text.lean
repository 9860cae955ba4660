import CorrelatedInput.Input.EventText
/-!
Recordings of what was injected, as text: a header, one line for each event, and at the end of a
finished recording a summary. All but the accepted events stand behind a number sign, so a reader
of events passes them over.
-/
namespace CorrelatedInput

open Json (Value Shape Fields Fault)

structure RecordingHeader where
  schemaVersion : String
  /-- The wall clock at the time 0 of the events. -/
  epochWall : String
  sink : String
deriving DecidableEq, Repr

structure Summary where
  accepted : UInt64
  rejected : UInt64
deriving DecidableEq, Repr

def RecordingHeader.toValue (h : RecordingHeader) : Value :=
  .object [("schema_version", .text h.schemaVersion), ("epoch_wall", .text h.epochWall),
    ("sink", .text h.sink)]

namespace Summary

def zero : Summary := ⟨0, 0⟩

def add (s : Summary) (accepted : Bool) : Summary :=
  if accepted then { s with accepted := s.accepted + 1 } else { s with rejected := s.rejected + 1 }

def toValue (s : Summary) : Value :=
  .object [("accepted", .integer s.accepted.toNat), ("rejected", .integer s.rejected.toNat)]

def shape : Shape :=
  .record true <| .cons "accepted" Json.word64 none <| .cons "rejected" Json.word64 none .nil

def ofValue? : Value → Option Summary
  | .array [.integer accepted, .integer rejected] =>
    some ⟨UInt64.ofNat accepted.toNat, UInt64.ofNat rejected.toNat⟩
  | _ => none

def ofText (cs : List Char) : Except Fault Summary :=
  Json.readAll (fun cs => do
    let (v, rest) ← shape.read cs
    match ofValue? v with
    | some s => return (s, rest)
    | none => throw .unfit) cs

end Summary

namespace Recording

/-- What stands before the header and the summary. -/
def remark : List Char := ['#', ' ']

/-- What stands before a rejected event. -/
def rejection : List Char := "# rejected ".toList

/-- The summary at the end of a recording, if the last line that is not blank holds one. -/
def summary? (text : List Char) : Option Summary := do
  let last ← (Text.lines text).reverse.find? fun line => !line.all Text.isBlank
  (Summary.ofText (← Text.after? remark last)).toOption

/-- The rejected events of a recording. The first that cannot be read decides. -/
def rejectedEvents (text : List Char) : Except Fault (List InputEvent) :=
  ((Text.lines text).filterMap (Text.after? rejection)).mapM InputEvent.ofText

end Recording

end CorrelatedInput
