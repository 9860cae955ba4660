import CorrelatedInput.Json.Shape
import CorrelatedInput.Settings.Basic
/-!
Settings as JSON: written over several lines, with every setting; read with any of them left out.
-/
namespace CorrelatedInput

open Json (Value Shape Fields Fault)

/-! To values -/

def Timing.fields (t : Timing) : List (String × Value) :=
  [("click_duration_ms", .integer t.clickDuration.toNat),
    ("injection_delay_ms", .integer t.injectionDelay.toNat),
    ("scroll_event_timeout_ms", .integer t.scrollTimeout.toNat),
    ("long_press_fallback_ms", .integer t.longPress.toNat)]

def Logging.fields (l : Logging) : List (String × Value) :=
  [("level", .text l.level), ("json", .bool l.json), ("file", l.file.elim .null .text)]

def Settings.toValue (s : Settings) : Value :=
  .object [("interaction", .object s.timing.fields), ("logging", .object s.logging.fields)]

/-! Shapes; an absent setting has its default -/

/-- A record whose fields all have a default. -/
def defaulted (fields : List (String × Shape × Value)) : Shape :=
  .record true (fields.foldr (fun (name, shape, v) rest => .cons name shape (some v) rest) .nil)

def Timing.shape : Shape :=
  defaulted ((Timing.fields {}).map fun (name, v) => (name, Json.word64, v))

def Logging.shape : Shape :=
  defaulted [("level", .text, .text (Logging.level {})), ("json", .flag, .bool (Logging.json {})),
    ("file", .optional .text, .null)]

def Settings.shape : Shape :=
  defaulted [("interaction", Timing.shape, .array ((Timing.fields {}).map Prod.snd)),
    ("logging", Logging.shape, .array ((Logging.fields {}).map Prod.snd))]

/-! From values of these shapes -/

def Timing.ofValue? : Value → Option Timing
  | .array [.integer click, .integer delay, .integer scroll, .integer long] =>
    some ⟨UInt64.ofNat click.toNat, UInt64.ofNat delay.toNat, UInt64.ofNat scroll.toNat,
      UInt64.ofNat long.toNat⟩
  | _ => none

def Logging.ofValue? : Value → Option Logging
  | .array [.text level, .bool json, .null] => some ⟨level, json, none⟩
  | .array [.text level, .bool json, .text file] => some ⟨level, json, some file⟩
  | _ => none

def Settings.ofValue? : Value → Option Settings
  | .array [timing, logging] => do
    return ⟨← Timing.ofValue? timing, ← Logging.ofValue? logging⟩
  | _ => none

/-! Reading and writing -/

def Settings.ofText (cs : List Char) : Except Fault Settings :=
  Json.readAll (fun cs => do
    let (v, rest) ← Settings.shape.read cs
    match Settings.ofValue? v with
    | some s => return (s, rest)
    | none => throw .unfit) cs

def Settings.toText (s : Settings) : String := s.toValue.pretty

end CorrelatedInput
