import CorrelatedInput.Signals.Notification
import CorrelatedInput.Input.EventText
/-!
Notifications as JSON. What a scrolled view does not report is left out when it is written, and
may be left out or null when it is read.
-/
namespace CorrelatedInput

open Json (Value Shape Fields Fault)

def ScrollPosition.fields (p : ScrollPosition) : List (String × Option Int32) :=
  [("from_index", p.fromIndex), ("to_index", p.toIndex), ("item_count", p.itemCount),
    ("scroll_x", p.scrollX), ("scroll_y", p.scrollY), ("max_scroll_x", p.maxScrollX),
    ("max_scroll_y", p.maxScrollY)]

def ScrollPosition.shape : Shape :=
  .record true <|
    (ScrollPosition.unreported.fields.map Prod.fst).foldr
      (fun name rest => .cons name (.optional Json.signed32) (some .null) rest) .nil

def Notification.shape : Shape :=
  .record true <|
    .cons "kind" (.name (Kind.all.map Kind.name)) none <|
    .cons "event_time" Json.word64 (some (.integer 0)) <|
    .cons "scroll" ScrollPosition.shape (some (.array (List.replicate 7 .null))) .nil

def signedOf? : Value → Option (Option Int32)
  | .null => some none
  | .integer n => some (some (Int32.ofInt n))
  | _ => none

def ScrollPosition.ofValue? : Value → Option ScrollPosition
  | .array [a, b, c, d, e, f, g] => do
    return ⟨← signedOf? a, ← signedOf? b, ← signedOf? c, ← signedOf? d, ← signedOf? e,
      ← signedOf? f, ← signedOf? g⟩
  | _ => none

def Notification.ofValue? : Value → Option Notification
  | .array [.text kind, .integer time, scroll] => do
    return ⟨← named? Kind.all Kind.name kind, UInt64.ofNat time.toNat,
      ← ScrollPosition.ofValue? scroll⟩
  | _ => none

def ScrollPosition.toValue (p : ScrollPosition) : Value :=
  .object <| p.fields.filterMap fun (name, n) => n.map fun n => (name, .integer n.toInt)

def Notification.toValue (n : Notification) : Value :=
  .object [("kind", .text n.kind.name), ("event_time", .integer n.eventTime.toNat),
    ("scroll", n.scroll.toValue)]

def Notification.ofText (cs : List Char) : Except Fault Notification :=
  Json.readAll (fun cs => do
    let (v, rest) ← Notification.shape.read cs
    match Notification.ofValue? v with
    | some n => return (n, rest)
    | none => throw .unfit) cs

def Notification.toText (n : Notification) : List Char := n.toValue.write

end CorrelatedInput
