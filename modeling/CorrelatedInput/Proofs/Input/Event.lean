import CorrelatedInput.Input.EventText
import CorrelatedInput.Proofs.Json.Compact
import CorrelatedInput.Proofs.Json.Members
/-!
Events as JSON values. Each record conforms to its shape, and from its fields in their order the
event comes back.
-/
namespace CorrelatedInput

open Json

/-! Names -/

theorem InputSource.named (s : InputSource) :
    s.name ∈ InputSource.all.map InputSource.name ∧
      named? InputSource.all InputSource.name s.name = some s := by
  cases s <;> decide

theorem ToolType.named (t : ToolType) :
    t.name ∈ ToolType.all.map ToolType.name ∧ named? ToolType.all ToolType.name t.name = some t := by
  cases t
  decide

theorem MotionKind.named (k : MotionKind) :
    k.name ∈ MotionKind.all.map MotionKind.name ∧
      named? MotionKind.all MotionKind.name k.name = some k := by
  cases k <;> decide

theorem KeyAction.named (a : KeyAction) :
    a.name ∈ KeyAction.all.map KeyAction.name ∧
      named? KeyAction.all KeyAction.name a.name = some a := by
  cases a <;> decide

/-! Records as their fields -/

def Pointer.fields (p : Pointer) : Value :=
  .array [.integer p.id.toNat, .text p.tool.name, .integer p.position.x.toInt,
    .integer p.position.y.toInt]

def MotionAction.fields (a : MotionAction) : Value :=
  .array [.text a.kind.name, .integer a.pointerIndex.toNat]

def MotionEvent.fields (e : MotionEvent) : Value :=
  .array [.integer e.downTime.toNat, .integer e.eventTime.toNat, e.action.fields,
    .array (e.pointers.map Pointer.fields), .text e.source.name]

def KeyEvent.fields (e : KeyEvent) : Value :=
  .array [.integer e.downTime.toNat, .integer e.eventTime.toNat, .text e.action.name,
    .integer e.keyCode.toInt, .integer e.repeatCount.toNat, .integer e.metaState.toInt,
    .text e.source.name]

theorem Pointer.conform? (p : Pointer) : Pointer.shape.conform? p.toValue = some p.fields :=
  conform?_fields <|
    .cons (Json.Field.conform?_named rfl (conform?_word32 p.id)) <|
    .cons (Json.Field.conform?_named rfl (conform?_name p.tool.named.1)) <|
    .cons (Json.Field.conform?_named rfl (conform?_signed32 p.position.x)) <|
    .cons (Json.Field.conform?_named rfl (conform?_signed32 p.position.y)) .nil

theorem Pointer.ofValue?_fields (p : Pointer) : Pointer.ofValue? p.fields = some p := by
  simp [ofValue?, fields, p.tool.named.2]

theorem MotionAction.conform? (a : MotionAction) :
    MotionAction.shape.conform? a.toValue = some a.fields :=
  conform?_fields <|
    .cons (Json.Field.conform?_named rfl (conform?_name a.kind.named.1)) <|
    .cons (Json.Field.conform?_named rfl (conform?_word32 a.pointerIndex)) .nil

theorem MotionAction.ofValue?_fields (a : MotionAction) :
    MotionAction.ofValue? a.fields = some a := by
  simp [ofValue?, fields, a.kind.named.2]

theorem MotionEvent.conform? (e : MotionEvent) :
    MotionEvent.shape.conform? (.object e.members) = some e.fields := by
  have pointers : (Shape.list Pointer.shape).conform? (.array (e.pointers.map Pointer.toValue)) =
      some (.array (e.pointers.map Pointer.fields)) := by
    simp only [Shape.conform?, mapM_map_eq e.pointers fun p _ => p.conform?, Option.map_eq_map,
      Option.map_some]
  exact conform?_fields <|
    .cons (Json.Field.conform?_named rfl (conform?_word64 e.downTime)) <|
    .cons (Json.Field.conform?_named rfl (conform?_word64 e.eventTime)) <|
    .cons (Json.Field.conform?_named rfl e.action.conform?) <|
    .cons (Json.Field.conform?_named rfl pointers) <|
    .cons (Json.Field.conform?_named rfl (conform?_name e.source.named.1)) .nil

theorem MotionEvent.ofValue?_fields (e : MotionEvent) :
    MotionEvent.ofValue? e.fields = some e := by
  have pointers := mapM_map_eq e.pointers fun p _ => p.ofValue?_fields
  simp [ofValue?, fields, MotionAction.ofValue?_fields, pointers, e.source.named.2]

theorem KeyEvent.conform? (e : KeyEvent) :
    KeyEvent.shape.conform? (.object e.members) = some e.fields :=
  conform?_fields <|
    .cons (Json.Field.conform?_named rfl (conform?_word64 e.downTime)) <|
    .cons (Json.Field.conform?_named rfl (conform?_word64 e.eventTime)) <|
    .cons (Json.Field.conform?_named rfl (conform?_name e.action.named.1)) <|
    .cons (Json.Field.conform?_named rfl (conform?_signed32 e.keyCode)) <|
    .cons (Json.Field.conform?_named rfl (conform?_word32 e.repeatCount)) <|
    .cons (Json.Field.conform?_named rfl (conform?_signed32 e.metaState)) <|
    .cons (Json.Field.conform?_named rfl (conform?_name e.source.named.1)) .nil

theorem KeyEvent.ofValue?_fields (e : KeyEvent) : KeyEvent.ofValue? e.fields = some e := by
  simp [ofValue?, fields, e.action.named.2, e.source.named.2]

end CorrelatedInput
