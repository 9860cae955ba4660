import CorrelatedInput.Proofs.Input.Event
import CorrelatedInput.Proofs.Text.Line
/-!
Reading events gives back what was written, also where blank lines and comments stand between the
events, and white space around them.
-/
namespace CorrelatedInput

open Json

/-! One event -/

section Fits

variable {depth : Nat}

theorem Pointer.toValue_fits (p : Pointer) : p.toValue.Fits (depth + 1) := by
  apply Value.Fits.object
  intro m hm
  simp only [List.mem_cons, List.not_mem_nil, or_false] at hm
  rcases hm with rfl | rfl | rfl | rfl
  · exact .integer (isWord_uint32 p.id)
  · exact .text _
  · exact .integer (isWord_int32 p.position.x)
  · exact .integer (isWord_int32 p.position.y)

theorem MotionAction.toValue_fits (a : MotionAction) : a.toValue.Fits (depth + 1) := by
  apply Value.Fits.object
  intro m hm
  simp only [List.mem_cons, List.not_mem_nil, or_false] at hm
  rcases hm with rfl | rfl
  · exact .text _
  · exact .integer (isWord_uint32 a.pointerIndex)

theorem MotionEvent.members_fit (e : MotionEvent) : ∀ m ∈ e.members, m.2.Fits (depth + 2) := by
  intro m hm
  simp only [members, List.mem_cons, List.not_mem_nil, or_false] at hm
  rcases hm with rfl | rfl | rfl | rfl | rfl
  · exact .integer (isWord_uint64 e.downTime)
  · exact .integer (isWord_uint64 e.eventTime)
  · exact e.action.toValue_fits
  · apply Value.Fits.array
    intro v hv
    obtain ⟨p, _, rfl⟩ := List.mem_map.mp hv
    exact p.toValue_fits
  · exact .text _

theorem KeyEvent.members_fit (e : KeyEvent) : ∀ m ∈ e.members, m.2.Fits depth := by
  intro m hm
  simp only [members, List.mem_cons, List.not_mem_nil, or_false] at hm
  rcases hm with rfl | rfl | rfl | rfl | rfl | rfl | rfl
  · exact .integer (isWord_uint64 e.downTime)
  · exact .integer (isWord_uint64 e.eventTime)
  · exact .text _
  · exact .integer (isWord_int32 e.keyCode)
  · exact .integer (isWord_uint32 e.repeatCount)
  · exact .integer (isWord_int32 e.metaState)
  · exact .text _

theorem InputEvent.toValue_fits (e : InputEvent) : e.toValue.Fits (depth + 3) := by
  cases e with
  | motion e =>
    apply Value.Fits.object
    exact List.forall_mem_cons.mpr ⟨.text _, e.members_fit⟩
  | key e =>
    apply Value.Fits.object
    exact List.forall_mem_cons.mpr ⟨.text _, e.members_fit⟩

end Fits

namespace InputEvent

/-- The kind that an event names, and its other members. -/
def kind : InputEvent → String
  | .motion _ => "motion"
  | .key _ => "key"

def members : InputEvent → List (String × Value)
  | .motion e => e.members
  | .key e => e.members

theorem toValue_eq (e : InputEvent) :
    e.toValue = .object (("type", .text e.kind) :: e.members) := by
  cases e <;> rfl

theorem untag_members (e : InputEvent) :
    untag "type" ["motion", "key"] none (("type", .text e.kind) :: e.members) =
      some (e.kind, e.members) := by
  cases e with
  | motion e => simp [untag, kind, members, MotionEvent.members]
  | key e => simp [untag, kind, members, KeyEvent.members]

theorem ofTagged?_members (e : InputEvent) : ofTagged? e.kind (.object e.members) = some e := by
  cases e with
  | motion e => simp [ofTagged?, kind, members, e.conform?, e.ofValue?_fields]
  | key e => simp [ofTagged?, kind, members, e.conform?, e.ofValue?_fields]

/-- A line that lays out an object, perhaps among white space, is read as the object is judged. -/
theorem ofText_object {ms : List (String × Value)} {depth : Nat} {cs after : List Char}
    (h : Laid depth (.value (.object ms)) cs) (room : depth ≤ depthLimit)
    (blank : after.all Json.isBlank = true) :
    ofText (cs ++ after) = orUnfit ((untag "type" ["motion", "key"] none ms).bind fun result =>
      ofTagged? result.1 (.object result.2)) := by
  have ends := skipBlank_blanks blank
  simp only [ofText, readAll, h.readTagged room]
  cases untag "type" ["motion", "key"] none ms with
  | none => rfl
  | some result =>
    simp only [Option.map_some, Option.bind_some, orUnfit, bind, Except.bind]
    cases ofTagged? result.1 (.object result.2) with
    | none => rfl
    | some e => simp [ends, pure, Except.pure]

/-- However an event is laid out with its members in their order, it is read as itself. -/
theorem ofText_laid {e : InputEvent} {depth : Nat} {cs : List Char}
    (h : Laid depth (.value e.toValue) cs) (room : depth ≤ depthLimit) : ofText cs = .ok e := by
  rw [toValue_eq] at h
  have read : ofText (cs ++ []) = _ := ofText_object h room rfl
  rwa [List.append_nil, untag_members, Option.bind_some, ofTagged?_members] at read

@[simp] theorem ofText_toText (e : InputEvent) : ofText e.toText = .ok e :=
  ofText_laid e.toValue_fits.laid (by decide : 0 + 3 ≤ depthLimit)

theorem toText_line (e : InputEvent) :
    '\n' ∉ e.toText ∧ e.toText.head? = some '\x7b' ∧ e.toText.getLast? = some '\x7d' := by
  have fits : e.toValue.Fits (0 + 3) := e.toValue_fits
  rw [toValue_eq] at fits
  rw [toText, toValue_eq]
  exact fits.object_line

theorem trim_toText (e : InputEvent) : Text.trim e.toText = e.toText := by
  obtain ⟨_, first, last⟩ := e.toText_line
  have brace : Text.isBlank '\x7b' = false ∧ Text.isBlank '\x7d' = false := by decide
  apply Text.trim_eq_self
  · simpa [first] using brace.1
  · simpa [last] using brace.2

theorem toText_not_comment (e : InputEvent) : isComment e.toText = false := by
  rw [toText, toValue_eq, Value.write]
  rfl

end InputEvent

theorem mapM_ofText_toText (events : List InputEvent) :
    (events.map InputEvent.toText).mapM InputEvent.ofText = .ok events := by
  induction events with
  | nil => rfl
  | cons e events ih => simp [ih, bind, Except.bind, pure, Except.pure]

/-! Streams -/

def IsEnding (ending : List Char) : Prop := ending = ['\n'] ∨ ending = ['\r', '\n']

def IsPadding (cs : List Char) : Prop := cs.all Text.isBlank = true ∧ '\n' ∉ cs

/-- A text with one line for each event, in order, among blank lines and comments. -/
inductive Dressed : List InputEvent → List Char → Prop
  | done : Dressed [] []
  | event {before after ending : List Char} (e : InputEvent) {events : List InputEvent}
    {text : List Char} (pad : IsPadding before) (pad' : IsPadding after) (ends : IsEnding ending)
    (rest : Dressed events text) :
    Dressed (e :: events) (before ++ (e.toText ++ (after ++ (ending ++ text))))
  | other {line ending : List Char} {events : List InputEvent} {text : List Char}
    (one : '\n' ∉ line) (comment : isComment (Text.trim line) = true) (ends : IsEnding ending)
    (rest : Dressed events text) : Dressed events (line ++ (ending ++ text))

theorem serializeEvents_dressed (events : List InputEvent) :
    Dressed events (serializeEvents events) := by
  have none : IsPadding [] := ⟨rfl, List.not_mem_nil⟩
  induction events with
  | nil => exact .done
  | cons e events ih =>
    simpa [serializeEvents] using Dressed.event e none none (.inl rfl) ih

theorem trim_lines_ending {line ending : List Char} (one : '\n' ∉ line) (ends : IsEnding ending)
    (text : List Char) :
    (Text.lines (line ++ (ending ++ text))).map Text.trim =
      Text.trim line :: (Text.lines text).map Text.trim := by
  rcases ends with rfl | rfl
  · exact Text.trim_lines_append one text
  · have one' : '\n' ∉ line ++ ['\r'] := by simpa using one
    have split : line ++ (['\r', '\n'] ++ text) = (line ++ ['\r']) ++ '\n' :: text := by simp
    rw [split, Text.trim_lines_append one', Text.trim_append (by decide)]

theorem Dressed.parse {events : List InputEvent} {text : List Char} (h : Dressed events text) :
    parseEvents text = .ok events := by
  induction h with
  | done => rfl
  | @event before after ending e events text pad pad' ends _ ih =>
    have one := e.toText_line.1
    have line : '\n' ∉ before ++ (e.toText ++ after) := by simp [pad.2, one, pad'.2]
    have split : before ++ (e.toText ++ (after ++ (ending ++ text))) =
        (before ++ (e.toText ++ after)) ++ (ending ++ text) := by simp
    have trim : Text.trim (before ++ (e.toText ++ after)) = e.toText := by
      rw [Text.trim_prepend pad.1, Text.trim_append pad'.1, e.trim_toText]
    simp only [parseEvents] at ih ⊢
    rw [split, trim_lines_ending line ends, trim]
    simp [e.toText_not_comment, ih, bind, Except.bind, pure, Except.pure]
  | other one comment ends _ ih =>
    simp only [parseEvents] at ih ⊢
    rw [trim_lines_ending one ends]
    simp [comment, ih]

/-- Decoding undoes encoding: from the text of a list of events come these events, and the same
from a text in which blank lines and comments stand between the lines, lines end in a carriage
return and a line feed, and white space stands at their ends. -/
theorem parse_serialize (events : List InputEvent) :
    parseEvents (serializeEvents events) = .ok events ∧
      ∀ text, Dressed events text → parseEvents text = .ok events := by
  constructor
  · exact (serializeEvents_dressed events).parse
  · intro text dressed
    exact dressed.parse

/-- A key behind a comment and a blank line. -/
theorem parse_serialize_among_remarks :
    let e : InputEvent := .key (.stamped 5 .down 66 0)
    let text := "# one key".toList ++ (['\r', '\n'] ++ ([] ++ (['\n'] ++
      (['\t'] ++ (e.toText ++ ([' '] ++ (['\r', '\n'] ++ [])))))))
    Dressed [e] text ∧ parseEvents text = .ok [e] := by
  intro e text
  have line : Dressed [e] (['\t'] ++ (e.toText ++ ([' '] ++ (['\r', '\n'] ++ [])))) :=
    .event e ⟨by decide, by decide⟩ ⟨by decide, by decide⟩ (.inr rfl) .done
  have dressed : Dressed [e] text :=
    .other (by decide) (by decide) (.inr rfl) <| .other (by decide) (by decide) (.inl rfl) line
  exact ⟨dressed, (parse_serialize [e]).2 text dressed⟩

end CorrelatedInput
