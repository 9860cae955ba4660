import CorrelatedInput.Proofs.Except
import CorrelatedInput.Proofs.Input.EventText
import Mathlib.Logic.Relation
/-!
A stream of events line by line. What stands on the lines decides, each line by itself, and neither
how the lines end, nor white space around them, nor remarks between them matter, also where some of
them cannot be read.
-/
namespace CorrelatedInput

open Text (Closed)

/-- The trimmed lines of a stream that are not remarks. -/
def eventLines (text : List Char) : List (List Char) :=
  ((Text.lines text).map Text.trim).filter fun line => !isComment line

theorem parseEvents_eq (text : List Char) :
    parseEvents text = (eventLines text).mapM InputEvent.ofText := rfl

/-! Where a text can be taken apart -/

/-- The rest of a text where a line may end: nothing follows, or the ending of a line. -/
def Stops (back : List Char) : Prop :=
  back = [] ∨ ∃ ending rest, IsEnding ending ∧ back = ending ++ rest

section Apart

variable {front line before after ending back : List Char}

theorem eventLines_append_of_closed (closed : Closed front) (back : List Char) :
    eventLines (front ++ back) = eventLines front ++ eventLines back := by
  simp only [eventLines, Text.lines_append_of_closed closed, List.map_append, List.filter_append]

theorem eventLines_line (one : '\n' ∉ line) :
    eventLines line = [Text.trim line].filter fun line => !isComment line := by
  by_cases none : line = []
  · subst none
    rfl
  · have single : Text.lines line = [line] := Text.linesFrom_single one none
    rw [eventLines, single]
    rfl

theorem eventLines_line_ending (one : '\n' ∉ line) (ends : IsEnding ending) (text : List Char) :
    eventLines (line ++ (ending ++ text)) = eventLines line ++ eventLines text := by
  rw [eventLines_line one, eventLines, trim_lines_ending one ends, List.filter_cons]
  split <;> simp [eventLines, *]

theorem eventLines_ending (ends : IsEnding ending) (text : List Char) :
    eventLines (ending ++ text) = eventLines text :=
  eventLines_line_ending List.not_mem_nil ends text

theorem eventLines_line_append (one : '\n' ∉ line) (stops : Stops back) :
    eventLines (line ++ back) = eventLines line ++ eventLines back := by
  rcases stops with rfl | ⟨ending, rest, ends, rfl⟩
  · simp [eventLines, Text.lines, Text.linesFrom]
  · rw [eventLines_line_ending one ends, eventLines_ending ends]

/-- A text may be taken apart at the end of a line as well as at the start of one. -/
theorem eventLines_append_of_stops (front : List Char) (stops : Stops back) :
    eventLines (front ++ back) = eventLines front ++ eventLines back := by
  obtain ⟨whole, line, closed, one, rfl⟩ := Text.exists_closed_append front
  rw [List.append_assoc, eventLines_append_of_closed closed, eventLines_line_append one stops,
    eventLines_append_of_closed closed, List.append_assoc]

theorem eventLines_prepend_pad (pad : IsPadding before) (back : List Char) :
    eventLines (before ++ back) = eventLines back := by
  obtain ⟨line, rest, one, stop, rfl⟩ := Text.exists_line_append back
  have stops : Stops rest := stop.imp_right fun ⟨text, feed⟩ => ⟨['\n'], text, .inl rfl, feed⟩
  have padded : '\n' ∉ before ++ line := by simp [pad.2, one]
  rw [← List.append_assoc, eventLines_line_append padded stops, eventLines_line_append one stops,
    eventLines_line padded, eventLines_line one, Text.trim_prepend pad.1]

theorem eventLines_append_pad (front : List Char) (pad : IsPadding after) :
    eventLines (front ++ after) = eventLines front := by
  obtain ⟨whole, line, closed, one, rfl⟩ := Text.exists_closed_append front
  have padded : '\n' ∉ line ++ after := by simp [pad.2, one]
  rw [List.append_assoc, eventLines_append_of_closed closed, eventLines_append_of_closed closed,
    eventLines_line padded, eventLines_line one, Text.trim_append pad.1]

end Apart

/-! Changes that no event shows -/

/-- One change to a text at the start or at the end of a line. A remark is put in, a line is ended
with a carriage return as well or at all, or white space is put around it. -/
inductive Redress : List Char → List Char → Prop
  | remark {front line ending : List Char} (starts : Closed front) (one : '\n' ∉ line)
    (comment : isComment (Text.trim line) = true) (ends : IsEnding ending) (back : List Char) :
    Redress (front ++ back) (front ++ (line ++ (ending ++ back)))
  | last {front line : List Char} (starts : Closed front) (one : '\n' ∉ line)
    (comment : isComment (Text.trim line) = true) : Redress front (front ++ line)
  | ended {ending : List Char} (text : List Char) (ends : IsEnding ending) :
    Redress text (text ++ ending)
  | returned (front back : List Char) :
    Redress (front ++ '\n' :: back) (front ++ '\r' :: '\n' :: back)
  | before {front pad : List Char} (starts : Closed front) (blank : IsPadding pad)
    (back : List Char) : Redress (front ++ back) (front ++ (pad ++ back))
  | after {pad back : List Char} (front : List Char) (blank : IsPadding pad)
    (stops : Stops back) : Redress (front ++ back) (front ++ (pad ++ back))

theorem Redress.eventLines_eq {text dressed : List Char} (h : Redress text dressed) :
    eventLines dressed = eventLines text := by
  have remark {line : List Char} (one : '\n' ∉ line)
      (comment : isComment (Text.trim line) = true) : eventLines line = [] := by
    simp [eventLines_line one, comment]
  cases h with
  | remark starts one comment ends back =>
    rw [eventLines_append_of_closed starts, eventLines_line_ending one ends, remark one comment,
      eventLines_append_of_closed starts]
    rfl
  | last starts one comment =>
    rw [eventLines_append_of_closed starts, remark one comment, List.append_nil]
  | @ended ending _ ends =>
    have nothing : eventLines ending = [] := by
      simpa [eventLines, Text.lines, Text.linesFrom] using eventLines_ending ends []
    rw [eventLines_append_of_stops text (.inr ⟨ending, [], ends, by simp⟩), nothing,
      List.append_nil]
  | returned front back =>
    have feed : IsEnding ['\n'] := .inl rfl
    have both : IsEnding ['\r', '\n'] := .inr rfl
    have same : eventLines ('\r' :: '\n' :: back) = eventLines ('\n' :: back) :=
      (eventLines_ending both back).trans (eventLines_ending feed back).symm
    have split : Stops ('\n' :: back) := .inr ⟨_, back, feed, rfl⟩
    have split' : Stops ('\r' :: '\n' :: back) := .inr ⟨_, back, both, rfl⟩
    rw [eventLines_append_of_stops front split', same, eventLines_append_of_stops front split]
  | before starts blank back =>
    rw [eventLines_append_of_closed starts, eventLines_prepend_pad blank,
      eventLines_append_of_closed starts]
  | after front blank stops =>
    rw [← List.append_assoc, eventLines_append_of_stops _ stops, eventLines_append_pad front blank,
      eventLines_append_of_stops front stops]

open Relation (EqvGen)

theorem eventLines_eq_of_redressed {text dressed : List Char} (h : EqvGen Redress text dressed) :
    eventLines text = eventLines dressed := by
  induction h with
  | rel _ _ step => exact step.eventLines_eq.symm
  | refl _ => rfl
  | symm _ _ _ ih => exact ih.symm
  | trans _ _ _ _ _ ih ih' => exact ih.trans ih'

/-! Events and errors -/

/-- The first line that is neither a remark nor an event decides on the error. -/
theorem parseEvents_eq_error_iff {text : List Char} {fault : Json.Fault} :
    parseEvents text = .error fault ↔
      ∃ front line back, (Text.lines text).map Text.trim = front ++ line :: back ∧
        (∀ l ∈ front, isComment l = true ∨ ∃ e, InputEvent.ofText l = .ok e) ∧
        isComment line = false ∧ InputEvent.ofText line = .error fault := by
  rw [parseEvents_eq, mapM_eq_error_iff]
  constructor
  · rintro ⟨front, line, back, split, fine, failed⟩
    obtain ⟨before, rest, whole, rfl, later⟩ := List.filter_eq_append_iff.mp split
    obtain ⟨between, after, rfl, skipped, kept, _⟩ := List.filter_eq_cons_iff.mp later
    refine ⟨before ++ between, line, after, by rw [whole, List.append_assoc], ?_,
      by simpa using kept, failed⟩
    intro l hl
    by_cases comment : isComment l = true
    · exact .inl comment
    · rcases List.mem_append.mp hl with early | late
      · exact .inr (fine l (List.mem_filter.mpr ⟨early, by simpa using comment⟩))
      · exact absurd (by simpa using comment) (skipped l late)
  · rintro ⟨front, line, back, split, fine, kept, failed⟩
    refine ⟨front.filter fun l => !isComment l, line, back.filter fun l => !isComment l, ?_, ?_,
      failed⟩
    · simp [eventLines, split, kept]
    · intro l hl
      obtain ⟨early, comment⟩ := List.mem_filter.mp hl
      exact (fine l early).resolve_left (by simpa using comment)

/-- A stream is read line by line. Of two texts one behind the other, where the first is empty or
ends with a line feed, come the events of both, or the error of the first, or else that of the
second. Remarks put in between the lines or taken out, line feeds behind carriage returns and white
space around the lines change neither the events nor the error. So the error is that of the first
line that cannot be read. -/
theorem parseEvents_by_line :
    (∀ front back, Closed front → parseEvents (front ++ back) =
      match parseEvents front, parseEvents back with
      | .ok before, .ok after => .ok (before ++ after)
      | .ok _, .error fault => .error fault
      | .error fault, _ => .error fault) ∧
    (∀ text dressed, EqvGen Redress text dressed → parseEvents dressed = parseEvents text) ∧
    ∀ text fault, parseEvents text = .error fault ↔
      ∃ front line back, (Text.lines text).map Text.trim = front ++ line :: back ∧
        (∀ l ∈ front, isComment l = true ∨ ∃ e, InputEvent.ofText l = .ok e) ∧
        isComment line = false ∧ InputEvent.ofText line = .error fault := by
  refine ⟨?_, ?_, fun text fault => parseEvents_eq_error_iff⟩
  · intro front back closed
    simp only [parseEvents_eq, eventLines_append_of_closed closed, List.mapM_append]
    cases (eventLines front).mapM InputEvent.ofText <;>
      cases (eventLines back).mapM InputEvent.ofText <;> rfl
  · intro text dressed redressed
    rw [parseEvents_eq, parseEvents_eq, eventLines_eq_of_redressed redressed]

/-- A line that is no event, below a remark and with other white space, and a second one below. -/
theorem parseEvents_by_line_unreadable :
    let text := ['[', '\n']
    let dressed := ['#', '\n'] ++ (['\t'] ++ (['['] ++ '\r' :: '\n' :: []))
    EqvGen Redress text dressed ∧ parseEvents (dressed ++ ['x']) = .error .truncated := by
  intro text dressed
  have starts : Closed ['#', '\n'] := .inr rfl
  have redressed : EqvGen Redress text dressed := by
    refine .trans _ _ _ (.rel _ _ (.returned ['['] [])) ?_
    have blank : IsPadding ['\t'] := ⟨by decide, by decide⟩
    have padded := Redress.before (.inl rfl : Closed []) blank ['[', '\r', '\n']
    refine .trans _ _ _ (.rel _ _ padded) (.rel _ _ ?_)
    have one : '\n' ∉ ['#'] := by decide
    exact .remark (.inl rfl : Closed []) one (by decide) (.inl rfl) _
  obtain ⟨joined, same, _⟩ := parseEvents_by_line
  have first : parseEvents text = .error .truncated := by
    rfl
  refine ⟨redressed, ?_⟩
  rw [joined dressed ['x'] (.inr rfl), same text dressed redressed, first]

end CorrelatedInput
