import CorrelatedInput.Input.Sink
import CorrelatedInput.Proofs.Input.EventText
import CorrelatedInput.Proofs.Json.Record
import CorrelatedInput.Recording.Text
/-!
The text of a finished recording, and what its three readers find in it. Each of them passes over
the lines that are for the others.
-/
namespace CorrelatedInput

open Json

/-! The summary -/

namespace Summary

theorem toValue_fits (s : Summary) : s.toValue.Fits (0 + 1) := by
  apply Value.Fits.object
  intro m hm
  simp only [List.mem_cons, List.not_mem_nil, or_false] at hm
  rcases hm with rfl | rfl
  · exact .integer (isWord_uint64 s.accepted)
  · exact .integer (isWord_uint64 s.rejected)

theorem shape_faithful : shape.Faithful := by
  apply faithful_record true (by decide)
  intro f hf
  simp only [Fields.list, List.mem_cons, List.not_mem_nil, or_false] at hf
  rcases hf with rfl | rfl <;> exact faithful_integer ..

theorem takes_shape (s : Summary) :
    Takes shape.read s.toValue (.array [.integer s.accepted.toNat, .integer s.rejected.toNat]) := by
  apply shape_faithful
  simp [shape, toValue, conform?_members, Fields.list, Field.conform?, named]

@[simp] theorem ofText_write (s : Summary) : ofText s.toValue.write = .ok s := by
  have stop : EndsNumber [] := trivial
  have read := s.takes_shape (s.toValue_fits.laid.written .skip) stop
  rw [List.append_nil] at read
  have none : ([] : List Char).all isBlank = true := rfl
  apply readAll_blanks _ none
  simp [read, ofValue?, bind, Except.bind, pure, Except.pure]

end Summary

namespace Recording

def accepted (log : List Injected) : List InputEvent := (log.filter (·.accepted)).map (·.event)

def rejected (log : List Injected) : List InputEvent := (log.filter (!·.accepted)).map (·.event)

/-- How many events of a log were accepted, and how many were not. -/
def counts (log : List Injected) : Summary :=
  ⟨UInt64.ofNat (accepted log).length, UInt64.ofNat (rejected log).length⟩

theorem counts_add (log : List Injected) (i : Injected) :
    (counts log).add i.accepted = counts (log ++ [i]) := by
  cases verdict : i.accepted <;> simp [Summary.add, counts, accepted, rejected, verdict]

theorem counts_exact {log : List Injected} (countable : log.length < UInt64.size) :
    (counts log).accepted.toNat = (accepted log).length ∧
      (counts log).rejected.toNat = (rejected log).length := by
  have taken : (accepted log).length ≤ log.length := by
    rw [accepted, List.length_map]
    exact List.length_filter_le _ log
  have refused : (rejected log).length ≤ log.length := by
    rw [rejected, List.length_map]
    exact List.length_filter_le _ log
  exact ⟨UInt64.toNat_ofNat_of_lt' (taken.trans_lt countable),
    UInt64.toNat_ofNat_of_lt' (refused.trans_lt countable)⟩

def outcomeLine (i : Injected) : List Char :=
  (if i.accepted then [] else rejection) ++ i.event.toText

/-- The lines of a recording: its header, the outcomes in order, and its summary. -/
def finishedLines (header : RecordingHeader) (log : List Injected) (s : Summary) :
    List (List Char) :=
  (remark ++ header.toValue.write) :: log.map outcomeLine ++ [remark ++ s.toValue.write]

def finishedText (header : RecordingHeader) (log : List Injected) (s : Summary) : List Char :=
  (finishedLines header log s).flatMap fun l => l ++ ['\n']

/-- The text of a recording that is not finished. -/
def openText (header : RecordingHeader) (log : List Injected) : List Char :=
  ((remark ++ header.toValue.write) :: log.map outcomeLine).flatMap fun l => l ++ ['\n']

theorem openText_append (header : RecordingHeader) (log : List Injected) (i : Injected) :
    openText header log ++ (outcomeLine i ++ ['\n']) = openText header (log ++ [i]) := by
  simp [openText]

theorem openText_finished (header : RecordingHeader) (log : List Injected) (s : Summary) :
    openText header log ++ (remark ++ s.toValue.write ++ ['\n']) = finishedText header log s := by
  simp [openText, finishedText, finishedLines]

theorem header_fits (h : RecordingHeader) : h.toValue.Fits (0 + 1) := by
  apply Value.Fits.object
  intro m hm
  simp only [List.mem_cons, List.not_mem_nil, or_false] at hm
  rcases hm with rfl | rfl | rfl <;> exact .text _

theorem comment_line {line : List Char} (first : line.head? = some '#')
    (last : line.getLast? = some '\x7d') : isComment (Text.trim line) = true := by
  have marks : Text.isBlank '#' = false ∧ Text.isBlank '\x7d' = false := by decide
  rw [Text.trim_eq_self (by simpa [first] using marks.1) (by simpa [last] using marks.2)]
  cases line with
  | nil => rfl
  | cons c line =>
    cases first
    rfl

section Lines

variable {depth : Nat} {ms : List (String × Value)}

theorem object_behind {pre : List Char} (one : '\n' ∉ pre) (fits : (Value.object ms).Fits depth) :
    '\n' ∉ pre ++ (Value.object ms).write ∧
      (pre ++ (Value.object ms).write).getLast? = some '\x7d' := by
  obtain ⟨one', _, last⟩ := fits.object_line
  constructor
  · simp [one, one']
  · simp [List.getLast?_append, last]

theorem remark_line (fits : (Value.object ms).Fits depth) :
    '\n' ∉ remark ++ (Value.object ms).write ∧
      (remark ++ (Value.object ms).write).getLast? = some '\x7d' :=
  object_behind (by decide) fits

theorem outcome_line (i : Injected) :
    '\n' ∉ outcomeLine i ∧ (outcomeLine i).getLast? = some '\x7d' := by
  have fits : i.event.toValue.Fits (0 + 3) := i.event.toValue_fits
  rw [InputEvent.toValue_eq] at fits
  rw [outcomeLine, InputEvent.toText, InputEvent.toValue_eq]
  refine object_behind ?_ fits
  split
  · exact List.not_mem_nil
  · decide

end Lines

variable (header : RecordingHeader) (log : List Injected) (s : Summary)

theorem lines_finishedText :
    Text.lines (finishedText header log s) = finishedLines header log s := by
  apply Text.lines_flatMap
  intro l hl
  have ends : '\n' ∉ l ∧ l.getLast? = some '\x7d' := by
    simp only [finishedLines, List.cons_append, List.mem_cons, List.mem_append, List.mem_map,
      List.not_mem_nil, or_false] at hl
    rcases hl with rfl | ⟨i, _, rfl⟩ | rfl
    · exact remark_line (header_fits header)
    · exact outcome_line i
    · exact remark_line s.toValue_fits
  constructor
  · exact ends.1
  · simp [ends.2]

theorem parseEvents_finishedText :
    parseEvents (finishedText header log s) = .ok (accepted log) := by
  have none : IsPadding [] := ⟨rfl, List.not_mem_nil⟩
  have summary : Dressed [] (remark ++ s.toValue.write ++ (['\n'] ++ [])) := by
    obtain ⟨one, last⟩ := remark_line s.toValue_fits
    exact .other one (comment_line rfl last) (.inl rfl) .done
  have outcomes : Dressed (accepted log) (log.flatMap (fun i => outcomeLine i ++ ['\n']) ++
      (remark ++ s.toValue.write ++ (['\n'] ++ []))) := by
    induction log with
    | nil => exact summary
    | cons i log ih =>
      cases verdict : i.accepted with
      | true =>
        have line := Dressed.event i.event none none (.inl rfl) ih
        simpa [accepted, outcomeLine, verdict] using line
      | false =>
        obtain ⟨one, last⟩ := outcome_line i
        have first : (outcomeLine i).head? = some '#' := by
          rw [outcomeLine, verdict]
          rfl
        have line := Dressed.other one (comment_line first last) (.inl rfl) ih
        simpa [accepted, verdict] using line
  have ends : '\n' ∉ remark ++ header.toValue.write ∧
      (remark ++ header.toValue.write).getLast? = some '\x7d' := remark_line (header_fits header)
  have whole := Dressed.other ends.1 (comment_line rfl ends.2) (.inl rfl) outcomes
  refine Dressed.parse ?_
  simpa [finishedText, finishedLines, List.flatMap_map] using whole

theorem rejectedEvents_finishedText :
    rejectedEvents (finishedText header log s) = .ok (rejected log) := by
  have other (ms : List (String × Value)) :
      Text.after? rejection (remark ++ (Value.object ms).write) = none := by
    rw [Value.write]
    rfl
  have outcomes : (log.map outcomeLine).filterMap (Text.after? rejection) =
      (rejected log).map InputEvent.toText := by
    induction log with
    | nil => rfl
    | cons i log ih =>
      have read : Text.after? rejection (outcomeLine i) =
          if i.accepted then none else some i.event.toText := by
        cases verdict : i.accepted with
        | true =>
          rw [outcomeLine, InputEvent.toText, InputEvent.toValue_eq, Value.write, verdict]
          rfl
        | false => simp [outcomeLine, verdict]
      cases verdict : i.accepted <;> simp_all [rejected]
  have lines : (finishedLines header log s).filterMap (Text.after? rejection) =
      (rejected log).map InputEvent.toText := by
    have first : Text.after? rejection (remark ++ header.toValue.write) = none := other _
    have last : Text.after? rejection (remark ++ s.toValue.write) = none := other _
    simp only [finishedLines, List.cons_append, List.filterMap_cons, first, List.filterMap_append,
      outcomes, last, List.filterMap_nil, List.append_nil]
  rw [rejectedEvents, lines_finishedText, lines, mapM_ofText_toText]

theorem summary?_finishedText : summary? (finishedText header log s) = some s := by
  have some : (remark ++ s.toValue.write).all Text.isBlank = false := rfl
  simp [summary?, lines_finishedText, finishedLines, some, Except.toOption]

end Recording

end CorrelatedInput
