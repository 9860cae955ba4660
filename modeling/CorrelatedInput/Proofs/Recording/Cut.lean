import CorrelatedInput.Proofs.Json.Longer
import CorrelatedInput.Proofs.Recording.Recorder
/-!
Recordings that are cut off. The reader of the summary looks at the last line that is not blank; a
line that is only begun is no summary, whatever it was going to be, because no object is read before
its closing bracket.
-/
namespace CorrelatedInput

open Json

namespace Summary

/-- The two fields of a summary, read from left to right. -/
def fields : List FieldReader :=
  [⟨"accepted", word64.read, none⟩, ⟨"rejected", word64.read, none⟩]

theorem read_eq : shape.read = readRecord true fields := rfl

theorem fields_lasting : ∀ f ∈ fields, Lasting f.read := by
  intro f hf
  simp only [fields, List.mem_cons, List.not_mem_nil, or_false] at hf
  rcases hf with rfl | rfl <;> exact readInteger_lasting 0 18446744073709551615

/-- What is read as a summary from the beginning of an object is still read from the whole of it. -/
theorem read_of_begun {cut : List Char} {ms : List (String × Value)} {s : Summary}
    (begun : cut <+: (Value.object ms).write) (found : ofText cut = .ok s) :
    ∃ v rest more, (Value.object ms).write = cut ++ more ∧
      shape.read (Value.object ms).write = .ok (v, rest ++ more) := by
  obtain ⟨more, whole⟩ := begun
  cases cut with
  | nil => cases found
  | cons c cs =>
    have text := whole
    rw [Value.write_object] at text
    obtain ⟨rfl, _⟩ := List.cons.inj text
    obtain ⟨_, inner, _⟩ := of_bind_ok found
    obtain ⟨⟨v, rest⟩, read, _⟩ := of_bind_ok inner
    rw [← whole]
    exact ⟨v, rest, more, rfl, readRecord_longer fields_lasting read more⟩

theorem ofText_cut {cut : List Char} (s : Summary) (begun : cut <+: s.toValue.write)
    (short : cut ≠ s.toValue.write) : (ofText cut).toOption = none := by
  cases found : ofText cut with
  | error f => rfl
  | ok t =>
    obtain ⟨v, rest, more, whole, read⟩ := read_of_begun begun found
    have stop : EndsNumber [] := trivial
    have all := s.takes_shape (s.toValue_fits.laid.written .skip) stop
    rw [List.append_nil] at all
    -- the whole text is read to its end, so nothing of it is missing
    have none : rest ++ more = [] := (Prod.mk.inj (Except.ok.inj (read.symm.trans all))).2
    rw [(List.append_eq_nil_iff.mp none).2, List.append_nil] at whole
    exact absurd whole.symm short

theorem header_read (h : RecordingHeader) : shape.read h.toValue.write = .error .unfit := by
  let ms : List (String × Value) := [("schema_version", .text h.schemaVersion),
    ("epoch_wall", .text h.epochWall), ("sink", .text h.sink)]
  have unknown : ∀ m ∈ ms, fieldOf fields m = none := by simp [ms, fieldOf, fields]
  have laid : Laid 0 (.members true ms) (writeMembers ms ++ ['\x7d']) := by
    refine laid_members true (List.cons_ne_nil _ _) ?_
    intro m hm
    simp only [ms, List.mem_cons, List.not_mem_nil, or_false] at hm
    rcases hm with rfl | rfl | rfl <;> exact .text (spells_escape _)
  have none : known fields (fun _ v => v) ms = [] := by simp [known, ms, fieldOf, fields]
  have steps : (writeMembers ms ++ ['\x7d']).length ≤ enough (writeMembers ms ++ ['\x7d']) := by
    simp only [enough]
    omega
  have read := @Written.readFields fields 0 _ _ [] (fun _ v => v) true ms [] (laid.written .skip)
    steps
    (fun m hm f known => by rw [unknown m hm] at known; cases known) (by simp [none])
  rw [none, List.append_nil] at read
  rw [RecordingHeader.toValue, Value.write_object, read_eq, readRecord_object]
  exact congrArg (· >>= _) read

theorem ofText_header {cut : List Char} (h : RecordingHeader) (begun : cut <+: h.toValue.write) :
    (ofText cut).toOption = none := by
  cases found : ofText cut with
  | error f => rfl
  | ok t =>
    obtain ⟨v, rest, more, _, read⟩ := read_of_begun begun found
    cases read.symm.trans (header_read h)

end Summary

namespace Recording

section Lines

variable (header : RecordingHeader) (log : List Injected) (s : Summary)

/-- The lines of a recording that is not finished. -/
def openLines : List (List Char) := (remark ++ header.toValue.write) :: log.map outcomeLine

theorem summary?_of_lines {text line : List Char} {front : List (List Char)}
    (h : Text.lines text = front ++ [line]) (seen : line.all Text.isBlank = false) :
    summary? text = (Text.after? remark line).bind fun json => (Summary.ofText json).toOption := by
  simp [summary?, h, seen]

theorem openLines_visible : ∀ l ∈ openLines header log,
    ∃ c t, l = c :: t ∧ Text.isBlank c = false := by
  intro l hl
  simp only [openLines, List.mem_cons, List.mem_map] at hl
  rcases hl with rfl | ⟨i, _, rfl⟩
  · exact ⟨'#', _, rfl, by decide⟩
  · rw [outcomeLine, InputEvent.toText, InputEvent.toValue_eq, Value.write_object]
    split
    · exact ⟨'\x7b', _, rfl, by decide⟩
    · exact ⟨'#', _, rfl, by decide⟩

theorem visible_of_begun {q l : List Char} (begun : q <+: l) (some : q ≠ [])
    (visible : ∃ c t, l = c :: t ∧ Text.isBlank c = false) : q.all Text.isBlank = false := by
  obtain ⟨c, t, rfl, seen⟩ := visible
  rcases List.prefix_cons_iff.mp begun with none | ⟨u, rfl, _⟩
  · exact absurd none some
  · simp [seen]

theorem rejected_unread (text : List Char) {json : List Char}
    (begun : json <+: "rejected ".toList ++ text) : (Summary.ofText json).toOption = none := by
  rcases List.prefix_cons_iff.mp begun with rfl | ⟨t, rfl, _⟩
  · rfl
  · rfl

/-- No line of an unfinished recording holds a summary, nor does any beginning of one. -/
theorem openLines_unread {l q json : List Char} (hl : l ∈ openLines header log) (begun : q <+: l)
    (h : Text.after? remark q = some json) : (Summary.ofText json).toOption = none := by
  rw [Text.eq_of_after? h] at begun
  simp only [openLines, List.mem_cons, List.mem_map] at hl
  rcases hl with rfl | ⟨i, _, rfl⟩
  · exact Summary.ofText_header header ((List.prefix_append_right_inj remark).mp begun)
  · rw [outcomeLine] at begun
    split at begun
    · rw [InputEvent.toText, InputEvent.toValue_eq, Value.write_object] at begun
      cases (List.cons_prefix_cons.mp begun).1
    · exact rejected_unread _ ((List.prefix_append_right_inj remark).mp begun)

theorem openLines_whole : ∀ l ∈ openLines header log, '\n' ∉ l ∧ l.getLast? ≠ some '\r' := by
  intro l hl
  have ends : '\n' ∉ l ∧ l.getLast? = some '\x7d' := by
    simp only [openLines, List.mem_cons, List.mem_map] at hl
    rcases hl with rfl | ⟨i, _, rfl⟩
    · exact remark_line (header_fits header)
    · exact outcome_line i
  exact ⟨ends.1, by simp [ends.2]⟩

theorem summary?_unfinished {p : List Char} (cut : p <+: openText header log) :
    summary? p = none := by
  have visible := openLines_visible header log
  have lines := Text.lines_of_begun (fun l hl => by
    obtain ⟨one, last⟩ := openLines_whole header log l hl
    obtain ⟨c, t, rfl, _⟩ := visible l hl
    exact ⟨one, last, List.cons_ne_nil c t⟩) cut
  rcases lines with none | ⟨front, l, q, hl, begun, some, found⟩
  · simp [summary?, none]
  · rw [summary?_of_lines found (visible_of_begun begun some (visible l hl))]
    cases read : Text.after? remark q with
    | none => rfl
    | some json => exact openLines_unread header log hl begun read

theorem summary?_begun {q : List Char} (begun : q <+: remark ++ s.toValue.write) (some : q ≠ []) :
    summary? (openText header log ++ q) =
      if q = remark ++ s.toValue.write then Option.some s else none := by
  have one : '\n' ∉ q := fun feed => (remark_line s.toValue_fits).1 (begun.subset feed)
  have lines : Text.lines (openText header log ++ q) = openLines header log ++ [q] := by
    have text : openText header log = (openLines header log).flatMap fun l => l ++ ['\n'] := rfl
    rw [text, Text.lines_flatMap_append (openLines_whole header log)]
    exact congrArg _ (Text.linesFrom_single one some)
  have seen := visible_of_begun begun some ⟨'#', _, rfl, by decide⟩
  rw [summary?_of_lines lines seen]
  split
  · rename_i whole
    simp [whole, Except.toOption]
  · rename_i short
    cases read : Text.after? remark q with
    | none => rfl
    | some json =>
      rw [Text.eq_of_after? read] at begun short
      refine Summary.ofText_cut s ((List.prefix_append_right_inj remark).mp begun) ?_
      exact fun same => short (by rw [same])

/-- A recording that is cut off has a summary only if nothing but the ending of its last line is
missing. -/
theorem summary?_of_begun {p : List Char} (cut : p <+: finishedText header log s) :
    summary? p =
      if p = finishedText header log s ∨ p ++ ['\n'] = finishedText header log s then some s
      else none := by
  let trailer := remark ++ s.toValue.write
  have whole : finishedText header log s = openText header log ++ trailer ++ ['\n'] := by
    rw [← openText_finished, ← List.append_assoc]
  rw [whole] at cut
  rcases List.prefix_concat_iff.mp cut with all | within
  · rw [if_pos (.inl (all.trans whole.symm)), all, ← whole]
    exact summary?_finishedText header log s
  have short : p ≠ finishedText header log s := by
    rintro rfl
    have := within.length_le
    simp only [whole, List.length_append, List.length_singleton] at this
    omega
  have ends : p ++ ['\n'] = finishedText header log s ↔ p = openText header log ++ trailer := by
    rw [whole, List.append_left_inj]
  simp only [short, ends, false_or]
  by_cases before : p <+: openText header log
  · have shorter : p ≠ openText header log ++ trailer := by
      rintro rfl
      have := before.length_le
      simp only [trailer, remark, List.length_append, List.length_cons] at this
      omega
    rw [if_neg shorter, summary?_unfinished header log before]
  · -- more is there than before the recording was finished, so its last line is begun
    rcases Text.prefix_of_append within with absent | ⟨q, rfl, begun⟩
    · exact absurd absent before
    have some : q ≠ [] := by
      rintro rfl
      exact before (by simp)
    rw [summary?_begun header log s begun some]
    simp only [List.append_right_inj, trailer]

end Lines

end Recording

namespace Recorder

section Unfinished

variable {header : RecordingHeader} {log : List Injected} {r : Recorder} {s : Store}

theorem Open.serveAll_open (h : Open header log r s) {calls : List Call}
    (never : .finish ∉ calls) :
    Open header (log ++ Call.log calls) (r.serveAll s calls).2.1 (r.serveAll s calls).2.2 ∧
      (r.serveAll s calls).2.1.path = r.path := by
  induction calls generalizing log r s with
  | nil => simpa [Recorder.serveAll, Call.log] using h
  | cons call calls ih =>
    cases call with
    | record event accepted =>
      obtain ⟨next, t, answer, path, after⟩ := h.record event accepted
      have more := ih after (fun finish => never (List.mem_cons_of_mem _ finish))
      rw [List.append_assoc, path] at more
      simpa [Recorder.serveAll, answer, Call.log] using more
    | finish => exact absurd List.mem_cons_self never

/-- The file of an open recorder, as it is and when the recorder has been closed. -/
theorem Open.closes (h : Open header log r s) :
    ∃ kept whole, s.readText r.path = .ok kept ∧
      (r.close.save r.out s).readText r.path = .ok whole ∧ kept.toList <+: whole.toList ∧
      whole.toList = Recording.openText header log := by
  have grows : Grows r r.close := ⟨rfl, rfl, Buffer.flush_precedes r.out⟩
  refine ⟨r.out.saved, r.out.text, h.file.readText, (save_holds h.file grows).readText, ?_, h.text⟩
  rw [Buffer.text, String.toList_append]
  exact List.prefix_append _ _

end Unfinished

/-- A recording that is cut off is not taken for a finished one. Of a finished one nothing but the
ending of the last line may be missing, and one that was never finished has no summary at all,
neither while it is written nor when it was closed. -/
theorem summary_needs_whole_recording {path : String} {header : RecordingHeader} {s t : Store}
    {r : Recorder} (created : (create path header).perform s = (.ok r, t)) (calls : List Call) :
    let (_, last, u) := r.serveAll t calls
    (.finish ∈ calls → ∃ text, u.readText path = .ok text ∧
      text.toList = Recording.finishedText header (Call.log calls) last.summary ∧
      last.summary = Recording.counts (Call.log calls) ∧
      ∀ cut, cut <+: text.toList → Recording.summary? cut =
        if cut = text.toList ∨ cut ++ ['\n'] = text.toList then some last.summary else none) ∧
    (.finish ∉ calls → ∃ kept whole, u.readText path = .ok kept ∧
      (last.close.save last.out u).readText path = .ok whole ∧ kept.toList <+: whole.toList ∧
      ∀ cut, cut <+: whole.toList → Recording.summary? cut = none) := by
  obtain ⟨rfl, opened⟩ := create_open created
  constructor
  · intro finish
    obtain ⟨last, u, answers, ended⟩ := opened.serveAll calls
    obtain ⟨closed, same⟩ := ended finish
    have text := closed.text
    rw [← closed.summary] at text
    rw [answers]
    refine ⟨last.out.saved, same ▸ closed.file.readText, text, closed.summary, ?_⟩
    rw [text]
    intro cut begun
    exact Recording.summary?_of_begun header _ _ begun
  · intro never
    obtain ⟨still, same⟩ := opened.serveAll_open never
    obtain ⟨kept, whole, now, closed, begun, text⟩ := still.closes
    rw [same] at now closed
    refine ⟨kept, whole, now, closed, begun, ?_⟩
    rw [text]
    intro cut begun
    exact Recording.summary?_unfinished header _ begun

/-- One key that was pressed, in a recording whose header tries to look like a summary. -/
theorem summary_needs_whole_recording_key :
    let header : RecordingHeader :=
      ⟨"1.0", "\n# \x7b\x22accepted\x22:0,\x22rejected\x22:0\x7d\n", "memory"⟩
    let down : InputEvent := .key (.stamped 5 .down 66 0)
    ∃ r t, (create "keys.jsonl" header).perform Store.empty = (.ok r, t) ∧
      (∃ text, (r.serveAll t [.record down true, .finish]).2.2.readText "keys.jsonl" = .ok text ∧
        Recording.summary? text.toList = some ⟨1, 0⟩ ∧
        Recording.summary? text.toList.dropLast = some ⟨1, 0⟩ ∧
        Recording.summary? text.toList.dropLast.dropLast = none) ∧
      ∃ text, (r.serveAll t [.record down true]).2.2.readText "keys.jsonl" = .ok text ∧
        Recording.summary? text.toList = none := by
  intro header down
  obtain ⟨r, t, created⟩ : ∃ r t, (create "keys.jsonl" header).perform Store.empty = (.ok r, t) :=
    ⟨start "keys.jsonl" ["keys.jsonl"] header, _, rfl⟩
  obtain ⟨text, found, whole, counts, cuts⟩ :=
    (summary_needs_whole_recording created [.record down true, .finish]).1 (by simp)
  obtain ⟨kept, _, now, _, begun, none⟩ :=
    (summary_needs_whole_recording created [.record down true]).2 (by simp)
  rw [counts] at whole cuts
  refine ⟨r, t, created, ⟨text, found, ?_, ?_, ?_⟩, kept, now, none _ begun⟩
  · rw [cuts _ List.prefix_rfl, if_pos (.inl rfl)]
    rfl
  · have begun := List.dropLast_prefix text.toList
    rw [cuts _ begun, if_pos]
    · rfl
    · rw [whole]
      decide +kernel
  · have once := List.dropLast_prefix text.toList
    have twice := List.dropLast_prefix text.toList.dropLast
    rw [cuts _ (twice.trans once), if_neg]
    rw [whole]
    decide +kernel

end Recorder

end CorrelatedInput
