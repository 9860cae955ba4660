import CorrelatedInput.Text.Blank
import CorrelatedInput.Text.Line
import Mathlib.Data.List.TakeWhile
/-!
The lines of a text, and lines without the white space at their ends. How a line ends makes no
difference once it is trimmed.
-/
namespace CorrelatedInput.Text

/-! Lines -/

theorem lines_append {line : List Char} (one : '\n' ∉ line) (rest : List Char) :
    lines (line ++ '\n' :: rest) = unended line.reverse :: lines rest := by
  have from_ (held : List Char) :
      linesFrom held (line ++ '\n' :: rest) = unended (line.reverse ++ held) :: lines rest := by
    induction line generalizing held with
    | nil => simp [linesFrom, lines]
    | cons c line ih =>
      have other : c ≠ '\n' := fun same => one (same ▸ List.mem_cons_self)
      have one : '\n' ∉ line := fun hm => one (List.mem_cons_of_mem c hm)
      rw [List.cons_append, linesFrom]
      simp [other, ih one]
  simpa [lines] using from_ []

theorem unended_reverse {line : List Char} (last : line.getLast? ≠ some '\r') :
    unended line.reverse = line := by
  unfold unended
  split
  · rename_i held same
    have : line = held.reverse ++ ['\r'] := by rw [← List.reverse_reverse line, same]; simp
    exact absurd (by rw [this, List.getLast?_concat]) last
  · exact List.reverse_reverse line

theorem lines_flatMap_append {ls : List (List Char)}
    (h : ∀ l ∈ ls, '\n' ∉ l ∧ l.getLast? ≠ some '\r') (rest : List Char) :
    lines ((ls.flatMap fun l => l ++ ['\n']) ++ rest) = ls ++ lines rest := by
  induction ls with
  | nil => rfl
  | cons l ls ih =>
    obtain ⟨one, last⟩ := h l List.mem_cons_self
    have more := ih fun k hk => h k (List.mem_cons_of_mem l hk)
    rw [List.flatMap_cons, List.append_assoc, List.append_assoc, List.singleton_append,
      lines_append one, unended_reverse last, more]
    rfl

theorem lines_flatMap {ls : List (List Char)}
    (h : ∀ l ∈ ls, '\n' ∉ l ∧ l.getLast? ≠ some '\r') :
    lines (ls.flatMap fun l => l ++ ['\n']) = ls := by
  have whole := lines_flatMap_append h []
  simpa [lines, linesFrom] using whole

theorem linesFrom_single {held line : List Char} (one : '\n' ∉ line)
    (some : held.reverse ++ line ≠ []) : linesFrom held line = [held.reverse ++ line] := by
  induction line generalizing held with
  | nil =>
    cases held with
    | nil => exact absurd rfl some
    | cons c held => simp [linesFrom]
  | cons c line ih =>
    have other : c ≠ '\n' := fun same => one (same ▸ List.mem_cons_self)
    have one : '\n' ∉ line := fun hm => one (List.mem_cons_of_mem c hm)
    rw [linesFrom, if_neg other, ih one (by simp)]
    simp

/-- The end of a text where another line may begin: nothing stands before it, or a line feed. -/
def Closed (text : List Char) : Prop := text = [] ∨ text.getLast? = some '\n'

theorem linesFrom_append_feed (held front back : List Char) :
    linesFrom held (front ++ '\n' :: back) = linesFrom held (front ++ ['\n']) ++ lines back := by
  induction front generalizing held with
  | nil => simp [linesFrom, lines]
  | cons c front ih =>
    by_cases feed : c = '\n'
    · simp [linesFrom, feed, ih]
    · simp [linesFrom, feed, ih]

theorem lines_append_of_closed {front : List Char} (closed : Closed front) (back : List Char) :
    lines (front ++ back) = lines front ++ lines back := by
  rcases closed with rfl | last
  · rfl
  · obtain ⟨begun, rfl⟩ := List.getLast?_eq_some_iff.mp last
    rw [List.append_assoc, List.singleton_append]
    exact linesFrom_append_feed [] begun back

theorem closed_append (front : List Char) {back : List Char} (closed : Closed back)
    (some : back ≠ []) : Closed (front ++ back) := by
  rcases closed with none | last
  · exact absurd none some
  · exact .inr (by rw [List.getLast?_append, last]; rfl)

/-- Every text is whole lines and a line that is only begun. -/
theorem exists_closed_append (text : List Char) :
    ∃ front line, Closed front ∧ '\n' ∉ line ∧ text = front ++ line := by
  induction text with
  | nil => exact ⟨[], [], .inl rfl, List.not_mem_nil, rfl⟩
  | cons c text ih =>
    obtain ⟨front, line, closed, one, rfl⟩ := ih
    by_cases none : front = []
    · by_cases feed : c = '\n'
      · exact ⟨[c], line, .inr (by rw [feed]; rfl), one, by rw [none]; rfl⟩
      · refine ⟨[], c :: line, .inl rfl, ?_, by rw [none]; rfl⟩
        simp [one, Ne.symm feed]
    · exact ⟨c :: front, line, closed_append [c] closed none, one, rfl⟩

/-- Every text is a line and what begins with a line feed, if anything follows. -/
theorem exists_line_append (text : List Char) :
    ∃ line back, '\n' ∉ line ∧ (back = [] ∨ ∃ rest, back = '\n' :: rest) ∧
      text = line ++ back := by
  induction text with
  | nil => exact ⟨[], [], List.not_mem_nil, .inl rfl, rfl⟩
  | cons c text ih =>
    obtain ⟨line, back, one, stop, rfl⟩ := ih
    by_cases feed : c = '\n'
    · exact ⟨[], c :: (line ++ back), List.not_mem_nil, .inr ⟨_, by rw [feed]⟩, rfl⟩
    · refine ⟨c :: line, back, ?_, stop, rfl⟩
      simp [one, Ne.symm feed]

theorem prefix_of_append {p front back : List Char} (h : p <+: front ++ back) :
    p <+: front ∨ ∃ q, p = front ++ q ∧ q <+: back := by
  obtain ⟨rest, whole⟩ := h
  rcases List.append_eq_append_iff.mp whole with ⟨more, rfl, _⟩ | ⟨q, rfl, rfl⟩
  · exact .inl ⟨more, rfl⟩
  · exact .inr ⟨q, rfl, rest, rfl⟩

/-- The lines of a text that is cut off: whole ones, and the last one perhaps only begun. -/
theorem lines_of_begun {ls : List (List Char)} {p : List Char}
    (h : ∀ l ∈ ls, '\n' ∉ l ∧ l.getLast? ≠ some '\r' ∧ l ≠ [])
    (cut : p <+: ls.flatMap fun l => l ++ ['\n']) :
    lines p = [] ∨ ∃ front l q, l ∈ ls ∧ q <+: l ∧ q ≠ [] ∧ lines p = front ++ [q] := by
  induction ls generalizing p with
  | nil =>
    rw [List.flatMap_nil, List.prefix_nil] at cut
    exact .inl (by rw [cut]; rfl)
  | cons l ls ih =>
    obtain ⟨one, last, some⟩ := h l List.mem_cons_self
    have whole (p : List Char) : lines (l ++ ['\n'] ++ p) = l :: lines p := by
      rw [List.append_assoc, List.singleton_append, lines_append one, unended_reverse last]
    rw [List.flatMap_cons] at cut
    rcases prefix_of_append cut with inside | ⟨p, rfl, later⟩
    · rcases List.prefix_concat_iff.mp inside with rfl | begun
      · have ends := whole []
        rw [List.append_nil] at ends
        exact .inr ⟨[], l, l, List.mem_cons_self, List.prefix_rfl, some, ends⟩
      · by_cases none : p = []
        · exact .inl (by rw [none]; rfl)
        · have one : '\n' ∉ p := fun feed => one (begun.subset feed)
          exact .inr ⟨[], l, p, List.mem_cons_self, begun, none, linesFrom_single one none⟩
    · rw [whole]
      have others := ih (fun k hk => h k (List.mem_cons_of_mem l hk)) later
      rcases others with none | ⟨front, k, q, hk, begun, some', found⟩
      · exact .inr ⟨[], l, l, List.mem_cons_self, List.prefix_rfl, some, by rw [none]; rfl⟩
      · exact .inr ⟨l :: front, k, q, List.mem_cons_of_mem l hk, begun, some', by rw [found]; rfl⟩

theorem eq_of_after? {start text rest : List Char} (h : after? start text = some rest) :
    text = start ++ rest := by
  induction start generalizing text with
  | nil => exact Option.some.inj h
  | cons c start ih =>
    cases text with
    | nil => cases h
    | cons d text =>
      rw [after?] at h
      split at h
      · rename_i same
        rw [ih h, same]
        rfl
      · cases h

@[simp] theorem after?_append (start text : List Char) :
    after? start (start ++ text) = some text := by
  induction start with
  | nil => rfl
  | cons c start ih => simp [after?, ih]

/-! White space -/

section Trim

variable {before after cs : List Char}

theorem trim_prepend (blank : before.all isBlank = true) (cs : List Char) :
    trim (before ++ cs) = trim cs := by
  simp only [trim, List.dropWhile_append_of_pos (List.all_eq_true.mp blank)]

theorem trim_append (blank : after.all isBlank = true) (cs : List Char) :
    trim (cs ++ after) = trim cs := by
  have gone : after.dropWhile isBlank = [] :=
    List.dropWhile_eq_nil_iff.mpr (List.all_eq_true.mp blank)
  have backwards : ∀ c ∈ after.reverse, isBlank c = true := by simpa using blank
  simp only [trim, List.dropWhile_append]
  split
  · rename_i none
    simp [List.isEmpty_iff.mp none, gone]
  · rw [List.reverse_append, List.dropWhile_append_of_pos backwards]

theorem trim_eq_self (first : ∀ c ∈ cs.head?, isBlank c = false)
    (last : ∀ c ∈ cs.getLast?, isBlank c = false) : trim cs = cs := by
  have keep {cs : List Char} (first : ∀ c ∈ cs.head?, isBlank c = false) :
      cs.dropWhile isBlank = cs := by
    cases cs with
    | nil => rfl
    | cons c cs => simp [first c rfl]
  have back : ∀ c ∈ cs.reverse.head?, isBlank c = false := by simpa using last
  rw [trim, keep first, keep back, List.reverse_reverse]

theorem trim_trim (cs : List Char) : trim (trim cs) = trim cs := by
  have stops (ds : List Char) : ∀ c ∈ (ds.dropWhile isBlank).head?, isBlank c = false := by
    intro c first
    have := List.head?_dropWhile_not isBlank ds
    rwa [first] at this
  apply trim_eq_self
  · intro c first
    -- what is left begins where it began when only the front was taken off
    obtain ⟨back, whole⟩ : trim cs <+: cs.dropWhile isBlank := by
      rw [trim, ← List.reverse_suffix, List.reverse_reverse]
      exact List.dropWhile_suffix isBlank
    apply stops cs c
    rw [← whole]
    rw [List.head?_append, Option.mem_def.mp first]
    rfl
  · intro c last
    rw [trim, List.getLast?_reverse] at last
    exact stops _ c last
/-- A carriage return that belongs to the ending of a line would be trimmed anyway. -/
theorem trim_unended (held : List Char) : trim (unended held) = trim held.reverse := by
  unfold unended
  split
  · rename_i held
    rw [List.reverse_cons, trim_append (by decide)]
  · rfl

theorem trim_lines_append {line : List Char} (one : '\n' ∉ line) (rest : List Char) :
    (lines (line ++ '\n' :: rest)).map trim = trim line :: (lines rest).map trim := by
  rw [lines_append one, List.map_cons, trim_unended, List.reverse_reverse]

end Trim

end CorrelatedInput.Text
