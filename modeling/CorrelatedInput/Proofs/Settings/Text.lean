import CorrelatedInput.Proofs.Json.Pretty
import CorrelatedInput.Proofs.Json.Record
import CorrelatedInput.Settings.Text
/-!
Settings in a text. Each of them may be written or left out, in any order and among others, and is
read as it was written or by default. The text that is written for settings has all of them.
-/
namespace CorrelatedInput

open Json

/-! Settings of which some are written -/

structure Timing.Draft where
  clickDuration : Option UInt64 := none
  injectionDelay : Option UInt64 := none
  scrollTimeout : Option UInt64 := none
  longPress : Option UInt64 := none

structure Logging.Draft where
  level : Option String := none
  json : Option Bool := none
  /-- A file may be written as none. -/
  file : Option (Option String) := none

structure Settings.Draft where
  timing : Option Timing.Draft := none
  logging : Option Logging.Draft := none

def Timing.Draft.completed (d : Timing.Draft) : Timing :=
  let assumed : Timing := {}
  { clickDuration := d.clickDuration.getD assumed.clickDuration
    injectionDelay := d.injectionDelay.getD assumed.injectionDelay
    scrollTimeout := d.scrollTimeout.getD assumed.scrollTimeout
    longPress := d.longPress.getD assumed.longPress }

def Logging.Draft.completed (d : Logging.Draft) : Logging :=
  let assumed : Logging := {}
  { level := d.level.getD assumed.level
    json := d.json.getD assumed.json
    file := d.file.getD assumed.file }

def Settings.Draft.completed (d : Settings.Draft) : Settings :=
  let assumed : Settings := {}
  { timing := (d.timing.map Timing.Draft.completed).getD assumed.timing
    logging := (d.logging.map Logging.Draft.completed).getD assumed.logging }

/-! Drafts among the members of an object -/

structure Timing.Draft.In (d : Timing.Draft) (ms : List (String × Value)) : Prop where
  clickDuration : Gives "click_duration_ms" (fun n v => v = .integer n.toNat) ms d.clickDuration
  injectionDelay : Gives "injection_delay_ms" (fun n v => v = .integer n.toNat) ms d.injectionDelay
  scrollTimeout :
    Gives "scroll_event_timeout_ms" (fun n v => v = .integer n.toNat) ms d.scrollTimeout
  longPress : Gives "long_press_fallback_ms" (fun n v => v = .integer n.toNat) ms d.longPress

structure Logging.Draft.In (d : Logging.Draft) (ms : List (String × Value)) : Prop where
  level : Gives "level" (fun s v => v = .text s) ms d.level
  json : Gives "json" (fun b v => v = .bool b) ms d.json
  file : Gives "file" (fun o v => v = o.elim .null .text) ms d.file

structure Settings.Draft.In (d : Settings.Draft) (ms : List (String × Value)) : Prop where
  timing : Gives "interaction" (fun d v => ∃ ns, v = .object ns ∧ d.In ns) ms d.timing
  logging : Gives "logging" (fun d v => ∃ ns, v = .object ns ∧ d.In ns) ms d.logging

section Reading

variable {ms : List (String × Value)}

theorem Timing.Draft.In.conform? {d : Timing.Draft} (h : d.In ms) :
    Timing.shape.conform? (.object ms) = some (.array (d.completed.fields.map Prod.snd)) := by
  have word {name : String} {o : Option UInt64} (assumed : UInt64)
      (given : Gives name (fun n v => v = .integer n.toNat) ms o) :
      (Json.Field.mk name word64 (some (.integer assumed.toNat))).conform? ms =
        some (.integer (o.getD assumed).toNat) :=
    @Gives.conform? ms _ _ ⟨name, word64, _⟩ (fun n : UInt64 => .integer n.toNat) assumed rfl
      (by rintro n _ rfl; exact conform?_word64 n) o given
  exact conform?_fields (.cons (word _ h.clickDuration) (.cons (word _ h.injectionDelay)
    (.cons (word _ h.scrollTimeout) (.cons (word _ h.longPress) .nil))))

theorem Logging.Draft.In.conform? {d : Logging.Draft} (h : d.In ms) :
    Logging.shape.conform? (.object ms) = some (.array (d.completed.fields.map Prod.snd)) := by
  have level : (Json.Field.mk "level" .text (some (.text "info"))).conform? ms =
      some (.text (d.level.getD "info")) :=
    @Gives.conform? ms _ _ ⟨"level", .text, _⟩ .text _ rfl (by rintro s _ rfl; rfl) _ h.level
  have json : (Json.Field.mk "json" .flag (some (.bool false))).conform? ms =
      some (.bool (d.json.getD false)) :=
    @Gives.conform? ms _ _ ⟨"json", .flag, _⟩ .bool _ rfl (by rintro b _ rfl; rfl) _ h.json
  have file : (Json.Field.mk "file" (.optional .text) (some .null)).conform? ms =
      some ((d.file.getD none).elim .null .text) :=
    @Gives.conform? ms _ _ ⟨"file", .optional .text, _⟩ (fun o => o.elim .null .text) none rfl
      (by rintro (_ | _) _ rfl <;> rfl) _ h.file
  exact conform?_fields (.cons level (.cons json (.cons file .nil)))

/-- What settings are read as. -/
def Settings.record (s : Settings) : Value :=
  .array [.array (s.timing.fields.map Prod.snd), .array (s.logging.fields.map Prod.snd)]

theorem Settings.Draft.In.conform? {d : Settings.Draft} (h : d.In ms) :
    Settings.shape.conform? (.object ms) = some d.completed.record := by
  let timed (d : Timing.Draft) : Value := .array (d.completed.fields.map Prod.snd)
  let logged (d : Logging.Draft) : Value := .array (d.completed.fields.map Prod.snd)
  have timing : (Json.Field.mk "interaction" Timing.shape (some (timed {}))).conform? ms =
      some (timed (d.timing.getD {})) :=
    @Gives.conform? ms _ _ ⟨"interaction", Timing.shape, _⟩ timed {} rfl
      (by rintro d _ ⟨ns, rfl, given⟩; exact given.conform?) _ h.timing
  have logging : (Json.Field.mk "logging" Logging.shape (some (logged {}))).conform? ms =
      some (logged (d.logging.getD {})) :=
    @Gives.conform? ms _ _ ⟨"logging", Logging.shape, _⟩ logged {} rfl
      (by rintro d _ ⟨ns, rfl, given⟩; exact given.conform?) _ h.logging
  have whole : d.completed.record =
      .array [timed (d.timing.getD {}), logged (d.logging.getD {})] := by
    rw [Settings.record, completed]
    cases d.timing <;> cases d.logging <;> rfl
  rw [whole]
  exact conform?_fields (.cons timing (.cons logging .nil))

/-! Reading them -/

theorem Timing.shape_faithful : Timing.shape.Faithful := by
  apply faithful_record true (by decide)
  intro f hf
  simp only [Timing.fields, List.map_cons, List.map_nil, List.foldr_cons, List.foldr_nil,
    Fields.list, List.mem_cons, List.not_mem_nil, or_false] at hf
  rcases hf with rfl | rfl | rfl | rfl <;> exact faithful_integer ..

theorem Logging.shape_faithful : Logging.shape.Faithful := by
  apply faithful_record true (by decide)
  intro f hf
  simp only [List.foldr_cons, List.foldr_nil, Fields.list, List.mem_cons, List.not_mem_nil,
    or_false] at hf
  rcases hf with rfl | rfl | rfl
  · exact faithful_text
  · exact faithful_flag
  · exact faithful_optional faithful_text

theorem Settings.shape_faithful : Settings.shape.Faithful := by
  apply faithful_record true (by decide)
  intro f hf
  simp only [List.foldr_cons, List.foldr_nil, Fields.list, List.mem_cons, List.not_mem_nil,
    or_false] at hf
  rcases hf with rfl | rfl
  · exact Timing.shape_faithful
  · exact Logging.shape_faithful

theorem Settings.ofValue?_record (s : Settings) : ofValue? s.record = some s := by
  obtain ⟨timing, logging⟩ := s
  obtain ⟨level, json, file⟩ := logging
  cases file <;> simp [ofValue?, record, Timing.ofValue?, Timing.fields, Logging.ofValue?,
    Logging.fields]

/-- Whatever is written, in whatever way, the settings are read that are given, and the others by
default. -/
theorem Settings.ofText_of_written {d : Settings.Draft} (h : d.In ms) {depth : Nat}
    {cs after : List Char} (written : Written .skip depth (.value (.object ms)) cs)
    (blank : after.all isBlank = true) : ofText (cs ++ after) = .ok d.completed := by
  have read := shape_faithful h.conform? written (endsNumber_blanks blank)
  apply readAll_blanks _ blank
  simp only [read, ofValue?_record, bind, Except.bind]
  rfl

end Reading

/-! Writing them -/

section Writing

variable (s : Settings)

/-- All settings. -/
def Settings.draft : Settings.Draft where
  timing := some {
    clickDuration := s.timing.clickDuration
    injectionDelay := s.timing.injectionDelay
    scrollTimeout := s.timing.scrollTimeout
    longPress := s.timing.longPress }
  logging := some {
    level := s.logging.level
    json := s.logging.json
    file := some s.logging.file }

theorem Settings.toValue_eq : ∃ ms, s.toValue = .object ms ∧ s.draft.In ms := by
  refine ⟨_, rfl, ?_, ?_⟩
  · refine ⟨_, rfl, _, rfl, ?_, ?_, ?_, ?_⟩ <;> exact ⟨_, rfl, rfl⟩
  · refine ⟨_, rfl, _, rfl, ?_, ?_, ?_⟩ <;> exact ⟨_, rfl, rfl⟩

theorem Settings.toValue_fits : s.toValue.Fits (0 + 1 + 1) := by
  apply Value.Fits.object
  intro m hm
  simp only [List.mem_cons, List.not_mem_nil, or_false] at hm
  rcases hm with rfl | rfl
  · apply Value.Fits.object
    intro m hm
    simp only [Timing.fields, List.mem_cons, List.not_mem_nil, or_false] at hm
    rcases hm with rfl | rfl | rfl | rfl <;> exact .integer (isWord_uint64 _)
  · apply Value.Fits.object
    intro m hm
    simp only [Logging.fields, List.mem_cons, List.not_mem_nil, or_false] at hm
    rcases hm with rfl | rfl | rfl
    · exact .text _
    · exact .bool _
    · cases s.logging.file with
      | none => exact .null
      | some file => exact .text file

/-- The text that is written for settings is read as these settings. -/
theorem Settings.ofText_toText {after : List Char} (blank : after.all isBlank = true) :
    ofText (s.toText.toList ++ after) = .ok s := by
  obtain ⟨ms, same, given⟩ := s.toValue_eq
  have laid := s.toValue_fits.laidOut 0
  rw [same] at laid
  have read := ofText_of_written given (laid.written .skip) blank
  rw [toText, Value.pretty, String.toList_ofList, same]
  exact read

end Writing

end CorrelatedInput
