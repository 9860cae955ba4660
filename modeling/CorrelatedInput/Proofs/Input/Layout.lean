import CorrelatedInput.Proofs.Input.Lines
import CorrelatedInput.Proofs.Json.Members
/-!
Events on lines of any layout. What is read depends on the members that an event has, not on how
they are arranged and spelled; only a known member that stands twice cannot be read.
-/
namespace CorrelatedInput

open Json

/-! One object on a line -/

section Line

variable {depth : Nat} {first : Bool} {ms : List (String × Value)} {cs after : List Char}

theorem Json.Laid.members_last (h : Laid depth (.members first ms) cs) :
    cs.getLast? = some '\x7d' := by
  generalize same : Part.members first ms = part at h
  induction h generalizing first ms with
  | @blank _ _ c cs _ more ih =>
    have last := ih same
    rw [← List.singleton_append, List.getLast?_append, last]
    rfl
  | lastMember => rfl
  | @member _ _ before between ks key v ms cs ds _ _ _ _ _ _ ih =>
    have last := ih rfl
    simp [List.getLast?_append, List.getLast?_cons, last]
  | _ => cases same

/-- An object is laid out from one brace to the other, perhaps behind white space. -/
theorem Json.Laid.object_body (h : Laid depth (.value (.object ms)) cs) :
    ∃ before body, cs = before ++ body ∧ before.all Json.isBlank = true ∧
      Laid depth (.value (.object ms)) body ∧ body.head? = some '\x7b' ∧
      body.getLast? = some '\x7d' := by
  generalize same : Part.value (.object ms) = part at h
  induction h with
  | @object depth ns cs members _ =>
    cases same
    refine ⟨[], _, rfl, rfl, .object members, rfl, ?_⟩
    rw [← List.singleton_append, List.getLast?_append, members.members_last]
    rfl
  | @blank _ _ c cs blank _ ih =>
    obtain ⟨before, body, rfl, blanks, laid, ends⟩ := ih same
    exact ⟨c :: before, body, rfl, by simp [blank, blanks], laid, ends⟩
  | _ => cases same

theorem isBlank_of_json {cs : List Char} (blank : cs.all Json.isBlank = true) :
    cs.all Text.isBlank = true := by
  rw [List.all_eq_true] at blank ⊢
  intro c hc
  have some := blank c hc
  simp only [Json.isBlank, Bool.or_eq_true, decide_eq_true_eq] at some
  rcases some with ((rfl | rfl) | rfl) | rfl <;> decide

theorem parseEvents_object (h : Laid depth (.value (.object ms)) cs) (room : depth ≤ depthLimit)
    (blank : after.all Json.isBlank = true) (one : '\n' ∉ cs ++ after) :
    parseEvents (cs ++ after) =
      (orUnfit ((untag "type" ["motion", "key"] none ms).bind fun result =>
        InputEvent.ofTagged? result.1 (.object result.2))).map fun e => [e] := by
  obtain ⟨before, body, rfl, blank', laid, front, back⟩ := h.object_body
  have brace : Text.isBlank '\x7b' = false ∧ Text.isBlank '\x7d' = false := by decide
  have trim : Text.trim (before ++ body ++ after) = body := by
    rw [Text.trim_append (isBlank_of_json blank), Text.trim_prepend (isBlank_of_json blank')]
    apply Text.trim_eq_self
    · simpa [front] using brace.1
    · simpa [back] using brace.2
  have event : isComment body = false := by
    obtain ⟨rest, rfl⟩ := List.head?_eq_some_iff.mp front
    rfl
  have read : InputEvent.ofText (body ++ []) = _ := InputEvent.ofText_object laid room rfl
  rw [List.append_nil] at read
  rw [parseEvents_eq, eventLines_line one, trim]
  simp only [List.filter_cons, event, Bool.not_false, if_true, List.filter_nil, List.mapM_cons,
    List.mapM_nil, read]
  cases orUnfit _ <;> rfl

end Line

/-! Events -/

namespace InputEvent

/-- The record that an event of this kind is, the tag apart. -/
def record : InputEvent → Shape
  | .motion _ => MotionEvent.shape
  | .key _ => KeyEvent.shape

def shape (e : InputEvent) : Shape := e.record.tagged "type"

def fields : InputEvent → Value
  | .motion e => e.fields
  | .key e => e.fields

section Judged

variable {e : InputEvent} {v : Value} {us : List Value} {ms : List (String × Value)}

theorem record_eq (e : InputEvent) : e.record = .record true e.record.fields := by
  cases e <;> rfl

theorem type_apart (e : InputEvent) : ∀ f ∈ e.record.fields.list, f.name ≠ "type" := by
  cases e <;> simp [record, MotionEvent.shape, KeyEvent.shape, Shape.fields, Fields.list]

theorem exists_fields (e : InputEvent) : ∃ us, e.fields = .array us := by
  cases e <;> exact ⟨_, rfl⟩

theorem record_conform? (e : InputEvent) :
    e.record.conform? (.object e.members) = some e.fields := by
  cases e with
  | motion e => exact e.conform?
  | key e => exact e.conform?

theorem ofTagged?_of_conform? (fits : e.record.conform? v = some e.fields) :
    ofTagged? e.kind v = some e := by
  cases e with
  | motion e =>
    simp only [record, fields] at fits
    simp [ofTagged?, kind, fits, e.ofValue?_fields]
  | key e =>
    simp only [record, fields] at fits
    simp [ofTagged?, kind, fits, e.ofValue?_fields]

theorem ofTagged?_of_unfit (unfit : e.record.conform? v = none) : ofTagged? e.kind v = none := by
  cases e <;> simp_all [ofTagged?, kind, record]

theorem shape_conform?_iff :
    e.shape.conform? (.object ms) = some (.array (.text e.kind :: us)) ↔
      named "type" ms = [("type", .text e.kind)] ∧
        e.record.conform? (.object (unnamed "type" ms)) = some (.array us) := by
  rw [shape, record_eq]
  exact conform?_tagged_iff e.type_apart

theorem shape_conform? (list : e.fields = .array us) :
    e.shape.conform? e.toValue = some (.array (.text e.kind :: us)) := by
  obtain ⟨one, _, rest⟩ := untag_eq_some_iff.mp e.untag_members
  rw [toValue_eq, shape_conform?_iff, ← rest, e.record_conform?, list]
  exact ⟨one, rfl⟩

theorem kind_chosen (e : InputEvent) : e.kind ∈ ["motion", "key"] := by
  cases e <;> simp [kind]

/-- An object that has the form of an event is read as the event. -/
theorem read_of_conform? (list : e.fields = .array us)
    (fits : e.shape.conform? (.object ms) = some (.array (.text e.kind :: us))) :
    ((untag "type" ["motion", "key"] none ms).bind fun result =>
      ofTagged? result.1 (.object result.2)) = some e := by
  obtain ⟨one, rest⟩ := shape_conform?_iff.mp fits
  rw [untag_eq_some_iff.mpr ⟨one, e.kind_chosen, rfl⟩]
  exact ofTagged?_of_conform? (rest.trans (congrArg some list.symm))

/-- An object in which a known member stands twice is not read as an event of any kind. -/
theorem unread_of_doubled (tag : ("type", .text e.kind) ∈ ms)
    (doubled : Doubled e.shape (.object ms)) :
    ((untag "type" ["motion", "key"] none ms).bind fun result =>
      ofTagged? result.1 (.object result.2)) = none := by
  cases found : untag "type" ["motion", "key"] none ms with
  | none => rfl
  | some result =>
    obtain ⟨one, _, rest⟩ := untag_eq_some_iff.mp found
    have among : ("type", Value.text e.kind) ∈ named "type" ms :=
      List.mem_filter.mpr ⟨tag, by simp⟩
    rw [one, List.mem_singleton] at among
    have kind : e.kind = result.1 := by simpa using among
    have unfit : e.record.conform? (.object result.2) = none := by
      rw [shape, record_eq] at doubled
      rw [record_eq, rest]
      exact (doubled.untagged e.type_apart one).conform?
    rw [Option.bind_some, ← kind]
    exact ofTagged?_of_unfit unfit

end Judged

theorem rearranged_conform? {shape : Shape} {v w u : Value}
    (rearranged : Relation.ReflTransGen (Rearranged shape) v w) (fits : shape.conform? v = some u) :
    shape.conform? w = some u := by
  induction rearranged with
  | refl => exact fits
  | tail _ step ih => exact step.conform? ih

/-- Events are read whatever the layout. Let the members of an event and of the objects in it stand
in any order, the tag too, among others that are unknown, and let the index of a pointer be left out
where it is zero; let every string be spelled in any way, and white space stand wherever JSON allows
it: the line is read as the event. A line that names the kind of the event and in which a known
member stands twice, the tag or one at any depth, is JSON but no event. -/
theorem reading_ignores_layout (e : InputEvent) {cs after : List Char} (v : Value)
    (laid : Laid depthLimit (.value v) cs) (blank : after.all Json.isBlank = true)
    (one : '\n' ∉ cs ++ after) :
    (Relation.ReflTransGen (Rearranged e.shape) e.toValue v →
      parseEvents (cs ++ after) = .ok [e]) ∧
    (∀ ms, v = .object ms → ("type", .text e.kind) ∈ ms → Doubled e.shape v →
      parseEvents (cs ++ after) = .error .unfit) := by
  constructor
  · intro rearranged
    obtain ⟨us, list⟩ := e.exists_fields
    have fits := rearranged_conform? rearranged (shape_conform? list)
    obtain ⟨ms, rfl⟩ : ∃ ms, v = .object ms := by
      cases v with
      | object ms => exact ⟨ms, rfl⟩
      | _ => cases fits
    rw [parseEvents_object laid (Nat.le_refl _) blank one, read_of_conform? list fits]
    rfl
  · rintro ms rfl tag doubled
    rw [parseEvents_object laid (Nat.le_refl _) blank one, unread_of_doubled tag doubled]
    rfl

/-- The end of a touch, of which the line tells the action first, without the index of its pointer,
behind a member that is unknown; and a line that is complete but tells a coordinate twice. -/
theorem reading_ignores_layout_shuffled :
    let p : Pointer := ⟨0, .finger, ⟨1, 2⟩⟩
    let e : InputEvent := .motion ⟨5, 9, ⟨.up, 0⟩, [p], .touchscreen⟩
    let front : List (String × Value) :=
      [("type", .text "motion"), ("down_time", .integer 5), ("event_time", .integer 9)]
    let back (pointer : Value) : List (String × Value) :=
      [("pointers", .array [pointer]), ("source", .text "touchscreen")]
    let kind : String × Value := ("kind", .text "up")
    let v : Value := .object
      (("note", .null) :: ("action", .object [kind]) :: (front ++ back p.toValue))
    let twice : Value := .object [("id", .integer 0), ("tool_type", .text "finger"),
      ("x", .integer 1), ("y", .integer 2), ("x", .integer 1)]
    let w : Value := .object (("action", .object [kind]) :: (front ++ back twice))
    parseEvents (' ' :: v.write ++ ['\r']) = .ok [e] ∧ parseEvents w.write = .error .unfit := by
  intro p e front back kind v twice w
  let index : String × Value := ("pointer_index", .integer 0)
  let others := front ++ back p.toValue
  have start : Rearranged e.shape e.toValue
      (.object (("action", .object [kind, index]) :: others)) :=
    .order (@List.perm_middle _ _ front (back p.toValue))
  have inner {a b : Value} (step : Rearranged MotionAction.shape a b) :
      Rearranged e.shape (.object (("action", a) :: others))
        (.object (("action", b) :: others)) := by
    refine .member ?_ _
    intro f known same
    have action : f.shape = MotionAction.shape := by
      simp only [e, record, MotionEvent.shape, Shape.fields, Fields.list, List.mem_cons,
        List.not_mem_nil, or_false] at known
      rcases known with rfl | rfl | rfl | rfl | rfl | rfl <;> first | rfl | simp at same
    rwa [action]
  have turned := inner (.order (List.Perm.swap index kind []))
  have left : Rearranged MotionAction.shape (.object [index, kind]) (.object [kind]) := by
    refine .omitted (u := .integer 0) ?_ [kind]
    intro f known same
    simp only [Fields.list, List.mem_cons, List.not_mem_nil, or_false] at known
    rcases known with rfl | rfl
    · simp at same
    · exact ⟨rfl, rfl⟩
  have unknown : ∀ f ∈ (Shape.fields e.shape).list, f.name ≠ "note" := by
    simp [e, shape, record, MotionEvent.shape, Shape.tagged, Shape.fields, Fields.list]
  have rearranged : Relation.ReflTransGen (Rearranged e.shape) e.toValue v :=
    .tail (.tail (.tail (.single start) turned) (inner left)) (.added unknown .null _)
  have doubled : Doubled e.shape w := by
    have here : Doubled Pointer.shape twice :=
      .here (f := ⟨"x", signed32, none⟩) (by simp [Fields.list]) (by decide)
    have pointers : Doubled (.list Pointer.shape) (.array [twice]) :=
      .item List.mem_cons_self here
    exact .member (f := ⟨"pointers", .list Pointer.shape, none⟩)
      (by simp [e, record, MotionEvent.shape, Shape.fields, Fields.list])
      (by simp [front, back]) pointers
  have fit (pointer : Value) (h : pointer.Fits 125) :
      ∀ m ∈ ("action", Value.object [kind]) :: (front ++ back pointer), m.2.Fits 126 := by
    simp only [front, back, kind, List.cons_append, List.nil_append, List.forall_mem_cons,
      List.not_mem_nil, false_imp_iff, implies_true, and_true]
    refine ⟨.object ?_, .text _, .integer ?_, .integer ?_, .array ?_, .text _⟩
    · simpa using .text "up"
    · simp [IsWord, UInt64.size]
    · simp [IsWord, UInt64.size]
    · simpa using h
  have laid : Laid depthLimit (.value v) (' ' :: v.write) := by
    have fits : v.Fits (126 + 1) :=
      .object (List.forall_mem_cons.mpr ⟨.null, fit _ p.toValue_fits⟩)
    exact .blank rfl fits.laid
  have laid' : Laid depthLimit (.value w) w.write := by
    have word : IsWord 0 ∧ IsWord 1 ∧ IsWord 2 := by simp [IsWord, UInt64.size]
    have inner : twice.Fits (124 + 1) := by
      apply Value.Fits.object
      simp only [List.forall_mem_cons, List.not_mem_nil, false_imp_iff, implies_true, and_true]
      exact ⟨.integer word.1, .text _, .integer word.2.1, .integer word.2.2, .integer word.2.1⟩
    have fits : w.Fits (126 + 1) := .object (fit _ inner)
    exact fits.laid
  constructor
  · exact (reading_ignores_layout e v laid rfl (by decide)).1 rearranged
  · have tag : ("type", .text "motion") ∈ ("action", Value.object [kind]) ::
        (front ++ back twice) := by simp [front]
    have read : parseEvents (w.write ++ []) = .error .unfit :=
      (reading_ignores_layout e w laid' rfl (by decide)).2 _ rfl tag doubled
    rwa [List.append_nil] at read

end InputEvent

end CorrelatedInput
