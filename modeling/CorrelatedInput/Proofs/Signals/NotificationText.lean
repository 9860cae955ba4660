import CorrelatedInput.Proofs.Json.Compact
import CorrelatedInput.Proofs.Json.Record
import CorrelatedInput.Signals.NotificationText
/-!
Notifications in a text. What is written for a notification is read as it, and so is every other way
to tell it: with its members in any order and among others, and what is not there left out or null.
-/
namespace CorrelatedInput

open Json

theorem Kind.named (k : Kind) :
    k.name ∈ Kind.all.map Kind.name ∧ named? Kind.all Kind.name k.name = some k := by
  cases k <;> decide

/-! Notifications among the members of an object -/

/-- What is not reported is null. -/
def signed : Option Int32 → Value
  | none => .null
  | some n => .integer n.toInt

/-- What is reported stands under its name; what is not is left out or null. -/
def ScrollPosition.In (p : ScrollPosition) (ns : List (String × Value)) : Prop :=
  ∀ f ∈ p.fields, Tells f.1 (fun n v => v = signed n) none ns f.2

/-- The members tell the notification. The time may be left out if it is zero, and the position if
nothing of it is reported. -/
structure Notification.In (n : Notification) (ms : List (String × Value)) : Prop where
  kind : named "kind" ms = [("kind", .text n.kind.name)]
  eventTime : Tells "event_time" (fun t v => v = .integer t.toNat) 0 ms n.eventTime
  scroll : Tells "scroll" (fun p v => ∃ ns, v = .object ns ∧ p.In ns) .unreported ms n.scroll

/-! Reading them -/

/-- What a position is read as. -/
def ScrollPosition.record (p : ScrollPosition) : Value :=
  .array (p.fields.map fun f => signed f.2)

/-- What a notification is read as. -/
def Notification.record (n : Notification) : Value :=
  .array [.text n.kind.name, .integer n.eventTime.toNat, n.scroll.record]

section Reading

variable {p : ScrollPosition} {n : Notification} {ms ns : List (String × Value)}

theorem conform?_signed : ∀ n : Option Int32,
    (Shape.optional signed32).conform? (signed n) = some (signed n)
  | none => rfl
  | some n => conform?_signed32 n

@[simp] theorem signedOf?_signed : ∀ n : Option Int32, signedOf? (signed n) = some n
  | none => rfl
  | some n => by rw [signed, signedOf?, Int32.ofInt_toInt]

theorem ScrollPosition.shape_eq : shape = .record true shape.fields := rfl

theorem ScrollPosition.fields_shape (p : ScrollPosition) : shape.fields.list =
    p.fields.map fun f => ⟨f.1, .optional signed32, some .null⟩ := rfl

theorem ScrollPosition.In.conform? (h : p.In ns) :
    shape.conform? (.object ns) = some p.record := by
  rw [shape_eq]
  apply conform?_fields
  rw [fields_shape p, List.forall₂_map_left_iff, List.forall₂_map_right_iff, List.forall₂_same]
  intro f hf
  exact @Tells.conform? ns _ _ ⟨f.1, .optional signed32, some .null⟩ signed none rfl
    (by rintro n _ rfl; exact conform?_signed n) f.2 (h f hf)

theorem ScrollPosition.ofValue?_record (p : ScrollPosition) : ofValue? p.record = some p := by
  simp [record, fields, ofValue?]

theorem ScrollPosition.shape_faithful : shape.Faithful := by
  rw [shape_eq]
  apply faithful_record true (by decide)
  intro f hf
  rw [fields_shape unreported] at hf
  obtain ⟨_, _, rfl⟩ := List.mem_map.mp hf
  exact faithful_optional (faithful_integer ..)

theorem Notification.In.conform? (h : n.In ms) :
    shape.conform? (.object ms) = some n.record := by
  have kind : (Json.Field.mk "kind" (.name (Kind.all.map Kind.name)) none).conform? ms =
      some (.text n.kind.name) :=
    Json.Field.conform?_named h.kind (conform?_name n.kind.named.1)
  have time : (Json.Field.mk "event_time" word64 (some (.integer 0))).conform? ms =
      some (.integer n.eventTime.toNat) :=
    @Tells.conform? ms _ _ ⟨"event_time", word64, _⟩ (fun t : UInt64 => .integer t.toNat) 0 rfl
      (by rintro t _ rfl; exact conform?_word64 t) _ h.eventTime
  have scroll : (Json.Field.mk "scroll" ScrollPosition.shape
      (some ScrollPosition.unreported.record)).conform? ms = some n.scroll.record :=
    @Tells.conform? ms _ _ ⟨"scroll", ScrollPosition.shape, _⟩ ScrollPosition.record .unreported
      rfl (by rintro p _ ⟨ns, rfl, told⟩; exact told.conform?) _ h.scroll
  exact conform?_fields (.cons kind (.cons time (.cons scroll .nil)))

theorem Notification.ofValue?_record (n : Notification) : ofValue? n.record = some n := by
  simp [record, ofValue?, n.kind.named.2, ScrollPosition.ofValue?_record]

/-- The shape as a whole is not faithful: a value may conform to the kind as an object, and not be
read as it. -/
theorem Notification.In.takes (h : n.In ms) : Takes shape.read (.object ms) n.record := by
  refine takes_object (by decide) ?_ h.conform?
  intro f known v member u fits
  simp only [Fields.list, List.mem_cons, List.not_mem_nil, or_false] at known
  rcases known with rfl | rfl | rfl
  · have only : ("kind", v) ∈ Json.named "kind" ms := List.mem_filter.mpr ⟨member, by simp⟩
    rw [h.kind, List.mem_singleton] at only
    cases only
    rw [conform?_name n.kind.named.1] at fits
    cases fits
    exact takes_name n.kind.named.1
  · exact faithful_integer _ _ fits
  · exact ScrollPosition.shape_faithful fits

/-- Whatever tells a notification, in whatever way it is written, is read as this notification. -/
theorem Notification.In.ofText (h : n.In ms) {depth : Nat} {cs after : List Char}
    (written : Written .skip depth (.value (.object ms)) cs) (blank : after.all isBlank = true) :
    ofText (cs ++ after) = .ok n := by
  have read := h.takes written (endsNumber_blanks blank)
  apply readAll_blanks _ blank
  simp only [read, ofValue?_record, bind, Except.bind]
  rfl

end Reading

/-! Writing them -/

/-- What is reported of a position. -/
def ScrollPosition.members (p : ScrollPosition) : List (String × Value) :=
  present (fun n => .integer n.toInt) p.fields

def Notification.members (n : Notification) : List (String × Value) :=
  [("kind", .text n.kind.name), ("event_time", .integer n.eventTime.toNat),
    ("scroll", .object n.scroll.members)]

section Writing

variable (p : ScrollPosition) (n : Notification)

theorem ScrollPosition.toValue_eq : p.toValue = .object p.members := rfl

theorem Notification.toValue_eq : n.toValue = .object n.members := rfl

theorem ScrollPosition.members_tell : p.In p.members := by
  have distinct : (p.fields.map Prod.fst).Nodup :=
    (by decide : (unreported.fields.map Prod.fst).Nodup)
  rintro ⟨name, o⟩ hf
  have given : Gives name (fun a v => v = .integer a.toInt) p.members o := gives_present distinct hf
  cases o with
  | none => exact ⟨none, given, rfl⟩
  | some a => exact ⟨some (some a), given, rfl⟩

theorem Notification.members_tell : n.In n.members where
  kind := rfl
  eventTime := ⟨some n.eventTime, ⟨_, rfl, rfl⟩, rfl⟩
  scroll := ⟨some n.scroll, ⟨_, rfl, _, rfl, n.scroll.members_tell⟩, rfl⟩

theorem ScrollPosition.members_fit {depth : Nat} : ∀ m ∈ p.members, m.2.Fits depth := by
  intro m hm
  obtain ⟨f, _, same⟩ := List.mem_filterMap.mp hm
  obtain ⟨a, _, rfl⟩ := Option.map_eq_some_iff.mp same
  exact .integer (isWord_int32 a)

theorem Notification.toValue_fits : n.toValue.Fits (0 + 1 + 1) := by
  apply Value.Fits.object
  intro m hm
  simp only [List.mem_cons, List.not_mem_nil, or_false] at hm
  rcases hm with rfl | rfl | rfl
  · exact .text _
  · exact .integer (isWord_uint64 n.eventTime)
  · exact .object n.scroll.members_fit

end Writing

namespace Notification

/-- What is written for a notification is read as it, so no other one is written like it, not even
one that reports -1 where it reports nothing. And it is read from every text that tells it, where
its members stand in any order and among others, a part of the position that is not reported is left
out or null, the time is left out if it is zero, and the position if nothing of it is reported. -/
theorem reading_undoes_writing (n : Notification) :
    ofText n.toText = .ok n ∧ (∀ m : Notification, m.toText = n.toText → m = n) ∧
    ∀ (ms : List (String × Value)) (depth : Nat) (cs after : List Char), n.In ms →
      Written .skip depth (.value (.object ms)) cs → after.all isBlank = true →
      ofText (cs ++ after) = .ok n := by
  have back (n : Notification) : ofText n.toText = .ok n := by
    have written := n.toValue_fits.laid.written .skip
    have none : ([] : List Char).all isBlank = true := rfl
    have read := n.members_tell.ofText written none
    rwa [List.append_nil] at read
  refine ⟨back n, fun m same => ?_, fun ms depth cs after told => told.ofText⟩
  have both := (back m).symm.trans (same ▸ back n)
  exact Except.ok.inj both

/-- A view that reports an offset of -1, told in another order, without the time and among unknown
members; and a click of which only the kind is told. -/
theorem reading_undoes_writing_shuffled :
    let scrolled : Notification :=
      ⟨.viewScrolled, 0, { ScrollPosition.unreported with scrollX := some (-1) }⟩
    let ns : List (String × Value) :=
      [("zoom", .integer 2), ("scroll_y", .null), ("scroll_x", .integer (-1))]
    let ms : List (String × Value) :=
      [("scroll", .object ns), ("source", .text "list"), ("kind", .text "view_scrolled")]
    let ks : List (String × Value) := [("kind", .text "view_clicked")]
    (scrolled.In ms ∧ ofText ((Value.object ms).write ++ ['\n']) = .ok scrolled) ∧
      (Kind.viewClicked.notification.In ks ∧
        ofText ((Value.object ks).write ++ ['\n']) = .ok Kind.viewClicked.notification) ∧
      Kind.viewScrolled.notification.toText ≠ scrolled.toText := by
  intro scrolled ns ms ks
  have position : scrolled.scroll.In ns := by
    intro f hf
    simp only [ScrollPosition.fields, List.mem_cons, List.not_mem_nil, or_false] at hf
    rcases hf with rfl | rfl | rfl | rfl | rfl | rfl | rfl
    · exact ⟨none, rfl, rfl⟩
    · exact ⟨none, rfl, rfl⟩
    · exact ⟨none, rfl, rfl⟩
    · exact ⟨some (some (-1)), ⟨_, rfl, rfl⟩, rfl⟩
    · exact ⟨some none, ⟨_, rfl, rfl⟩, rfl⟩
    · exact ⟨none, rfl, rfl⟩
    · exact ⟨none, rfl, rfl⟩
  have told : scrolled.In ms :=
    ⟨rfl, ⟨none, rfl, rfl⟩, ⟨some scrolled.scroll, ⟨_, rfl, ns, rfl, position⟩, rfl⟩⟩
  have click : Kind.viewClicked.notification.In ks := ⟨rfl, ⟨none, rfl, rfl⟩, ⟨none, rfl, rfl⟩⟩
  have fits : (Value.object ms).Fits (0 + 1 + 1) := by
    apply Value.Fits.object
    intro m hm
    simp only [ms, List.mem_cons, List.not_mem_nil, or_false] at hm
    rcases hm with rfl | rfl | rfl
    · apply Value.Fits.object
      intro m hm
      simp only [ns, List.mem_cons, List.not_mem_nil, or_false] at hm
      rcases hm with rfl | rfl | rfl
      · exact .integer (isWord_int32 2)
      · exact .null
      · exact .integer (isWord_int32 (-1))
    · exact .text _
    · exact .text _
  have fits' : (Value.object ks).Fits (0 + 1) := by
    apply Value.Fits.object
    intro m hm
    cases List.mem_singleton.mp hm
    exact .text _
  have blank : ['\n'].all isBlank = true := rfl
  obtain ⟨_, apart, reads⟩ := reading_undoes_writing scrolled
  obtain ⟨_, _, reads'⟩ := reading_undoes_writing Kind.viewClicked.notification
  refine ⟨⟨told, reads ms _ _ _ told (fits.laid.written .skip) blank⟩,
    ⟨click, reads' ks _ _ _ click (fits'.laid.written .skip) blank⟩, fun same => ?_⟩
  exact absurd (apart _ same) (by decide)

end Notification

end CorrelatedInput
