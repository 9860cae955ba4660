import CorrelatedInput.Proofs.Json.Shape
import CorrelatedInput.Proofs.Json.Tagged
import Mathlib.Data.List.Forall2
/-!
Records as what their members say. Each field asks for the members of its name alone, so neither
their order nor what stands among them matters; and a known member that stands twice, at any depth,
fits no record.
-/
namespace CorrelatedInput.Json

/-! Field by field -/

structure Field where
  name : String
  shape : Shape
  default? : Option Value

def Fields.list : Fields → List Field
  | .nil => []
  | .cons name shape default? rest => ⟨name, shape, default?⟩ :: rest.list

def Shape.fields : Shape → Fields
  | .record _ fields => fields
  | _ => .nil

/-- The members of one name. -/
def named (name : String) (ms : List (String × Value)) : List (String × Value) :=
  ms.filter fun m => m.1 = name

/-- What a field makes of the members of an object. -/
def Field.conform? (f : Field) (ms : List (String × Value)) : Option Value :=
  match named f.name ms with
  | [] => f.default?
  | [(_, v)] => f.shape.conform? v
  | _ => none

section Fields

variable {f : Field} {ms ns : List (String × Value)} {u v w : Value}

theorem Fields.conformMembers?_eq : ∀ (fields : Fields) (ms : List (String × Value)),
    fields.conformMembers? ms = fields.list.mapM fun f : Field => f.conform? ms
  | .nil, ms => by simp [conformMembers?, list]
  | .cons name shape default? rest, ms => by
    have others := rest.conformMembers?_eq ms
    rw [conformMembers?, list, List.mapM_cons, ← others, Field.conform?, named]
    dsimp only
    generalize ms.filter _ = found
    rcases found with _ | ⟨⟨key, v⟩, _ | ⟨m, more⟩⟩ <;> rfl

theorem conform?_members (positional : Bool) (fields : Fields) (ms : List (String × Value)) :
    (Shape.record positional fields).conform? (.object ms) =
      (fields.list.mapM fun f : Field => f.conform? ms).map .array := by
  cases positional <;> simp [Shape.conform?, Fields.conformMembers?_eq]

theorem Field.conform?_congr (same : named f.name ms = named f.name ns) :
    f.conform? ms = f.conform? ns := by simp only [conform?, same]

theorem Field.conform?_eq_some_iff :
    f.conform? ms = some u ↔ named f.name ms = [] ∧ f.default? = some u ∨
      ∃ v, named f.name ms = [(f.name, v)] ∧ f.shape.conform? v = some u := by
  have key : ∀ m ∈ named f.name ms, m.1 = f.name := by simp [named]
  unfold conform?
  rcases found : named f.name ms with _ | ⟨⟨k, v⟩, _ | ⟨m, more⟩⟩
  · simp
  · have same : k = f.name := key (k, v) (found ▸ List.mem_cons_self)
    simp [same]
  · simp

@[simp] theorem named_cons_self (name : String) (v : Value) (ms : List (String × Value)) :
    named name ((name, v) :: ms) = (name, v) :: named name ms := by simp [named]

theorem named_cons_of_ne {name key : String} (apart : key ≠ name) (v : Value)
    (ms : List (String × Value)) : named name ((key, v) :: ms) = named name ms := by
  simp [named, apart]

theorem Field.conform?_named (one : named f.name ms = [(f.name, v)])
    (fits : f.shape.conform? v = some u) : f.conform? ms = some u :=
  conform?_eq_some_iff.mpr (.inr ⟨v, one, fits⟩)

theorem Field.conform?_cons_eq_some_iff :
    f.conform? ((f.name, v) :: ms) = some u ↔
      named f.name ms = [] ∧ f.shape.conform? v = some u := by
  rw [conform?_eq_some_iff, named_cons_self]
  constructor
  · rintro (⟨none, _⟩ | ⟨w, one, fits⟩)
    · cases none
    · obtain ⟨same, none⟩ := List.cons.inj one
      cases same
      exact ⟨none, fits⟩
  · rintro ⟨none, fits⟩
    exact .inr ⟨v, by rw [none], fits⟩

theorem Field.conform?_perm (same : ms.Perm ns) (fits : f.conform? ms = some u) :
    f.conform? ns = some u := by
  have alike : (named f.name ms).Perm (named f.name ns) := same.filter _
  rw [conform?_eq_some_iff] at fits ⊢
  rcases fits with ⟨none, absent⟩ | ⟨v, one, fits⟩
  · rw [none] at alike
    exact .inl ⟨alike.nil_eq.symm, absent⟩
  · rw [one] at alike
    exact .inr ⟨v, List.perm_singleton.mp alike.symm, fits⟩

end Fields

section Each

variable {α β : Type} {f g : α → Option β} {l : List α}

theorem mapM_mono (h : ∀ a ∈ l, ∀ b, f a = some b → g a = some b) {bs : List β}
    (all : l.mapM f = some bs) : l.mapM g = some bs := by
  induction l generalizing bs with
  | nil => exact all
  | cons a l ih =>
    simp only [List.mapM_cons, Option.pure_def, Option.bind_eq_bind,
      Option.bind_eq_some_iff] at all ⊢
    obtain ⟨b, first, rest, others, same⟩ := all
    exact ⟨b, h a List.mem_cons_self b first, rest,
      ih (fun c hc => h c (List.mem_cons_of_mem a hc)) others, same⟩

theorem mapM_eq_some_iff {bs : List β} :
    l.mapM f = some bs ↔ List.Forall₂ (fun a b => f a = some b) l bs := by
  induction l generalizing bs with
  | nil => simp [eq_comm]
  | cons a l ih =>
    simp only [List.mapM_cons, Option.pure_def, Option.bind_eq_bind, Option.bind_eq_some_iff,
      List.forall₂_cons_left_iff, ih]
    constructor
    · rintro ⟨b, first, rest, others, same⟩
      exact ⟨b, rest, first, others, (Option.some_inj.mp same).symm⟩
    · rintro ⟨b, rest, first, others, rfl⟩
      exact ⟨b, first, rest, others, rfl⟩

theorem mapM_congr (h : ∀ a ∈ l, f a = g a) : l.mapM f = l.mapM g := by
  induction l with
  | nil => rfl
  | cons a l ih =>
    rw [List.mapM_cons, List.mapM_cons, h a List.mem_cons_self,
      ih fun b hb => h b (List.mem_cons_of_mem a hb)]

theorem mapM_eq_none {a : α} (ha : a ∈ l) (none : f a = none) : l.mapM f = .none := by
  obtain ⟨front, back, rfl⟩ := List.append_of_mem ha
  cases before : front.mapM f <;> simp [before, none]

end Each

/-! Members that may be left out -/

section Given

variable {ms ns : List (String × Value)} {α : Type} {written : α → Value → Prop} {f : Field}
  {name : String} {made : α → Value} {assumed : α}

/-- The only member of the name is one that is `written` for the value; there is none if the value is
left out. -/
def Gives (name : String) (written : α → Value → Prop)
    (ms : List (String × Value)) : Option α → Prop
  | none => named name ms = []
  | some a => ∃ v, named name ms = [(name, v)] ∧ written a v

theorem Gives.congr {o : Option α} (given : Gives name written ms o)
    (same : named name ms = named name ns) : Gives name written ns o := by
  cases o with
  | none => exact same.symm.trans given
  | some a =>
    obtain ⟨v, one, written⟩ := given
    exact ⟨v, same.symm.trans one, written⟩

theorem Gives.conform? (absent : f.default? = some (made assumed))
    (fits : ∀ a v, written a v → f.shape.conform? v = some (made a)) {o : Option α}
    (given : Gives f.name written ms o) : f.conform? ms = some (made (o.getD assumed)) := by
  cases o with
  | none => exact Field.conform?_eq_some_iff.mpr (.inl ⟨given, absent⟩)
  | some a =>
    obtain ⟨v, one, written⟩ := given
    exact Field.conform?_named one (fits a v written)

/-- The value stands under the name, or it is the one that is `assumed` and is left out. -/
def Tells (name : String) (written : α → Value → Prop) (assumed : α)
    (ms : List (String × Value)) (a : α) : Prop :=
  ∃ o, Gives name written ms o ∧ o.getD assumed = a

theorem Tells.conform? (absent : f.default? = some (made assumed))
    (fits : ∀ a v, written a v → f.shape.conform? v = some (made a)) {a : α}
    (told : Tells f.name written assumed ms a) : f.conform? ms = some (made a) := by
  obtain ⟨o, given, rfl⟩ := told
  exact given.conform? absent fits

theorem conform?_fields {positional : Bool} {fields : Fields} {us : List Value}
    (each : List.Forall₂ (fun f u => f.conform? ms = some u) fields.list us) :
    (Shape.record positional fields).conform? (.object ms) = some (.array us) := by
  rw [conform?_members, mapM_eq_some_iff.mpr each]
  rfl

/-! Members that are written only if there is something to write -/

variable {write : α → Value} {entries : List (String × Option α)}

/-- The members of the entries that have something. -/
def present (write : α → Value) (entries : List (String × Option α)) : List (String × Value) :=
  entries.filterMap fun (key, o) => o.map fun a => (key, write a)

theorem named_present_of_not_mem (other : name ∉ entries.map Prod.fst) :
    named name (present write entries) = [] := by
  rw [named, List.filter_eq_nil_iff]
  intro m hm here
  obtain ⟨⟨key, o⟩, among, same⟩ := List.mem_filterMap.mp hm
  obtain ⟨a, _, rfl⟩ := Option.map_eq_some_iff.mp same
  exact other (List.mem_map.mpr ⟨_, among, of_decide_eq_true here⟩)

theorem gives_present (distinct : (entries.map Prod.fst).Nodup) {o : Option α}
    (entry : (name, o) ∈ entries) :
    Gives name (fun a v => v = write a) (present write entries) o := by
  induction entries with
  | nil => cases entry
  | cons e entries ih =>
    obtain ⟨apart, distinct⟩ := List.nodup_cons.mp distinct
    rcases List.mem_cons.mp entry with rfl | entry
    · have others : named name (present write entries) = [] := named_present_of_not_mem apart
      cases o with
      | none => exact others
      | some a =>
        have here := named_cons_self name (write a) (present write entries)
        rw [others] at here
        exact ⟨_, here, rfl⟩
    · have other : e.1 ≠ name := fun same => apart (same ▸ List.mem_map_of_mem entry)
      have same : named name (present write (e :: entries)) = named name (present write entries) := by
        obtain ⟨key, _ | a⟩ := e
        · rfl
        · exact named_cons_of_ne other (write a) _
      exact (ih distinct entry).congr same.symm

end Given

/-! Members in another arrangement -/

/-- One change to how a value of a shape is put into objects. The members of an object stand in
another order; a member is added that is no field; one is left out that stands for what is assumed
anyway; or such a change is made to the value of a member, or to an item of a list. -/
inductive Rearranged : Shape → Value → Value → Prop
  | order {positional : Bool} {fields : Fields} {ms ns : List (String × Value)}
    (same : ms.Perm ns) : Rearranged (.record positional fields) (.object ms) (.object ns)
  | added {positional : Bool} {fields : Fields} {key : String}
    (unknown : ∀ f ∈ fields.list, f.name ≠ key) (v : Value) (ms : List (String × Value)) :
    Rearranged (.record positional fields) (.object ms) (.object ((key, v) :: ms))
  | omitted {positional : Bool} {fields : Fields} {key : String} {v u : Value}
    (assumed : ∀ f ∈ fields.list, f.name = key →
      f.default? = some u ∧ f.shape.conform? v = some u) (ms : List (String × Value)) :
    Rearranged (.record positional fields) (.object ((key, v) :: ms)) (.object ms)
  | member {positional : Bool} {fields : Fields} {key : String} {v w : Value}
    (inner : ∀ f ∈ fields.list, f.name = key → Rearranged f.shape v w)
    (ms : List (String × Value)) :
    Rearranged (.record positional fields) (.object ((key, v) :: ms)) (.object ((key, w) :: ms))
  | item {shape : Shape} {v w : Value} (front back : List Value) (inner : Rearranged shape v w) :
    Rearranged (.list shape) (.array (front ++ v :: back)) (.array (front ++ w :: back))

/-- A value in another arrangement stands for the same. -/
theorem Rearranged.conform? {shape : Shape} {v w u : Value} (h : Rearranged shape v w)
    (fits : shape.conform? v = some u) : shape.conform? w = some u := by
  induction h generalizing u with
  | order same =>
    simp only [conform?_members, Option.map_eq_some_iff] at fits ⊢
    obtain ⟨us, all, rfl⟩ := fits
    exact ⟨us, mapM_mono (fun f _ _ => Field.conform?_perm same) all, rfl⟩
  | added unknown v ms =>
    simp only [conform?_members, Option.map_eq_some_iff] at fits ⊢
    obtain ⟨us, all, rfl⟩ := fits
    refine ⟨us, mapM_mono (fun f hf u fits => ?_) all, rfl⟩
    rwa [Field.conform?_congr (named_cons_of_ne (unknown f hf).symm v ms)]
  | @omitted _ _ key v d assumed ms =>
    simp only [conform?_members, Option.map_eq_some_iff] at fits ⊢
    obtain ⟨us, all, rfl⟩ := fits
    refine ⟨us, mapM_mono (fun f hf u fits => ?_) all, rfl⟩
    by_cases here : f.name = key
    · obtain ⟨absent, stands⟩ := assumed f hf here
      subst here
      obtain ⟨none, fits⟩ := Field.conform?_cons_eq_some_iff.mp fits
      rw [stands] at fits
      exact Field.conform?_eq_some_iff.mpr (.inl ⟨none, absent.trans fits⟩)
    · rwa [Field.conform?_congr (named_cons_of_ne (Ne.symm here) v ms)] at fits
  | @member _ _ key v w _ ms ih =>
    simp only [conform?_members, Option.map_eq_some_iff] at fits ⊢
    obtain ⟨us, all, rfl⟩ := fits
    refine ⟨us, mapM_mono (fun f hf u fits => ?_) all, rfl⟩
    by_cases here : f.name = key
    · have inner := @ih f hf here
      subst here
      obtain ⟨none, fits⟩ := Field.conform?_cons_eq_some_iff.mp fits
      exact Field.conform?_cons_eq_some_iff.mpr ⟨none, inner fits⟩
    · rw [Field.conform?_congr (named_cons_of_ne (Ne.symm here) v ms)] at fits
      rwa [Field.conform?_congr (named_cons_of_ne (Ne.symm here) w ms)]
  | @item shape v w front back _ ih =>
    simp only [Shape.conform?, Option.map_eq_map, Option.map_eq_some_iff, List.mapM_append,
      List.mapM_cons, Option.bind_eq_bind, Option.bind_eq_some_iff, Option.pure_def,
      Option.some.injEq] at fits ⊢
    obtain ⟨_, ⟨before, first, _, ⟨u, here, after, last, rfl⟩, rfl⟩, rfl⟩ := fits
    exact ⟨_, ⟨before, first, _, ⟨u, ih here, after, last, rfl⟩, rfl⟩, rfl⟩

/-! Known members that stand twice -/

def Twice (name : String) (ms : List (String × Value)) : Prop := 2 ≤ (named name ms).length

instance (name : String) (ms : List (String × Value)) : Decidable (Twice name ms) :=
  inferInstanceAs (Decidable (2 ≤ _))

/-- Somewhere in a value of a shape a known member stands twice, with whatever values. -/
inductive Doubled : Shape → Value → Prop
  | here {positional : Bool} {fields : Fields} {f : Field} {ms : List (String × Value)}
    (known : f ∈ fields.list) (twice : Twice f.name ms) :
    Doubled (.record positional fields) (.object ms)
  | member {positional : Bool} {fields : Fields} {f : Field} {v : Value}
    {ms : List (String × Value)} (known : f ∈ fields.list) (member : (f.name, v) ∈ ms)
    (inner : Doubled f.shape v) : Doubled (.record positional fields) (.object ms)
  | item {shape : Shape} {v : Value} {items : List Value} (item : v ∈ items)
    (inner : Doubled shape v) : Doubled (.list shape) (.array items)

theorem Field.once_of_conform? {f : Field} {ms : List (String × Value)} {u v : Value}
    (fits : f.conform? ms = some u) (member : (f.name, v) ∈ ms) :
    named f.name ms = [(f.name, v)] ∧ f.shape.conform? v = some u := by
  have among : (f.name, v) ∈ named f.name ms := List.mem_filter.mpr ⟨member, by simp⟩
  rcases conform?_eq_some_iff.mp fits with ⟨none, _⟩ | ⟨w, one, fits⟩
  · rw [none] at among
    cases among
  · rw [one, List.mem_singleton] at among
    cases among
    exact ⟨one, fits⟩

/-- What has a known member twice is refused, whatever it holds. -/
theorem Doubled.conform? {shape : Shape} {v : Value} (h : Doubled shape v) :
    shape.conform? v = none := by
  induction h with
  | @here _ _ f ms known twice =>
    have none : f.conform? ms = none := by
      rw [Option.eq_none_iff_forall_ne_some]
      intro u fits
      rw [Twice] at twice
      rcases Field.conform?_eq_some_iff.mp fits with ⟨none, _⟩ | ⟨w, one, _⟩
      · simp [none] at twice
      · simp [one] at twice
    rw [conform?_members, mapM_eq_none known none]
    rfl
  | @member _ _ f v ms known member _ ih =>
    have none : f.conform? ms = none := by
      rw [Option.eq_none_iff_forall_ne_some]
      intro u fits
      rw [(Field.once_of_conform? fits member).2] at ih
      cases ih
    rw [conform?_members, mapM_eq_none known none]
    rfl
  | item item _ ih => rw [Shape.conform?, mapM_eq_none item ih]; rfl

/-! The tag -/

/-- The members of all names but one. -/
def unnamed (name : String) (ms : List (String × Value)) : List (String × Value) :=
  ms.filter fun m => m.1 ≠ name

/-- A record that names its kind under a tag. -/
def Shape.tagged (tag : String) (shape : Shape) : Shape :=
  .record false (.cons tag .text none shape.fields)

section Tag

variable {tag name : String} {choices : List String} {ms rest : List (String × Value)}

theorem named_unnamed {key : String} (apart : key ≠ tag) (ms : List (String × Value)) :
    named key (unnamed tag ms) = named key ms := by
  rw [named, unnamed, List.filter_filter]
  apply List.filter_congr
  intro m _
  by_cases here : m.1 = key <;> simp [here, apart]

theorem untag_some : untag tag choices (some name) ms =
    if named tag ms = [] then some (name, unnamed tag ms) else none := by
  induction ms with
  | nil => rfl
  | cons m ms ih =>
    obtain ⟨key, v⟩ := m
    by_cases here : key = tag
    · simp [untag, here, named]
    · rw [named_cons_of_ne here]
      simp only [untag, here, if_false, ih]
      split <;> simp [unnamed, here]

/-- The kind is what the only member under the tag says, if it is one of the choices. -/
theorem untag_eq_some_iff : untag tag choices none ms = some (name, rest) ↔
    named tag ms = [(tag, .text name)] ∧ name ∈ choices ∧ rest = unnamed tag ms := by
  induction ms generalizing rest with
  | nil => simp [untag, named]
  | cons m ms ih =>
    obtain ⟨key, v⟩ := m
    by_cases here : key = tag
    · subst here
      have gone : unnamed key ((key, v) :: ms) = unnamed key ms := by simp [unnamed]
      rw [named_cons_self, gone]
      cases v with
      | text s =>
        by_cases chosen : s ∈ choices <;> by_cases once : named key ms = [] <;>
          simp [untag, untag_some, chosen, once]
        · grind
        · rintro rfl member
          exact absurd member chosen
      | _ => simp [untag]
    · have kept : unnamed tag ((key, v) :: ms) = (key, v) :: unnamed tag ms := by
        simp [unnamed, here]
      rw [named_cons_of_ne here, kept]
      simp only [untag, here, if_false, Option.map_eq_some_iff]
      constructor
      · rintro ⟨⟨s, others⟩, found, same⟩
        obtain ⟨rfl, rfl⟩ := Prod.mk.inj same
        obtain ⟨one, chosen, rfl⟩ := ih.mp found
        exact ⟨one, chosen, rfl⟩
      · rintro ⟨one, chosen, rfl⟩
        exact ⟨(name, unnamed tag ms), ih.mpr ⟨one, chosen, rfl⟩, rfl⟩

variable {positional : Bool} {fields : Fields} (apart : ∀ f ∈ fields.list, f.name ≠ tag)
include apart

/-- A tagged record is its tag and the record without it. -/
theorem conform?_tagged_iff {us : List Value} :
    ((Shape.record positional fields).tagged tag).conform? (.object ms) =
        some (.array (.text name :: us)) ↔
      named tag ms = [(tag, .text name)] ∧
        (Shape.record positional fields).conform? (.object (unnamed tag ms)) =
          some (.array us) := by
  have fields' : (fields.list.mapM fun f : Field => f.conform? (unnamed tag ms)) =
      fields.list.mapM fun f : Field => f.conform? ms :=
    mapM_congr fun f hf => Field.conform?_congr (named_unnamed (apart f hf) ms)
  have first : (⟨tag, .text, none⟩ : Field).conform? ms = some (.text name) ↔
      named tag ms = [(tag, .text name)] := by
    rw [Field.conform?_eq_some_iff]
    constructor
    · rintro (⟨_, absent⟩ | ⟨v, one, fits⟩)
      · cases absent
      · cases v <;> simp_all [Shape.conform?]
    · intro one
      exact .inr ⟨_, one, rfl⟩
  rw [Shape.tagged, conform?_members, conform?_members, fields', ← first]
  simp [Fields.list, Shape.fields, Option.bind_eq_some_iff]

/-- A known member that stands twice beside the tag or within stands twice in the record without
the tag, if the kind can be read at all. -/
theorem Doubled.untagged (h : Doubled ((Shape.record positional fields).tagged tag) (.object ms))
    (one : named tag ms = [(tag, .text name)]) :
    Doubled (.record positional fields) (.object (unnamed tag ms)) := by
  cases h with
  | here known twice =>
    rcases List.mem_cons.mp known with rfl | known
    · simp [Twice, one] at twice
    · refine .here known ?_
      rwa [Twice, named_unnamed (apart _ known)]
  | member known member inner =>
    rcases List.mem_cons.mp known with rfl | known
    · cases inner
    · exact .member known (List.mem_filter.mpr ⟨member, by simpa using apart _ known⟩) inner

end Tag

end CorrelatedInput.Json
