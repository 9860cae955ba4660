import CorrelatedInput.Proofs.Json.Members
/-!
Records read from left to right. A record that is written as an object is read as its fields: each
known member as its own reader takes it, the others passed over, whatever they are. So what is made
of a text is what is made of the value that it writes.
-/
namespace CorrelatedInput.Json

/-- The reader makes `u` of the value `v`, however it is written and whatever comes after it. -/
def Takes (r : Reader Value) (v u : Value) : Prop :=
  ∀ ⦃depth : Nat⦄ ⦃cs rest : List Char⦄, Written .skip depth (.value v) cs → EndsNumber rest →
    r (cs ++ rest) = .ok (u, rest)

/-! White space around a value -/

theorem readAll_blanks {α : Type} {r : Reader α} {a : α} {cs after : List Char}
    (read : r cs = .ok (a, after)) (blank : after.all isBlank = true) : readAll r cs = .ok a := by
  simp only [readAll, read, skipBlank_blanks blank, if_true, bind, Except.bind]
  rfl

/-- What a value is written as without blanks in front. -/
def Bare (p : Purpose) (cs : List Char) : Value → Prop
  | .null => cs = Value.null.write
  | .bool b => cs = (Value.bool b).write
  | .integer n => ∃ spelling, SpellsNumber spelling cs ∧ spelling.value = .integer n
  | .decimal written => ∃ spelling, SpellsNumber spelling cs ∧ spelling.value = .decimal written
  | .text s => ∃ ks, Spells ks s.toList ∧ cs = quoted ks
  | .array vs => ∃ depth ds, Written p depth (.items true vs) ds ∧ cs = '[' :: ds
  | .object ms => ∃ depth ds, Written p depth (.members true ms) ds ∧ cs = '\x7b' :: ds

theorem Written.bare {p : Purpose} {depth : Nat} {v : Value} {cs : List Char}
    (h : Written p depth (.value v) cs) :
    ∃ blanks ds, cs = blanks ++ ds ∧ blanks.all isBlank = true ∧
      Written p depth (.value v) ds ∧ Bare p ds v := by
  generalize same : Part.value v = part at h ⊢
  induction h with
  | @blank _ _ c cs blank rest ih =>
    obtain ⟨blanks, ds, rfl, blanks', written⟩ := ih same
    exact ⟨c :: blanks, ds, rfl, by simp [blank, blanks'], written⟩
  | @number _ n cs spelled small =>
    cases same
    refine ⟨[], cs, rfl, rfl, .number spelled small, ?_⟩
    cases value : n.value with
    | integer | decimal => exact ⟨n, spelled, value⟩
    | _ => exact absurd value (by unfold Spelling.value; grind)
  | null =>
    cases same
    exact ⟨[], Value.null.write, rfl, rfl, .null, rfl⟩
  | bool b =>
    cases same
    exact ⟨[], (Value.bool b).write, rfl, rfl, .bool b, rfl⟩
  | text spelled =>
    cases same
    exact ⟨[], _, rfl, rfl, .text spelled, _, spelled, rfl⟩
  | array items =>
    cases same
    exact ⟨[], _, rfl, rfl, .array items, _, _, items, rfl⟩
  | object members =>
    cases same
    exact ⟨[], _, rfl, rfl, .object members, _, _, members, rfl⟩
  | _ => cases same

theorem Bare.begins {p : Purpose} {cs : List Char} {v : Value} (h : Bare p cs v) :
    ∃ c t, cs = c :: t ∧ BeginsValue c ∧ (v ≠ .null → c ≠ 'n') := by
  cases v with
  | null => exact ⟨_, _, h, by unfold BeginsValue; decide, fun other => absurd rfl other⟩
  | bool b =>
    cases h
    cases b <;> exact ⟨_, _, rfl, by unfold BeginsValue; decide, fun _ => by decide⟩
  | integer | decimal =>
    obtain ⟨_, spelled, _⟩ := h
    obtain ⟨c, t, rfl, first⟩ := spelled.head
    refine ⟨c, t, rfl, (beginsNumber first).1, ?_⟩
    rintro _ rfl
    exact absurd first (by decide)
  | text =>
    obtain ⟨_, _, rfl⟩ := h
    exact ⟨_, _, rfl, by unfold BeginsValue; decide, fun _ => by decide⟩
  | array | object =>
    obtain ⟨_, _, _, rfl⟩ := h
    exact ⟨_, _, rfl, by unfold BeginsValue; decide, fun _ => by decide⟩

section Scalars

variable {r : Reader Value} {v u : Value}

/-- A reader that passes over the blanks in front takes a value if it takes it without them. -/
theorem takes_of_bare (blind : ∀ cs ds, skipBlank cs = skipBlank ds → r cs = r ds)
    (takes : ∀ depth cs rest, Written .skip depth (.value v) cs → Bare .skip cs v →
      EndsNumber rest → r (cs ++ rest) = .ok (u, rest)) : Takes r v u := by
  intro depth cs rest written stop
  obtain ⟨blanks, ds, rfl, blank, written, bare⟩ := written.bare
  rw [List.append_assoc, blind _ _ (skipBlank_append blank (ds ++ rest))]
  exact takes depth ds rest written bare stop

theorem takes_integer {low high n : Int} (least : low ≤ n) (most : n ≤ high) :
    Takes (readInteger low high) (.integer n) (.integer n) := by
  apply takes_of_bare
  · intro cs ds same
    simp only [readInteger, mistyped, same]
  · rintro _ _ rest _ ⟨spelling, spelled, value⟩ stop
    have number := spelled.readNumber (p := .keep) stop fun _ => tooLarge_of_integer value
    obtain ⟨c, t, rfl, first⟩ := spelled.head
    obtain ⟨⟨blank, _⟩, _⟩ := beginsNumber first
    rw [List.cons_append] at number ⊢
    simp only [readInteger, skipBlank_other blank, first, if_true, number, value, least, most,
      and_self, bind, Except.bind]
    rfl

theorem takes_flag (b : Bool) : Takes readFlag (.bool b) (.bool b) := by
  apply takes_of_bare
  · intro cs ds same
    simp only [readFlag, mistyped, same]
  · rintro _ _ rest _ rfl _
    cases b <;> rfl

theorem takes_text (s : String) : Takes readText (.text s) (.text s) := by
  apply takes_of_bare
  · intro cs ds same
    simp only [readText, mistyped, same]
  · rintro _ _ rest _ ⟨ks, spelled, rfl⟩ _
    have mark : isBlank '\x22' = false := by decide
    simp only [readText, quoted_append, skipBlank_other mark, spelled.readKept, if_true, bind,
      Except.bind]
    rfl

theorem takes_name {choices : List String} {s : String} (chosen : s ∈ choices) :
    Takes (readName choices) (.text s) (.text s) := by
  apply takes_of_bare
  · intro cs ds same
    simp only [readName, same]
  · intro depth cs rest written bare stop
    have read := takes_text s written stop
    obtain ⟨ks, _, rfl⟩ := bare
    have mark : isBlank '\x22' = false := by decide
    rw [quoted_append] at read ⊢
    simp only [readName, readChoice, skipBlank_other mark, if_true, read, chosen, bind, Except.bind]
    rfl

theorem takes_null (r : Reader Value) : Takes (readOptional r) .null .null := by
  apply takes_of_bare
  · intro cs ds same
    simp only [readOptional, same]
  · rintro _ _ rest _ rfl _
    rfl

theorem takes_optional (some : v ≠ .null) (takes : Takes r v u) : Takes (readOptional r) v u := by
  apply takes_of_bare
  · intro cs ds same
    simp only [readOptional, same]
  · intro depth cs rest written bare stop
    have read := takes written stop
    obtain ⟨c, t, rfl, ⟨blank, _⟩, other⟩ := bare.begins
    rw [List.cons_append] at read ⊢
    rw [readOptional, skipBlank_other blank]
    split
    · rename_i same
      exact absurd (List.cons.inj same).1 (other some)
    · exact read

end Scalars

section Record

variable {fields : List FieldReader} {depth fuel : Nat} {key : String}
  {ks cs ds rest : List Char}

/-- The reader of the field with the name of a member. -/
def fieldOf (fields : List FieldReader) (m : String × Value) : Option FieldReader :=
  fields.find? fun f => f.name = m.1

/-- The known members, last first, each as `take` says that its reader takes it. -/
def known (fields : List FieldReader) (take : String → Value → Value)
    (ms : List (String × Value)) : List (String × Value) :=
  ((ms.filter fun m => (fieldOf fields m).isSome).map fun m => (m.1, take m.1 m.2)).reverse

theorem readFields_key (first : Bool) {before : List Char} (blank : before.all isBlank = true)
    (spelled : Spells ks key.toList) (seen : List (String × Value)) :
    readFields fields (fuel + 1) first seen (comma first ++ (before ++ (quoted ks ++ rest))) =
      (match fields.find? (fun f => f.name = key) with
      | some f => do
        if (seen.lookup key).isSome then throw .unfit
        let (v, rest) ← f.read (← readColon rest)
        readFields fields fuel false ((key, v) :: seen) rest
      | none => do
        let rest ← skipValue (← readColon rest)
        readFields fields fuel false seen rest) := by
  have mark : isBlank '\x22' = false := by decide
  have next : isBlank ',' = false := by decide
  cases first with
  | true =>
    simp only [comma, if_true, List.nil_append, readFields, skipBlank_key blank,
      skipBlank_other mark, spelled.readKept, bind, Except.bind]
    rfl
  | false =>
    simp only [comma, Bool.false_eq_true, if_false, List.singleton_append, readFields,
      skipBlank_key blank, skipBlank_other next, spelled.readKept, bind, Except.bind]
    rfl

theorem Written.readFields {take : String → Value → Value} {first : Bool}
    {ms seen : List (String × Value)} (h : Written .skip depth (.members first ms) cs)
    (steps : cs.length ≤ fuel)
    (takes : ∀ m ∈ ms, ∀ f, fieldOf fields m = some f → Takes f.read m.2 (take m.1 m.2))
    (once : (known fields take ms ++ seen).Pairwise fun a b => a.1 ≠ b.1) :
    Json.readFields fields fuel first seen (cs ++ rest) =
      (settle fields (known fields take ms ++ seen)).map fun vs => (vs, rest) := by
  generalize same : Part.members first ms = part at h
  induction h generalizing fuel seen first ms with
  | @blank _ _ c cs blank more ih =>
    simp only [List.length_cons] at steps
    obtain ⟨fuel, rfl⟩ := more.exists_fuel (by omega : cs.length ≤ fuel)
    have skip : skipBlank (c :: cs ++ rest) = skipBlank (cs ++ rest) := skipBlank_blank blank _
    rw [← ih (by omega : cs.length ≤ fuel + 1) takes once same]
    simp only [Json.readFields, skip]
  | lastMember first =>
    cases same
    obtain ⟨fuel, rfl⟩ := (Written.lastMember first : Written .skip 0 _ _).exists_fuel steps
    have mark : isBlank '\x7d' = false := by decide
    have empty : known fields take [] = [] := rfl
    simp only [List.singleton_append, Json.readFields, skipBlank_other mark, if_true, empty,
      List.nil_append]
    cases settle fields seen <;> rfl
  | @member _ first before between ks key v ms cs ds blank spelled blank' value more _ ih =>
    cases same
    obtain ⟨fuel, rfl⟩ := (Written.member first blank spelled blank' value more).exists_fuel steps
    have short := value.others_length steps
    have stop := more.members_endsNumber rest
    have others (seen : List (String × Value)) := @ih fuel false ms seen short
      (fun m hm => takes m (List.mem_cons_of_mem _ hm))
    rw [member_append, readFields_key first blank spelled]
    -- a known member goes to the reader of its field, any other is passed over
    cases field : fieldOf fields (key, v) with
    | some f =>
      have here : known fields take ((key, v) :: ms) ++ seen =
          known fields take ms ++ (key, take key v) :: seen := by simp [known, field]
      rw [here] at once ⊢
      have new : seen.lookup key = none := by
        have apart := (List.pairwise_cons.mp (List.pairwise_append.mp once).2.1).1
        simpa [List.lookup_eq_none_iff] using apart
      have read := takes (key, v) List.mem_cons_self f field value stop
      simp only [fieldOf] at field
      simp only [field, new, Option.isSome_none, Bool.false_eq_true, if_false,
        readColon_append blank', read, bind, Except.bind]
      exact others _ once rfl
    | none =>
      have here : known fields take ((key, v) :: ms) = known fields take ms := by
        simp [known, field]
      rw [here] at once ⊢
      simp only [fieldOf] at field
      simp only [field, readColon_append blank', value.skipValue stop, bind, Except.bind]
      exact others _ once rfl
  | _ => cases same

/-- A record that is written as an object is read as its fields. -/
theorem takes_record {positional : Bool} {take : String → Value → Value}
    {ms : List (String × Value)} {vs : List Value}
    (takes : ∀ m ∈ ms, ∀ f, fieldOf fields m = some f → Takes f.read m.2 (take m.1 m.2))
    (once : (known fields take ms).Pairwise fun a b => a.1 ≠ b.1)
    (whole : settle fields (known fields take ms) = .ok vs) :
    Takes (readRecord positional fields) (.object ms) (.array vs) := by
  apply takes_of_bare
  · intro cs ds same
    simp only [readRecord, mistyped, same]
  · rintro _ _ rest _ ⟨depth, cs, members, rfl⟩ _
    have mark : isBlank '\x7b' = false := by decide
    have steps : cs.length ≤ enough (cs ++ rest) := by
      simp only [enough, List.length_append]
      omega
    have read : Json.readFields fields (enough (cs ++ rest)) true [] (cs ++ rest) = _ :=
      members.readFields steps takes (by simpa using once)
    rw [List.append_nil, whole] at read
    simp only [List.cons_append, readRecord, skipBlank_other mark, if_true, read]
    rfl

end Record

/-- What is made of a value is made of every text that writes it. -/
def Shape.Faithful (shape : Shape) : Prop :=
  ∀ ⦃v u : Value⦄, shape.conform? v = some u → Takes shape.read v u

/-! Records as what their members say -/

section Object

variable {fields : Fields} {take : String → Value → Value} {ms : List (String × Value)}

theorem lookup_eq_named (name : String) (ms : List (String × Value)) :
    ms.lookup name = (named name ms).head?.map Prod.snd := by
  induction ms with
  | nil => rfl
  | cons m ms ih =>
    obtain ⟨key, v⟩ := m
    by_cases here : key = name
    · subst here
      simp
    · have other : (name == key) = false := by simpa using Ne.symm here
      rw [List.lookup_cons, other, named_cons_of_ne here, ih]

theorem pairwise_of_named (once : ∀ name, (named name ms).length ≤ 1) :
    ms.Pairwise fun a b => a.1 ≠ b.1 := by
  induction ms with
  | nil => exact .nil
  | cons m ms ih =>
    have fewer (name : String) : (named name ms).length ≤ (named name (m :: ms)).length :=
      ((List.sublist_cons_self m ms).filter _).length_le
    refine .cons ?_ (ih fun name => Nat.le_trans (fewer name) (once name))
    intro n hn same
    have twice := once m.1
    have among : n ∈ named m.1 ms := List.mem_filter.mpr ⟨hn, by simp [same]⟩
    have some := List.length_pos_of_mem among
    rw [named_cons_self m.1 m.2 ms, List.length_cons] at twice
    omega

def Field.reader (f : Field) : FieldReader := ⟨f.name, f.shape.read, f.default?⟩

theorem Fields.readers_eq : ∀ fields : Fields, fields.readers = fields.list.map Field.reader
  | .nil => by rw [readers, list, List.map_nil]
  | .cons name shape default? rest => by
    rw [readers, list, List.map_cons, rest.readers_eq, Field.reader]

theorem fieldOf_readers (fields : Fields) (m : String × Value) :
    fieldOf fields.readers m =
      (fields.list.find? fun f : Field => f.name = m.1).map Field.reader := by
  rw [fieldOf, Fields.readers_eq, List.find?_map]
  rfl

/-- What is found of a field is found among the known members, as its reader takes it. -/
theorem named_known {f : Field} (known : f ∈ fields.list) :
    named f.name (Json.known fields.readers take ms) =
      ((named f.name ms).map fun m => (m.1, take m.1 m.2)).reverse := by
  have field (m : String × Value) (here : m.1 = f.name) :
      (fieldOf fields.readers m).isSome = true := by
    rw [fieldOf_readers, Option.isSome_map, List.find?_isSome]
    exact ⟨f, known, by simp [here]⟩
  rw [named, Json.known, List.filter_reverse, List.filter_map, List.filter_filter, named]
  congr 2
  apply List.filter_congr
  intro m _
  by_cases here : m.1 = f.name <;> simp [here, field]

theorem named_unknown {name : String} (unknown : ∀ f ∈ fields.list, f.name ≠ name) :
    named name (Json.known fields.readers take ms) = [] := by
  rw [named, List.filter_eq_nil_iff]
  intro m hm here
  simp only [Json.known, List.mem_reverse, List.mem_map, List.mem_filter, fieldOf_readers,
    Option.isSome_map, List.find?_isSome, decide_eq_true_eq] at hm here
  obtain ⟨n, ⟨_, f, known, same⟩, rfl⟩ := hm
  exact unknown f known (same.trans here)

theorem settle_ok {fields : List FieldReader} {seen : List (String × Value)} {vs : List Value}
    (each : List.Forall₂ (fun f v => (seen.lookup f.name).or f.default? = some v) fields vs) :
    settle fields seen = .ok vs := by
  induction each with
  | nil => rfl
  | cons here _ ih =>
    rw [settle] at ih ⊢
    rw [List.mapM_cons, here, ih]
    rfl

theorem find?_field {fields : List Field} (distinct : (fields.map Field.name).Nodup) {f : Field}
    (known : f ∈ fields) : (fields.find? fun g => g.name = f.name) = some f := by
  induction fields with
  | nil => cases known
  | cons g fields ih =>
    obtain ⟨apart, distinct⟩ := List.nodup_cons.mp distinct
    rcases List.mem_cons.mp known with rfl | known
    · simp
    · have other : g.name ≠ f.name := fun same => apart (same ▸ List.mem_map_of_mem known)
      rw [List.find?_cons_of_neg (by simpa using other), ih distinct known]

/-- What the field of a name makes of a value. -/
def Fields.makes (fields : Fields) (name : String) (v : Value) : Value :=
  ((fields.list.find? fun f => f.name = name).bind fun f => f.shape.conform? v).getD .null

theorem Fields.makes_eq (distinct : (fields.list.map Field.name).Nodup) {f : Field}
    (known : f ∈ fields.list) {v u : Value} (fits : f.shape.conform? v = some u) :
    fields.makes f.name v = u := by
  simp only [makes, find?_field distinct known, Option.bind_some, fits, Option.getD_some]

theorem settle_field (distinct : (fields.list.map Field.name).Nodup) {f : Field}
    (known : f ∈ fields.list) {u : Value} (fits : f.conform? ms = some u) :
    ((Json.known fields.readers fields.makes ms).lookup f.name).or f.default? = some u := by
  rw [lookup_eq_named, named_known known]
  rcases Field.conform?_eq_some_iff.mp fits with ⟨none, absent⟩ | ⟨v, one, fits⟩
  · rw [none, absent]
    rfl
  · rw [one]
    simp [Fields.makes_eq distinct known fits]

/-- What an object is read as is what its members say. -/
theorem takes_object {positional : Bool} {u : Value}
    (distinct : (fields.list.map Field.name).Nodup)
    (each : ∀ f ∈ fields.list, ∀ ⦃v⦄, (f.name, v) ∈ ms →
      ∀ ⦃u⦄, f.shape.conform? v = some u → Takes f.shape.read v u)
    (fits : (Shape.record positional fields).conform? (.object ms) = some u) :
    Takes (Shape.record positional fields).read (.object ms) u := by
  rw [conform?_members, Option.map_eq_some_iff] at fits
  obtain ⟨vs, all, rfl⟩ := fits
  have conforms : ∀ f ∈ fields.list, ∃ u, f.conform? ms = some u := by
    intro f known
    rw [← Option.ne_none_iff_exists']
    intro none
    rw [mapM_eq_none known none] at all
    cases all
  rw [Shape.read]
  refine @takes_record _ positional fields.makes ms vs ?_ ?_ ?_
  · intro m hm r field
    rw [fieldOf_readers, Option.map_eq_some_iff] at field
    obtain ⟨f, found, rfl⟩ := field
    have known := List.mem_of_find?_eq_some found
    have same : f.name = m.1 := by simpa using List.find?_some found
    obtain ⟨u, fits⟩ := conforms f known
    have member : (f.name, m.2) ∈ ms := same ▸ hm
    obtain ⟨_, fits⟩ := Field.once_of_conform? fits member
    rw [← same, Fields.makes_eq distinct known fits]
    exact each f known member fits
  · apply pairwise_of_named
    intro name
    by_cases known : ∃ f ∈ fields.list, f.name = name
    · obtain ⟨f, known, rfl⟩ := known
      obtain ⟨u, fits⟩ := conforms f known
      rw [named_known known, List.length_reverse, List.length_map]
      rcases Field.conform?_eq_some_iff.mp fits with ⟨none, _⟩ | ⟨v, one, _⟩
      · simp [none]
      · simp [one]
    · rw [named_unknown (by simpa using known)]
      exact Nat.zero_le 1
  · apply settle_ok
    have both := (List.forall₂_and_left _ _).mpr ⟨fun f known => known, mapM_eq_some_iff.mp all⟩
    have settled := both.imp fun f u field => settle_field distinct field.1 field.2
    generalize known fields.readers fields.makes ms = seen at settled ⊢
    rw [Fields.readers_eq, List.forall₂_map_left_iff]
    exact settled

/-! Records as arrays -/

theorem settle_none : ∀ {fields : Fields} {us : List Value},
    fields.conformPositions? [] = some us → settle fields.readers [] = .ok us
  | .nil, us, fits => by
    rw [Fields.conformPositions?] at fits
    cases fits
    rfl
  | .cons name shape default? rest, us, fits => by
    simp only [Fields.conformPositions?, Option.bind_eq_bind, Option.bind_eq_some_iff,
      Option.pure_def, Option.some.injEq] at fits
    obtain ⟨u, absent, us, others, rfl⟩ := fits
    have settled := settle_none others
    rw [settle] at settled ⊢
    rw [Fields.readers, List.mapM_cons, settled, absent]
    rfl

theorem readPositions_item {f : FieldReader} {fields : List FieldReader} (first : Bool)
    {cs t : List Char} {c : Char} (front : skipBlank cs = c :: t) (begins : BeginsValue c) :
    Json.readPositions (f :: fields) first (comma first ++ cs) = (do
      let (v, rest) ← f.read (c :: t)
      let (vs, rest) ← Json.readPositions fields false rest
      return (v :: vs, rest)) := by
  obtain ⟨blank, bracket, _⟩ := begins
  cases first with
  | true =>
    simp only [comma, if_true, List.nil_append, Json.readPositions, front, skipBlank_other blank,
      bracket, if_false, Bool.not_true, Bool.false_and, Bool.false_eq_true]
    split
    · rename_i same
      exact absurd (List.cons.inj same).1 bracket
    · rfl
  | false =>
    have mark : isBlank ',' = false := by decide
    have apart : ',' ≠ ']' := by decide
    simp only [comma, Bool.false_eq_true, if_false, List.singleton_append, Json.readPositions,
      skipBlank_other mark, apart, ne_eq, not_true, decide_false, Bool.and_false, front]
    split
    · rename_i same
      exact absurd (List.cons.inj same).1 bracket
    · rfl

theorem Written.readPositions {depth : Nat} {first : Bool} {vs us : List Value}
    {cs rest : List Char} (h : Written .skip depth (.items first vs) cs)
    (each : ∀ f ∈ fields.list, f.shape.Faithful)
    (fits : fields.conformPositions? vs = some us) :
    Json.readPositions fields.readers first (cs ++ rest) = .ok (us, rest) := by
  generalize same : Part.items first vs = part at h
  induction h generalizing fields first vs us with
  | @blank _ _ c cs blank more ih =>
    have skip : skipBlank (c :: cs ++ rest) = skipBlank (cs ++ rest) := skipBlank_blank blank _
    rw [← ih each fits same]
    cases fields <;> simp only [Fields.readers, Json.readPositions, skip]
  | lastItem first =>
    cases same
    have mark : isBlank ']' = false := by decide
    have settled := settle_none fits
    cases fields with
    | nil =>
      cases fits
      rfl
    | cons name shape default? others =>
      rw [Fields.readers] at settled ⊢
      simp only [List.singleton_append, Json.readPositions, skipBlank_other mark, if_true, settled]
      rfl
  | @item _ first v vs cs ds item more _ ih =>
    cases same
    cases fields with
    | nil => cases fits
    | cons name shape default? others =>
      simp only [Fields.conformPositions?, Option.bind_eq_bind, Option.bind_eq_some_iff,
        Option.pure_def, Option.some.injEq] at fits
      obtain ⟨u, fits, us, fits', rfl⟩ := fits
      obtain ⟨here, there⟩ := List.forall_mem_cons.mp each
      have stop := more.items_endsNumber rest
      have next := ih there fits' rfl
      obtain ⟨blanks, bs, rfl, blank, written, bare⟩ := item.bare
      obtain ⟨c, t, rfl, begins, _⟩ := bare.begins
      have read : shape.read (c :: (t ++ (ds ++ rest))) = .ok (u, ds ++ rest) :=
        here fits written stop
      have front : skipBlank (blanks ++ c :: t ++ (ds ++ rest)) = c :: (t ++ (ds ++ rest)) := by
        rw [List.append_assoc, skipBlank_append blank, List.cons_append, skipBlank_other begins.1]
      have whole : comma first ++ (blanks ++ c :: t ++ ds) ++ rest =
          comma first ++ (blanks ++ c :: t ++ (ds ++ rest)) := by simp
      rw [Fields.readers, whole, readPositions_item first front begins]
      simp only [read, next, bind, Except.bind]
      rfl
  | _ => cases same

theorem takes_array {vs : List Value} {u : Value} (each : ∀ f ∈ fields.list, f.shape.Faithful)
    (fits : (Shape.record true fields).conform? (.array vs) = some u) :
    Takes (Shape.record true fields).read (.array vs) u := by
  rw [Shape.conform?, Option.map_eq_map, Option.map_eq_some_iff] at fits
  obtain ⟨us, fits, rfl⟩ := fits
  rw [Shape.read]
  apply takes_of_bare
  · intro cs ds same
    simp only [readRecord, mistyped, same]
  · rintro _ _ rest _ ⟨depth, cs, items, rfl⟩ _
    have mark : isBlank '[' = false := by decide
    have read : Json.readPositions fields.readers true (cs ++ rest) = _ :=
      items.readPositions each fits
    simp only [List.cons_append, readRecord, skipBlank_other mark, and_self, if_true, read]
    rfl

end Object

/-! What shapes make of texts -/

theorem faithful_integer (low high : Int) : (Shape.integer low high).Faithful := by
  intro v u fits
  cases v with
  | integer n =>
    simp only [Shape.conform?, Option.ite_none_right_eq_some] at fits
    obtain ⟨⟨least, most⟩, same⟩ := fits
    cases same
    rw [Shape.read]
    exact takes_integer least most
  | _ => simp [Shape.conform?] at fits

theorem faithful_flag : Shape.flag.Faithful := by
  intro v u fits
  cases v with
  | bool b =>
    cases fits
    rw [Shape.read]
    exact takes_flag b
  | _ => cases fits

theorem faithful_text : Shape.text.Faithful := by
  intro v u fits
  cases v with
  | text s =>
    cases fits
    rw [Shape.read]
    exact takes_text s
  | _ => cases fits

theorem faithful_optional {shape : Shape} (inner : shape.Faithful) :
    (Shape.optional shape).Faithful := by
  intro v u fits
  rw [Shape.read]
  cases v with
  | null =>
    cases fits
    exact takes_null shape.read
  | _ => exact takes_optional nofun (inner fits)

theorem faithful_record (positional : Bool) {fields : Fields}
    (distinct : (fields.list.map Field.name).Nodup) (each : ∀ f ∈ fields.list, f.shape.Faithful) :
    (Shape.record positional fields).Faithful := by
  intro v u fits
  cases v with
  | object ms => exact takes_object distinct (fun f known _ _ _ fits => each f known fits) fits
  | array vs =>
    cases positional with
    | true => exact takes_array each fits
    | false => simp [Shape.conform?] at fits
  | _ => cases positional <;> simp [Shape.conform?] at fits

end CorrelatedInput.Json
