import CorrelatedInput.Json.Shape
import CorrelatedInput.Proofs.Json.Reading
/-!
Values that name their own kind. Reading one takes the tag out of the members, wherever it stands,
and leaves the others in their order.
-/
namespace CorrelatedInput.Json

/-- The kind that the members name and the members without it. `found` is a kind named before them;
a kind must be named once, by one of the choices. -/
def untag (tag : String) (choices : List String) :
    Option String → List (String × Value) → Option (String × List (String × Value))
  | found, [] => found.map fun name => (name, [])
  | found, (key, v) :: ms =>
    if key = tag then
      match found, v with
      | none, .text name => if name ∈ choices then untag tag choices (some name) ms else none
      | _, _ => none
    else (untag tag choices found ms).map fun (name, others) => (name, (key, v) :: others)

def orUnfit {α : Type} (result? : Option α) : Except Fault α :=
  match result? with
  | some a => .ok a
  | none => .error .unfit

section Values

variable {depth : Nat} {v : Value} {cs rest : List Char}

/-- A value of any type is of the wrong type where another one is asked for. -/
theorem Laid.mistyped (h : Laid depth (.value v) cs) (stop : EndsNumber rest) :
    Json.mistyped (cs ++ rest) = .unfit := by
  generalize same : Part.value v = part at h
  induction h generalizing v with
  | null => rfl
  | bool b => cases b <;> rfl
  | integer word =>
    have number := readNumber_writeInt (p := .keep) word stop
    obtain ⟨c, t, written, first⟩ := writeInt_head ‹Int›
    obtain ⟨⟨blank, _⟩, quote, bracket, brace⟩ := beginsNumber first
    rw [written, List.cons_append] at number ⊢
    simp only [Json.mistyped, skipBlank_other blank, quote, bracket, brace, first, number, or_self,
      if_true, if_false]
  | text spelled =>
    have mark : isBlank '\x22' = false := by decide
    simp only [Json.mistyped, quoted_append, skipBlank_other mark, spelled.readKept, if_true]
  | array =>
    have mark : isBlank '[' = false := by decide
    simp [Json.mistyped, skipBlank_other mark]
  | object =>
    have mark : isBlank '\x7b' = false := by decide
    simp [Json.mistyped, skipBlank_other mark]
  | @blank _ _ c cs blank more ih =>
    have skip : skipBlank (c :: cs ++ rest) = skipBlank (cs ++ rest) := skipBlank_blank blank _
    rw [← ih same]
    simp only [Json.mistyped, skip]
  | _ => cases same

/-- The string that a value is. -/
def Value.text? : Value → Option String
  | .text s => some s
  | _ => none

theorem Laid.readText (h : Laid depth (.value v) cs) (stop : EndsNumber rest) :
    Json.readText (cs ++ rest) = orUnfit (v.text?.map fun s => (.text s, rest)) := by
  have wrong := h.mistyped stop
  generalize same : Part.value v = part at h
  induction h generalizing v with
  | null =>
    cases same
    rfl
  | bool b =>
    cases same
    cases b <;> rfl
  | integer word =>
    obtain ⟨c, t, written, first⟩ := writeInt_head ‹Int›
    obtain ⟨⟨blank, _⟩, quote, _⟩ := beginsNumber first
    cases same
    rw [written, List.cons_append] at wrong ⊢
    simp only [Json.readText, skipBlank_other blank, quote, if_false, wrong]
    rfl
  | text spelled =>
    have mark : isBlank '\x22' = false := by decide
    cases same
    simp only [Json.readText, quoted_append, skipBlank_other mark, spelled.readKept, if_true, bind,
      Except.bind, pure, Except.pure]
    rfl
  | array | object =>
    cases same
    simp_all [Json.readText, isBlank, Value.text?, orUnfit]
  | @blank _ _ c cs blank more ih =>
    have skip : skipBlank (c :: cs ++ rest) = skipBlank (cs ++ rest) := skipBlank_blank blank _
    simp only [Json.mistyped, skip] at wrong
    rw [← ih wrong same]
    simp only [Json.readText, Json.mistyped, skip]
  | _ => cases same

/-- Only a string is a choice, if it is among the choices. -/
theorem Laid.readChoice (h : Laid depth (.value v) cs) (stop : EndsNumber rest)
    (choices : List String) :
    Json.readChoice choices (cs ++ rest) =
      orUnfit ((v.text?.filter (· ∈ choices)).map fun s => (.text s, rest)) := by
  rw [Json.readChoice, h.readText stop]
  cases v.text? with
  | none => rfl
  | some s =>
    by_cases chosen : s ∈ choices <;>
      simp [orUnfit, Option.filter, chosen, bind, Except.bind, pure, Except.pure, throw, throwThe,
        MonadExceptOf.throw]

end Values

section Members

variable {tag : String} {choices : List String} {fuel depth : Nat} {found : Option String}
  {key : String} {ks cs ds rest : List Char}

theorem readTaggedMembers_key (first : Bool) {before : List Char}
    (blank : before.all isBlank = true) (spelled : Spells ks key.toList) :
    readTaggedMembers tag choices (fuel + 1) first found
        (comma first ++ (before ++ (quoted ks ++ rest))) =
      (if key = tag then do
        if found.isSome then throw .unfit
        match ← Json.readChoice choices (← readColon rest) with
        | (.text name, rest) => readTaggedMembers tag choices fuel false (some name) rest
        | _ => throw .unfit
      else do
        let (v, rest) ← Json.readValue .keep (depthLimit - 1) (← readColon rest)
        let ((name, members), rest) ← readTaggedMembers tag choices fuel false found rest
        return ((name, (key, v) :: members), rest)) := by
  have mark : isBlank '\x22' = false := by decide
  have next : isBlank ',' = false := by decide
  cases first with
  | true =>
    simp only [comma, if_true, List.nil_append, readTaggedMembers, skipBlank_key blank,
      skipBlank_other mark, spelled.readKept, bind, Except.bind]
    rfl
  | false =>
    simp only [comma, Bool.false_eq_true, if_false, List.singleton_append, readTaggedMembers,
      skipBlank_key blank, skipBlank_other next, spelled.readKept, bind, Except.bind]
    rfl

theorem Laid.readTaggedMembers {first : Bool} {ms : List (String × Value)}
    (h : Laid depth (.members first ms) cs) (steps : cs.length ≤ fuel)
    (room : depth ≤ depthLimit - 1) :
    Json.readTaggedMembers tag choices fuel first found (cs ++ rest) =
      orUnfit ((untag tag choices found ms).map fun result => (result, rest)) := by
  generalize same : Part.members first ms = part at h
  induction h generalizing fuel found first ms with
  | @blank _ _ c cs blank more ih =>
    simp only [List.length_cons] at steps
    obtain ⟨fuel, rfl⟩ := (more.written .keep).exists_fuel (by omega : cs.length ≤ fuel)
    have skip : skipBlank (c :: cs ++ rest) = skipBlank (cs ++ rest) := skipBlank_blank blank _
    rw [← ih (by omega : cs.length ≤ fuel + 1) room same]
    simp only [Json.readTaggedMembers, skip]
  | lastMember first =>
    cases same
    obtain ⟨fuel, rfl⟩ := (Written.lastMember first : Written .keep 0 _ _).exists_fuel steps
    cases found <;> rfl
  | @member _ first before between ks key v ms cs ds blank spelled blank' value more _ ih =>
    cases same
    have whole := (Laid.member first blank spelled blank' value more).written .keep
    obtain ⟨fuel, rfl⟩ := whole.exists_fuel steps
    have short := (value.written .keep).others_length steps
    have stop := (more.written .keep).members_endsNumber rest
    have others (found : Option String) := @ih fuel found false ms short room rfl
    rw [member_append, readTaggedMembers_key first blank spelled]
    simp only [readColon_append blank', untag]
    -- the tag is read as a choice at once, any other member as a value
    split
    · cases found with
      | some earlier => rfl
      | none =>
        simp only [value.readChoice stop, bind, Except.bind]
        cases v with
        | text name =>
          by_cases chosen : name ∈ choices <;>
            simp [Value.text?, Option.filter, orUnfit, chosen, others]
        | _ => rfl
    · simp only [value.readValue room stop, others, bind, Except.bind]
      cases untag tag choices found ms <;> rfl
  | _ => cases same

/-- A value that is laid out is read as its kind and its other members. -/
theorem Laid.readTagged {ms : List (String × Value)} (h : Laid depth (.value (.object ms)) cs)
    (room : depth ≤ depthLimit) :
    Json.readTagged tag choices (cs ++ rest) =
      orUnfit ((untag tag choices none ms).map fun (name, others) =>
        ((name, .object others), rest)) := by
  generalize same : Part.value (.object ms) = part at h
  induction h with
  | @object depth ms' cs members _ =>
    cases same
    have mark : isBlank '\x7b' = false := by decide
    have steps : cs.length ≤ enough (cs ++ rest) := by
      simp only [enough, List.length_append]
      omega
    have read : Json.readTaggedMembers tag choices (enough (cs ++ rest)) true none (cs ++ rest) =
        _ := members.readTaggedMembers steps (Nat.le_sub_one_of_lt room)
    simp only [List.cons_append, Json.readTagged, skipBlank_other mark, if_true, read]
    cases untag tag choices none ms <;> rfl
  | @blank _ _ c cs blank more ih =>
    have skip : skipBlank (c :: cs ++ rest) = skipBlank (cs ++ rest) := skipBlank_blank blank _
    rw [← ih room same]
    simp only [Json.readTagged, Json.mistyped, skip]
  | _ => cases same

end Members

end CorrelatedInput.Json
