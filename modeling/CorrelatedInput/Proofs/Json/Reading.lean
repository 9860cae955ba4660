import CorrelatedInput.Proofs.Json.Layout
/-!
Whatever is laid out is read as what it lays out, and the reader stops right behind it.
-/
namespace CorrelatedInput.Json

/-- A reader succeeds and goes on with `rest`. What it keeps is `a`; what it passes over it may read
in another way. -/
def Reads {α : Type} (p : Purpose) (result : Except Fault (α × List Char)) (a : α)
    (rest : List Char) : Prop :=
  ∃ b, result = .ok (b, rest) ∧ (p = .keep → b = a)

/-- What comes of reading a part from the front of a text that goes on with `rest`. -/
def Part.IsRead (p : Purpose) (fuel depth : Nat) (cs rest : List Char) : Part → Prop
  | .value v => Reads p (readNested p fuel depth (cs ++ rest)) v rest
  | .items first vs => Reads p (readItems p fuel depth first (cs ++ rest)) vs rest
  | .members first ms => Reads p (readMembers p fuel depth first (cs ++ rest)) ms rest

section Steps

variable {p : Purpose} {fuel depth : Nat} {rest : List Char}

theorem IsRead.blank {part : Part} {c : Char} {cs : List Char} (blank : isBlank c = true)
    (h : part.IsRead p fuel depth cs rest) : part.IsRead p fuel depth (c :: cs) rest := by
  have same : skipBlank (c :: cs ++ rest) = skipBlank (cs ++ rest) := skipBlank_blank blank _
  cases part with
  | value v => simpa only [Part.IsRead, readNested_congr same] using h
  | items first vs => simpa only [Part.IsRead, readItems_congr same] using h
  | members first ms => simpa only [Part.IsRead, readMembers_congr same] using h

theorem readNested_text {s : String} {cs : List Char} (spelled : Spells cs s.toList) :
    Reads p (readNested p (fuel + 1) depth (quoted cs ++ rest)) (.text s) rest := by
  have mark : isBlank '\x22' = false := by decide
  obtain ⟨t, read, kept⟩ := spelled.readString (p := p) rest
  refine ⟨.text t, ?_, fun keep => by rw [kept keep]⟩
  simp only [quoted_append, readNested, skipBlank_other mark, read, if_true, bind, Except.bind,
    pure, Except.pure]

theorem readNested_number {n : Spelling} {cs : List Char} (spelled : SpellsNumber n cs)
    (small : p = .keep → n.tooLarge = false) (stop : EndsNumber rest) :
    Reads p (readNested p (fuel + 1) depth (cs ++ rest)) n.value rest := by
  have number := spelled.readNumber stop small
  obtain ⟨c, t, rfl, first⟩ := spelled.head
  obtain ⟨⟨blank, _⟩, quote, bracket, brace⟩ := beginsNumber first
  rw [List.cons_append] at number ⊢
  refine ⟨n.value, ?_, fun _ => rfl⟩
  simp only [readNested, skipBlank_other blank, quote, bracket, brace, first, if_true, if_false,
    number]

theorem readNested_array {vs : List Value} {cs : List Char} (deep : p = .keep → depth ≠ 0)
    (items : Reads p (readItems p fuel (depth - 1) true (cs ++ rest)) vs rest) :
    Reads p (readNested p (fuel + 1) depth ('[' :: cs ++ rest)) (.array vs) rest := by
  have mark : isBlank '[' = false := by decide
  have allowed : ¬ (p = .keep ∧ depth = 0) := fun h => deep h.1 h.2
  obtain ⟨us, read, kept⟩ := items
  refine ⟨.array us, ?_, fun keep => by rw [kept keep]⟩
  simp [readNested, skipBlank_other mark, allowed, read, bind, Except.bind, pure, Except.pure]

theorem readNested_object {ms : List (String × Value)} {cs : List Char}
    (deep : p = .keep → depth ≠ 0)
    (members : Reads p (readMembers p fuel (depth - 1) true (cs ++ rest)) ms rest) :
    Reads p (readNested p (fuel + 1) depth ('\x7b' :: cs ++ rest)) (.object ms) rest := by
  have mark : isBlank '\x7b' = false := by decide
  have allowed : ¬ (p = .keep ∧ depth = 0) := fun h => deep h.1 h.2
  obtain ⟨us, read, kept⟩ := members
  refine ⟨.object us, ?_, fun keep => by rw [kept keep]⟩
  simp [readNested, skipBlank_other mark, allowed, read, bind, Except.bind, pure, Except.pure]

theorem readItems_item (first : Bool) {v : Value} {vs : List Value} {cs ds : List Char}
    (begins : ∃ c t, skipBlank cs = c :: t ∧ BeginsValue c)
    (item : Reads p (readNested p fuel depth (cs ++ (ds ++ rest))) v (ds ++ rest))
    (more : Reads p (readItems p fuel depth false (ds ++ rest)) vs rest) :
    Reads p (readItems p (fuel + 1) depth first (comma first ++ (cs ++ ds) ++ rest)) (v :: vs)
      rest := by
  obtain ⟨u, item, kept⟩ := item
  obtain ⟨us, more, kept'⟩ := more
  refine ⟨u :: us, ?_, fun keep => by rw [kept keep, kept' keep]⟩
  cases first with
  | true =>
    obtain ⟨c, t, begins, blank, bracket, _⟩ := begins
    have front := skipBlank_append_cons begins (ds ++ rest)
    have same : skipBlank (c :: (t ++ (ds ++ rest))) = skipBlank (cs ++ (ds ++ rest)) :=
      (skipBlank_other blank _).trans front.symm
    simp only [comma, if_true, List.nil_append, List.append_assoc, readItems, front, bracket,
      if_false, Bool.not_true, Bool.false_and, Bool.false_eq_true, readNested_congr same, item,
      more, bind, Except.bind, pure, Except.pure]
  | false =>
    have mark : isBlank ',' = false := by decide
    simp [comma, readItems, skipBlank_other mark, item, more, bind, Except.bind, pure,
      Except.pure]

theorem readColon_append {between : List Char} (blank : between.all isBlank = true)
    (cs : List Char) : readColon (between ++ ':' :: cs) = .ok cs := by
  have mark : isBlank ':' = false := by decide
  simp [readColon, skipBlank_append blank, skipBlank_other mark]

theorem skipBlank_key {before : List Char} (blank : before.all isBlank = true)
    (ks cs : List Char) :
    skipBlank (before ++ (quoted ks ++ cs)) = '\x22' :: (ks ++ '\x22' :: cs) := by
  have mark : isBlank '\x22' = false := by decide
  rw [skipBlank_append blank, quoted_append, skipBlank_other mark]

theorem readMembers_member (first : Bool) {before between ks : List Char} {key : String}
    {v : Value} {ms : List (String × Value)} {cs ds : List Char}
    (blank : before.all isBlank = true) (spelled : Spells ks key.toList)
    (blank' : between.all isBlank = true)
    (value : Reads p (readNested p fuel depth (cs ++ (ds ++ rest))) v (ds ++ rest))
    (more : Reads p (readMembers p fuel depth false (ds ++ rest)) ms rest) :
    Reads p (readMembers p (fuel + 1) depth first
      (comma first ++ (before ++ (quoted ks ++ (between ++ ':' :: (cs ++ ds)))) ++ rest))
      ((key, v) :: ms) rest := by
  have mark : isBlank '\x22' = false := by decide
  have next : isBlank ',' = false := by decide
  obtain ⟨k, key, kept⟩ := spelled.readString (p := p) (between ++ ':' :: (cs ++ (ds ++ rest)))
  obtain ⟨u, value, kept'⟩ := value
  obtain ⟨us, more, kept''⟩ := more
  refine ⟨(k, u) :: us, ?_, fun keep => by rw [kept keep, kept' keep, kept'' keep]⟩
  rw [member_append]
  cases first with
  | true =>
    simp [comma, readMembers, skipBlank_key blank, skipBlank_other mark, key,
      readColon_append blank', value, more, bind, Except.bind, pure, Except.pure]
  | false =>
    simp [comma, readMembers, skipBlank_key blank, skipBlank_other next, key,
      readColon_append blank', value, more, bind, Except.bind, pure, Except.pure]

end Steps

/-- Every layout is read as what it lays out. What is only passed over may stand as deep as it
will. -/
theorem Written.isRead {p : Purpose} {depth : Nat} {part : Part} {cs : List Char}
    (h : Written p depth part cs) {fuel deep : Nat} {rest : List Char} (steps : cs.length ≤ fuel)
    (room : p = .keep → depth ≤ deep) (stop : EndsNumber rest) :
    part.IsRead p fuel deep cs rest := by
  -- the steps suffice because every part takes at least one character
  induction h generalizing fuel deep rest with
  | null =>
    obtain ⟨fuel, rfl⟩ := (Written.null : Written p 0 _ _).exists_fuel steps
    exact ⟨_, rfl, fun _ => rfl⟩
  | bool b =>
    obtain ⟨fuel, rfl⟩ := (Written.bool b : Written p 0 _ _).exists_fuel steps
    cases b <;> exact ⟨_, rfl, fun _ => rfl⟩
  | number spelled small =>
    obtain ⟨fuel, rfl⟩ := (Written.number spelled small : Written p 0 _ _).exists_fuel steps
    exact readNested_number spelled small stop
  | text spelled =>
    obtain ⟨fuel, rfl⟩ := (Written.text spelled : Written p 0 _ _).exists_fuel steps
    exact readNested_text spelled
  | array items ih =>
    obtain ⟨fuel, rfl⟩ := (Written.array items).exists_fuel steps
    apply readNested_array
    · intro keep
      have := room keep
      omega
    · apply ih (Nat.le_of_succ_le_succ steps) _ stop
      intro keep
      have := room keep
      omega
  | object members ih =>
    obtain ⟨fuel, rfl⟩ := (Written.object members).exists_fuel steps
    apply readNested_object
    · intro keep
      have := room keep
      omega
    · apply ih (Nat.le_of_succ_le_succ steps) _ stop
      intro keep
      have := room keep
      omega
  | blank blank more ih =>
    simp only [List.length_cons] at steps
    exact IsRead.blank blank (ih (by omega) room stop)
  | lastItem first =>
    obtain ⟨fuel, rfl⟩ := (Written.lastItem first : Written p 0 _ _).exists_fuel steps
    exact ⟨_, rfl, fun _ => rfl⟩
  | item first item more ih ih' =>
    obtain ⟨fuel, rfl⟩ := (Written.item first item more).exists_fuel steps
    have inner := item.length_pos
    have outer := more.length_pos
    simp only [List.length_append] at steps
    exact readItems_item first item.begins (ih (by omega) room (more.items_endsNumber rest))
      (ih' (by omega) room stop)
  | lastMember first =>
    obtain ⟨fuel, rfl⟩ := (Written.lastMember first : Written p 0 _ _).exists_fuel steps
    exact ⟨_, rfl, fun _ => rfl⟩
  | member first blank spelled blank' value more ih ih' =>
    obtain ⟨fuel, rfl⟩ := (Written.member first blank spelled blank' value more).exists_fuel steps
    have inner := value.length_pos
    have outer := more.length_pos
    simp only [List.length_append, List.length_cons] at steps
    exact readMembers_member first blank spelled blank'
      (ih (by omega) room (more.members_endsNumber rest)) (ih' (by omega) room stop)

section Values

variable {depth : Nat} {v : Value} {cs rest : List Char}

theorem Written.readValue {p : Purpose} (h : Written p depth (.value v) cs) {deep : Nat}
    (room : p = .keep → depth ≤ deep) (stop : EndsNumber rest) :
    Reads p (Json.readValue p deep (cs ++ rest)) v rest := by
  refine h.isRead ?_ room stop
  simp only [enough, List.length_append]
  omega

theorem Laid.readValue (h : Laid depth (.value v) cs) {deep : Nat} (room : depth ≤ deep)
    (stop : EndsNumber rest) : Json.readValue .keep deep (cs ++ rest) = .ok (v, rest) := by
  obtain ⟨u, read, kept⟩ := (h.written .keep).readValue (fun _ => room) stop
  rw [read, kept rfl]

theorem Written.skipValue (h : Written .skip depth (.value v) cs) (stop : EndsNumber rest) :
    Json.skipValue (cs ++ rest) = .ok rest := by
  have skipped : Reads .skip (Json.readValue .skip 0 (cs ++ rest)) v rest := h.readValue nofun stop
  obtain ⟨u, read, _⟩ := skipped
  rw [Json.skipValue, read]
  rfl

end Values

end CorrelatedInput.Json
