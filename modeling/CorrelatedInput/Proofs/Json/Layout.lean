import CorrelatedInput.Proofs.Json.Number
import CorrelatedInput.Proofs.Json.Quoted
/-!
How a JSON value may be laid out in a text: its members in their order, each string in any of its
spellings, and white space wherever JSON allows it. Whatever is laid out can be read, and the
compact form is one layout.
-/
namespace CorrelatedInput.Json

/-- Values that can be written and read again: `depth` bounds how deep arrays and objects stand in
each other, and every number is an integer that 64 bits hold. -/
inductive Value.Fits : Nat → Value → Prop
  | null {depth : Nat} : Fits depth .null
  | bool {depth : Nat} (b : Bool) : Fits depth (.bool b)
  | integer {depth : Nat} {n : Int} (word : IsWord n) : Fits depth (.integer n)
  | text {depth : Nat} (s : String) : Fits depth (.text s)
  | array {depth : Nat} {items : List Value} (fit : ∀ v ∈ items, Fits depth v) :
    Fits (depth + 1) (.array items)
  | object {depth : Nat} {members : List (String × Value)} (fit : ∀ m ∈ members, Fits depth m.2) :
    Fits (depth + 1) (.object members)

/-- What is laid out: a value, or the items or members that are left up to the closing bracket;
`first` before the first of them. -/
inductive Part where
  | value (v : Value)
  | items (first : Bool) (vs : List Value)
  | members (first : Bool) (ms : List (String × Value))

def comma (first : Bool) : List Char := if first then [] else [',']

/-- The text lays out the part, with no more than `depth` arrays and objects around a value. -/
inductive Laid : Nat → Part → List Char → Prop
  | null {depth : Nat} : Laid depth (.value .null) Value.null.write
  | bool {depth : Nat} (b : Bool) : Laid depth (.value (.bool b)) (Value.bool b).write
  | integer {depth : Nat} {n : Int} (word : IsWord n) :
    Laid depth (.value (.integer n)) (Text.writeInt n)
  | text {depth : Nat} {s : String} {cs : List Char} (spelled : Spells cs s.toList) :
    Laid depth (.value (.text s)) (quoted cs)
  | array {depth : Nat} {vs : List Value} {cs : List Char}
    (items : Laid depth (.items true vs) cs) :
    Laid (depth + 1) (.value (.array vs)) ('[' :: cs)
  | object {depth : Nat} {ms : List (String × Value)} {cs : List Char}
    (members : Laid depth (.members true ms) cs) :
    Laid (depth + 1) (.value (.object ms)) ('\x7b' :: cs)
  | blank {depth : Nat} {part : Part} {c : Char} {cs : List Char} (blank : isBlank c = true)
    (rest : Laid depth part cs) : Laid depth part (c :: cs)
  | lastItem {depth : Nat} (first : Bool) : Laid depth (.items first []) [']']
  | item {depth : Nat} (first : Bool) {v : Value} {vs : List Value} {cs ds : List Char}
    (item : Laid depth (.value v) cs) (rest : Laid depth (.items false vs) ds) :
    Laid depth (.items first (v :: vs)) (comma first ++ (cs ++ ds))
  | lastMember {depth : Nat} (first : Bool) : Laid depth (.members first []) ['\x7d']
  | member {depth : Nat} (first : Bool) {before between ks : List Char} {key : String} {v : Value}
    {ms : List (String × Value)} {cs ds : List Char} (blank : before.all isBlank = true)
    (spelled : Spells ks key.toList) (blank' : between.all isBlank = true)
    (value : Laid depth (.value v) cs) (rest : Laid depth (.members false ms) ds) :
    Laid depth (.members first ((key, v) :: ms))
      (comma first ++ (before ++ (quoted ks ++ (between ++ ':' :: (cs ++ ds)))))

/-- The text lays out the part, its numbers spelled in any way: a decimal stands for any number but
an integer of 64 bits. What is only passed over may be as deep, and its numbers as large, as they
will. -/
inductive Written (p : Purpose) : Nat → Part → List Char → Prop
  | null {depth : Nat} : Written p depth (.value .null) Value.null.write
  | bool {depth : Nat} (b : Bool) : Written p depth (.value (.bool b)) (Value.bool b).write
  | number {depth : Nat} {n : Spelling} {cs : List Char} (spelled : SpellsNumber n cs)
    (small : p = .keep → n.tooLarge = false) : Written p depth (.value n.value) cs
  | text {depth : Nat} {s : String} {cs : List Char} (spelled : Spells cs s.toList) :
    Written p depth (.value (.text s)) (quoted cs)
  | array {depth : Nat} {vs : List Value} {cs : List Char}
    (items : Written p depth (.items true vs) cs) :
    Written p (depth + 1) (.value (.array vs)) ('[' :: cs)
  | object {depth : Nat} {ms : List (String × Value)} {cs : List Char}
    (members : Written p depth (.members true ms) cs) :
    Written p (depth + 1) (.value (.object ms)) ('\x7b' :: cs)
  | blank {depth : Nat} {part : Part} {c : Char} {cs : List Char} (blank : isBlank c = true)
    (rest : Written p depth part cs) : Written p depth part (c :: cs)
  | lastItem {depth : Nat} (first : Bool) : Written p depth (.items first []) [']']
  | item {depth : Nat} (first : Bool) {v : Value} {vs : List Value} {cs ds : List Char}
    (item : Written p depth (.value v) cs) (rest : Written p depth (.items false vs) ds) :
    Written p depth (.items first (v :: vs)) (comma first ++ (cs ++ ds))
  | lastMember {depth : Nat} (first : Bool) : Written p depth (.members first []) ['\x7d']
  | member {depth : Nat} (first : Bool) {before between ks : List Char} {key : String} {v : Value}
    {ms : List (String × Value)} {cs ds : List Char} (blank : before.all isBlank = true)
    (spelled : Spells ks key.toList) (blank' : between.all isBlank = true)
    (value : Written p depth (.value v) cs) (rest : Written p depth (.members false ms) ds) :
    Written p depth (.members first ((key, v) :: ms))
      (comma first ++ (before ++ (quoted ks ++ (between ++ ':' :: (cs ++ ds)))))

theorem Laid.written (p : Purpose) {depth : Nat} {part : Part} {cs : List Char}
    (h : Laid depth part cs) : Written p depth part cs := by
  induction h with
  | null => exact .null
  | bool b => exact .bool b
  | integer word =>
    obtain ⟨n, spelled, value⟩ := spellsNumber_writeInt word
    rw [← value]
    exact .number spelled fun _ => tooLarge_of_integer value
  | text spelled => exact .text spelled
  | array _ items => exact .array items
  | object _ members => exact .object members
  | blank blank _ rest => exact .blank blank rest
  | lastItem first => exact .lastItem first
  | item first _ _ item rest => exact .item first item rest
  | lastMember first => exact .lastMember first
  | member first blank spelled blank' _ _ value rest =>
    exact .member first blank spelled blank' value rest

/-! White space -/

theorem skipBlank_append {bs : List Char} (blank : bs.all isBlank = true) (cs : List Char) :
    skipBlank (bs ++ cs) = skipBlank cs :=
  List.dropWhile_append_of_pos (List.all_eq_true.mp blank)

theorem skipBlank_blanks {bs : List Char} (blank : bs.all isBlank = true) : skipBlank bs = [] := by
  have passed := skipBlank_append blank []
  rwa [List.append_nil] at passed

@[simp] theorem skipBlank_blank {c : Char} (blank : isBlank c = true) (cs : List Char) :
    skipBlank (c :: cs) = skipBlank cs := List.dropWhile_cons_of_pos blank

@[simp] theorem skipBlank_other {c : Char} (other : isBlank c = false) (cs : List Char) :
    skipBlank (c :: cs) = c :: cs := List.dropWhile_cons_of_neg (by simp [other])

section Skip

variable {p : Purpose} {fuel depth : Nat} {first : Bool} {cs ds : List Char}

theorem readNested_congr (same : skipBlank cs = skipBlank ds) :
    readNested p fuel depth cs = readNested p fuel depth ds := by
  cases fuel with
  | zero => simp [readNested]
  | succ fuel => simp only [readNested, same]

theorem readItems_congr (same : skipBlank cs = skipBlank ds) :
    readItems p fuel depth first cs = readItems p fuel depth first ds := by
  cases fuel with
  | zero => simp [readItems]
  | succ fuel => simp only [readItems, same]

theorem readMembers_congr (same : skipBlank cs = skipBlank ds) :
    readMembers p fuel depth first cs = readMembers p fuel depth first ds := by
  cases fuel with
  | zero => simp [readMembers]
  | succ fuel => simp only [readMembers, same]

end Skip

theorem skipBlank_append_cons {cs t : List Char} {c : Char} (h : skipBlank cs = c :: t)
    (rest : List Char) : skipBlank (cs ++ rest) = c :: (t ++ rest) := by
  have h : cs.dropWhile isBlank = c :: t := h
  simp [skipBlank, List.dropWhile_append, h]

/-! Where a part begins -/

def BeginsValue (c : Char) : Prop := isBlank c = false ∧ c ≠ ']' ∧ c ≠ '\x7d' ∧ c ≠ ','

theorem writeInt_head (n : Int) :
    ∃ c t, Text.writeInt n = c :: t ∧ (c = '-' ∨ Text.isDigit c = true) := by
  cases n with
  | negSucc m => exact ⟨_, _, rfl, .inl rfl⟩
  | ofNat m =>
    obtain ⟨d, ds, digits⟩ := List.exists_cons_of_ne_nil (Text.writeNat_ne_nil m)
    exact ⟨d, ds, digits, .inr (Text.isDigit_of_mem_writeNat (digits ▸ List.mem_cons_self))⟩

theorem beginsNumber {c : Char} (h : c = '-' ∨ Text.isDigit c = true) :
    BeginsValue c ∧ c ≠ '\x22' ∧ c ≠ '[' ∧ c ≠ '\x7b' := by
  have other (d : Char) (mark : d ≠ '-') (digit : Text.isDigit d = false) : c ≠ d := by
    rintro rfl
    rcases h with h | h
    · exact mark h
    · rw [digit] at h
      cases h
  have blank : isBlank c = false := by
    simp [isBlank, other ' ' (by decide) (by decide), other '\n' (by decide) (by decide),
      other '\t' (by decide) (by decide), other '\r' (by decide) (by decide)]
  exact ⟨⟨blank, other _ (by decide) (by decide), other _ (by decide) (by decide),
    other _ (by decide) (by decide)⟩, other _ (by decide) (by decide),
    other _ (by decide) (by decide), other _ (by decide) (by decide)⟩

theorem Written.begins {p : Purpose} {depth : Nat} {v : Value} {cs : List Char}
    (h : Written p depth (.value v) cs) :
    ∃ c t, skipBlank cs = c :: t ∧ BeginsValue c := by
  have mark {c : Char} {t : List Char} (begins : BeginsValue c) :
      ∃ d u, skipBlank (c :: t) = d :: u ∧ BeginsValue d :=
    ⟨c, t, skipBlank_other begins.1 t, begins⟩
  generalize same : Part.value v = part at h
  induction h with
  | null => exact mark (by simp only [BeginsValue]; decide)
  | bool b => cases b <;> exact mark (by simp only [BeginsValue]; decide)
  | number spelled =>
    obtain ⟨c, t, rfl, first⟩ := spelled.head
    exact mark (beginsNumber first).1
  | text => exact mark (by simp only [BeginsValue]; decide)
  | array | object => exact mark (by simp only [BeginsValue]; decide)
  | blank blank rest ih => simpa [blank] using ih same
  | _ => cases same

theorem Written.length_pos {p : Purpose} {depth : Nat} {part : Part} {cs : List Char}
    (h : Written p depth part cs) : 0 < cs.length := by
  cases h with
  | bool b => cases b <;> decide
  | number spelled =>
    obtain ⟨c, t, rfl, _⟩ := spelled.head
    simp
  | @item _ first v vs cs ds item rest =>
    obtain ⟨c, t, begins, _⟩ := item.begins
    cases cs with
    | nil => cases begins
    | cons c cs =>
      simp only [List.length_append, List.length_cons]
      omega
  | member =>
    simp only [List.length_append, quoted, List.length_cons]
    omega
  | _ => simp [quoted, Value.write]

/-- A reader that has a step for every character has one for what is laid out. -/
theorem Written.exists_fuel {p : Purpose} {depth fuel : Nat} {part : Part} {cs : List Char}
    (h : Written p depth part cs) (steps : cs.length ≤ fuel) : ∃ n, fuel = n + 1 := by
  have some := h.length_pos
  exact ⟨fuel - 1, by omega⟩

/-! The text of a member -/

section Member

variable {first : Bool} {before between ks cs ds : List Char}

theorem member_append (rest : List Char) :
    comma first ++ (before ++ (quoted ks ++ (between ++ ':' :: (cs ++ ds)))) ++ rest =
      comma first ++ (before ++ (quoted ks ++ (between ++ ':' :: (cs ++ (ds ++ rest))))) := by
  simp

theorem Written.others_length {p : Purpose} {depth fuel : Nat} {v : Value}
    (value : Written p depth (.value v) cs) (steps : (comma first ++
      (before ++ (quoted ks ++ (between ++ ':' :: (cs ++ ds))))).length ≤ fuel + 1) :
    ds.length ≤ fuel := by
  have some := value.length_pos
  simp only [List.length_append, List.length_cons] at steps
  omega

end Member

/-! What follows a part -/

theorem endsNumber_append {c : Char}
    (other : Text.isDigit c = false ∧ c ≠ '.' ∧ c ≠ 'e' ∧ c ≠ 'E') (cs rest : List Char) :
    EndsNumber (c :: cs ++ rest) := other

theorem endsNumber_blank {c : Char} (blank : isBlank c = true) (cs : List Char) :
    EndsNumber (c :: cs) := by
  have cases : c = ' ' ∨ c = '\n' ∨ c = '\t' ∨ c = '\r' := by
    simpa [isBlank, or_assoc] using blank
  simp only [EndsNumber]
  rcases cases with rfl | rfl | rfl | rfl <;> decide

theorem endsNumber_blanks {bs : List Char} (blank : bs.all isBlank = true) : EndsNumber bs := by
  cases bs with
  | nil => trivial
  | cons c bs =>
    rw [List.all_cons, Bool.and_eq_true] at blank
    exact endsNumber_blank blank.1 bs

theorem Written.items_endsNumber {p : Purpose} {depth : Nat} {vs : List Value} {cs : List Char}
    (h : Written p depth (.items false vs) cs) (rest : List Char) : EndsNumber (cs ++ rest) := by
  cases h with
  | blank blank _ => exact endsNumber_blank blank _
  | lastItem | item => exact endsNumber_append (by decide) _ rest

theorem Written.members_endsNumber {p : Purpose} {depth : Nat} {ms : List (String × Value)}
    {cs : List Char} (h : Written p depth (.members false ms) cs) (rest : List Char) :
    EndsNumber (cs ++ rest) := by
  cases h with
  | blank blank _ => exact endsNumber_blank blank _
  | lastMember | member => exact endsNumber_append (by decide) _ rest

end CorrelatedInput.Json
