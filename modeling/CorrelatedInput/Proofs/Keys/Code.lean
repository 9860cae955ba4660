import CorrelatedInput.Keys.Code
import CorrelatedInput.Proofs.Text.Line
import CorrelatedInput.Proofs.Text.Numeral
/-!
White space around the name of a key. It makes no difference to a name, but a number is read only
without it: with it the text is taken for a name, and the one digit there may be for its key.
-/
namespace CorrelatedInput

namespace Text

/-- A character that a number may be written with. -/
def IsNumeral (c : Char) : Prop := c = '-' ∨ c = '+' ∨ isDigit c = true

theorem IsNumeral.not_blank {c : Char} (h : IsNumeral c) : isBlank c = false := by
  rcases h with rfl | rfl | digit
  · decide
  · decide
  · simp only [isDigit, Bool.and_eq_true, decide_eq_true_eq, Char.le_def] at digit
    have low : 48 ≤ c.toNat := digit.1
    have high : c.toNat ≤ 57 := digit.2
    simp only [isBlank, Bool.or_eq_false_iff, Bool.and_eq_false_imp, decide_eq_true_eq,
      decide_eq_false_iff_not]
    omega

theorem digits_of_readNat? {cs : List Char} {n : Nat} (read : readNat? cs = some n) :
    cs ≠ [] ∧ (∀ c ∈ cs, isDigit c = true) ∧ ofDigits cs = n := by
  unfold readNat? at read
  split at read
  · rename_i digits
    exact ⟨digits.1, List.all_eq_true.mp digits.2, Option.some_inj.mp read⟩
  · cases read

/-- An integer is read from digits, with or without a sign before them. -/
theorem digits_of_readInt? {cs : List Char} {n : Int} (read : readInt? cs = some n) :
    ∃ ds m, readNat? ds = some m ∧
      (cs = '-' :: ds ∧ n = -(m : Int) ∨ cs = '+' :: ds ∧ n = m ∨ cs = ds ∧ n = m) := by
  unfold readInt? at read
  split at read <;>
    simp only [Option.map_eq_some_iff, Option.bind_eq_bind, Option.bind_eq_some_iff,
      Option.pure_def, Option.some.injEq] at read <;>
    obtain ⟨_, ⟨m, digits, rfl⟩, rfl⟩ := read
  · exact ⟨_, m, digits, .inl ⟨rfl, rfl⟩⟩
  · exact ⟨_, m, digits, .inr (.inl ⟨rfl, rfl⟩)⟩
  · exact ⟨_, m, digits, .inr (.inr ⟨rfl, rfl⟩)⟩

theorem numerals_of_readInt? {cs : List Char} {n : Int} (read : readInt? cs = some n) :
    cs ≠ [] ∧ ∀ c ∈ cs, IsNumeral c := by
  obtain ⟨ds, m, read, written⟩ := digits_of_readInt? read
  obtain ⟨some, digits, _⟩ := digits_of_readNat? read
  have plain : ∀ c ∈ ds, IsNumeral c := fun c hc => .inr (.inr (digits c hc))
  rcases written with ⟨rfl, _⟩ | ⟨rfl, _⟩ | ⟨rfl, _⟩
  · exact ⟨List.cons_ne_nil _ _, List.forall_mem_cons.mpr ⟨.inl rfl, plain⟩⟩
  · exact ⟨List.cons_ne_nil _ _, List.forall_mem_cons.mpr ⟨.inr (.inl rfl), plain⟩⟩
  · exact ⟨some, plain⟩

theorem trim_numerals {cs : List Char} (numerals : ∀ c ∈ cs, IsNumeral c) : trim cs = cs :=
  trim_eq_self (fun c first => (numerals c (List.mem_of_mem_head? first)).not_blank)
    (fun c last => (numerals c (List.mem_of_mem_getLast? last)).not_blank)

end Text

namespace Keys

/-- The number that a text is, if it is the number of a key. -/
def number? (cs : List Char) : Option Int := Text.readIntWithin? (-2147483648) 2147483647 cs

/-- The key of a digit. -/
def digitKey? : List Char → Option Int32
  | [c] => digit? c
  | _ => none

section Number

variable {cs : List Char} {n : Int}

theorem readInt?_of_number? (h : number? cs = some n) : Text.readInt? cs = some n :=
  (Option.filter_eq_some_iff.mp h).1

theorem number?_of_padded (padded : Text.trim cs ≠ cs) : number? cs = none := by
  rw [Option.eq_none_iff_forall_ne_some]
  intro n h
  exact padded (Text.trim_numerals (Text.numerals_of_readInt? (readInt?_of_number? h)).2)

theorem numeral_below {c : Char} (h : Text.IsNumeral c) : c.toNat < 'A'.toNat := by
  rcases h with rfl | rfl | digit
  · decide
  · decide
  · simp only [Text.isDigit, Bool.and_eq_true, decide_eq_true_eq, Char.le_def] at digit
    have high : c.toNat ≤ 57 := digit.2
    exact Nat.lt_of_le_of_lt high (by decide)

theorem upper_numeral {c : Char} (h : Text.IsNumeral c) : upper c = c := by
  have below := numeral_below h
  apply if_neg
  rintro ⟨letter, _⟩
  have low : 'a'.toNat ≤ c.toNat := letter
  exact absurd (Nat.lt_of_le_of_lt low below) (by decide)

theorem letter?_numeral {c : Char} (h : Text.IsNumeral c) : letter? c = none := by
  have below := numeral_below h
  have small : ¬ 'a' ≤ c := fun low =>
    absurd (Nat.lt_of_le_of_lt (show 'a'.toNat ≤ c.toNat from low) below) (by decide)
  have capital : ¬ 'A' ≤ c := fun low => Nat.not_lt_of_le (show 'A'.toNat ≤ c.toNat from low) below
  simp [letter?, small, capital]

/-- No name begins as a number does. -/
theorem lookup_numeral {c : Char} (h : Text.IsNumeral c) (cs : List Char) :
    named.lookup (String.ofList (c :: cs)) = none := by
  have letters : ∀ e ∈ named, ∀ d ∈ e.1.toList.head?, 'A'.toNat ≤ d.toNat := by
    simp [named]
  rw [List.lookup_eq_none_iff]
  intro e he
  rw [bne_iff_ne]
  rintro same
  have first : c ∈ e.1.toList.head? := by
    rw [← same, String.toList_ofList]
    rfl
  exact absurd (numeral_below h) (Nat.not_lt_of_le (letters e he c first))

theorem bareName_numeral {c : Char} (h : Text.IsNumeral c) (cs : List Char) :
    bareName (c :: cs) = c :: cs := by
  have apart : 'K' ≠ c := by
    rintro rfl
    exact absurd (numeral_below h) (by decide)
  have other : Text.after? "KEYCODE_".toList (c :: cs) = none := if_neg apart
  rw [bareName, other]
  rfl

/-- A number that is taken for a name can only be the digit of a key. -/
theorem ofName?_of_number? (h : number? cs = some n) :
    ofName? (bareName (cs.map upper)) = digitKey? cs := by
  obtain ⟨filled, numerals⟩ := Text.numerals_of_readInt? (readInt?_of_number? h)
  have same : cs.map upper = cs := by
    rw [List.map_congr_left fun c hc => upper_numeral (numerals c hc), List.map_id']
  cases cs with
  | nil => exact absurd rfl filled
  | cons c rest =>
    have first := numerals c List.mem_cons_self
    rw [same, bareName_numeral first]
    unfold ofName?
    rw [lookup_numeral first]
    cases rest with
    | nil =>
      change (letter? c).or (digit? c) = digit? c
      rw [letter?_numeral first, Option.none_or]
    | cons => rfl

/-- The key of a digit never has the code that the digit is. -/
theorem digitKey?_ne (h : number? cs = some n) : digitKey? cs ≠ some (Int32.ofInt n) := by
  have apart : ∀ k < 10, Int32.ofInt (7 + ((48 + k : Nat) - 48)) ≠ Int32.ofInt (k : Nat) := by
    decide
  match cs with
  | [] => exact nofun
  | _ :: _ :: _ => exact nofun
  | [c] =>
    obtain ⟨ds, m, digits, written⟩ := Text.digits_of_readInt? (readInt?_of_number? h)
    obtain ⟨filled, digits, value⟩ := Text.digits_of_readNat? digits
    rcases written with ⟨same, _⟩ | ⟨same, _⟩ | ⟨rfl, rfl⟩
    · exact absurd (List.cons.inj same).2.symm filled
    · exact absurd (List.cons.inj same).2.symm filled
    · have digit := digits c List.mem_cons_self
      have bounds := digit
      simp only [Text.isDigit, Bool.and_eq_true, decide_eq_true_eq, Char.le_def] at bounds
      have low : 48 ≤ c.toNat := bounds.1
      have high : c.toNat ≤ 57 := bounds.2
      obtain ⟨k, place⟩ := Nat.exists_eq_add_of_le low
      have read : m = k := by
        rw [← value]
        simp [Text.ofDigits, Nat.ofDigitChars_cons, place]
      simp only [digitKey?, digit?, digit, if_true, place, read]
      intro same
      exact apart k (by omega) (Option.some_inj.mp same)

end Number

/-- White space around the name of a key matters where a number is left without it, and nowhere
else. A number stands for the key of that code, but with white space around it only for the key of
the digit that it is, if it is one digit alone. -/
theorem padding_matters_to_numbers (cs : List Char) :
    (parse? cs = parse? (Text.trim cs) ↔
      Text.trim cs = cs ∨ number? (Text.trim cs) = none) ∧
    ∀ n, number? (Text.trim cs) = some n →
      parse? (Text.trim cs) = some (Int32.ofInt n) ∧
        (Text.trim cs ≠ cs → parse? cs = digitKey? (Text.trim cs)) := by
  have numbered {ds : List Char} {n : Int} (number : number? ds = some n) :
      parse? ds = some (Int32.ofInt n) := by
    rw [number?] at number
    simp only [parse?, number]
  have unnumbered {ds : List Char} (none : number? ds = none) :
      parse? ds = ofName? (bareName ((Text.trim ds).map upper)) := by
    rw [number?] at none
    simp only [parse?, none]
  have named {n : Int} (number : number? (Text.trim cs) = some n) (padded : Text.trim cs ≠ cs) :
      parse? cs = digitKey? (Text.trim cs) :=
    (unnumbered (number?_of_padded padded)).trans (ofName?_of_number? number)
  constructor
  · constructor
    · intro same
      by_contra other
      rw [not_or] at other
      obtain ⟨n, number⟩ := Option.ne_none_iff_exists'.mp other.2
      rw [named number other.1, numbered number] at same
      exact digitKey?_ne number same
    · rintro (bare | none)
      · rw [bare]
      · by_cases bare : Text.trim cs = cs
        · rw [bare]
        · rw [unnumbered (number?_of_padded bare), unnumbered none, Text.trim_trim]
  · intro n number
    exact ⟨numbered number, named number⟩

/-- A space in front makes another key of a digit. -/
theorem padding_matters_to_numbers_digit :
    parse? ['5'] = some 5 ∧ parse? [' ', '5'] = digitKey? ['5'] := by
  have number : number? (Text.trim [' ', '5']) = some 5 := by decide
  obtain ⟨plain, padded⟩ := (padding_matters_to_numbers [' ', '5']).2 5 number
  exact ⟨plain, padded (by decide)⟩

/-- So the law that white space makes no difference fails. -/
theorem padded_digit_is_another_key :
    let padded := [' ', '5']
    parse? padded = some 12 ∧ parse? (Text.trim padded) = some 5 ∧
      parse? padded ≠ parse? (Text.trim padded) := by
  decide

end Keys

end CorrelatedInput
