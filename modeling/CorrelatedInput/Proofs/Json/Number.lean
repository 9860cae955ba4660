import CorrelatedInput.Json.Reader
import CorrelatedInput.Proofs.Text.Numeral
/-!
Numbers in a JSON text. One is read as it is spelled, whatever follows it that does not go on with a
number; and an integer that 64 bits hold is read as that integer.
-/
namespace CorrelatedInput.Json

/-- The integers that are read as such: 64 bits hold them, signed or not. -/
def IsWord (n : Int) : Prop := -UInt64.size ≤ 2 * n ∧ n < UInt64.size

/-- What follows does not go on with a number. -/
def EndsNumber : List Char → Prop
  | [] => True
  | c :: _ => Text.isDigit c = false ∧ c ≠ '.' ∧ c ≠ 'e' ∧ c ≠ 'E'

/-! Size -/

theorem gather_eq {m taken : Nat} {ds : List Char}
    (small : Nat.ofDigitChars 10 ds m < UInt64.size) :
    gather m taken ds = (Nat.ofDigitChars 10 ds m, taken + ds.length, []) := by
  have grows (ds : List Char) (m : Nat) : m ≤ Nat.ofDigitChars 10 ds m := by
    induction ds generalizing m with
    | nil => simp
    | cons d ds ih =>
      rw [Nat.ofDigitChars_cons]
      exact Nat.le_trans (by omega) (ih _)
  induction ds generalizing m taken with
  | nil => simp [gather]
  | cons d ds ih =>
    have next : m * 10 + Text.ofDigits [d] = 10 * m + (d.toNat - '0'.toNat) := by
      simp [Text.ofDigits, Nat.ofDigitChars_cons, Nat.mul_comm]
    rw [Nat.ofDigitChars_cons] at small
    have low : ¬ UInt64.size ≤ 10 * m + (d.toNat - '0'.toNat) :=
      Nat.not_le_of_lt (Nat.lt_of_le_of_lt (grows ds _) small)
    simp only [gather, next, low, if_false, ih small, Nat.ofDigitChars_cons, List.length_cons]
    congr 2
    omega

theorem significant_le (m : Nat) : significant m ≤ 3 * m + 1 := by
  have rounded (num den : Nat) : nearestEven num den ≤ num / den + 1 := by
    simp only [nearestEven]
    split
    · omega
    · split <;> omega
  have scale : 2 ^ (m.log2 + 1 - 53) ≤ 2 * m + 1 := by
    rcases Nat.eq_zero_or_pos m with rfl | positive
    · decide
    · have log := Nat.log2_self_le (Nat.ne_of_gt positive)
      calc 2 ^ (m.log2 + 1 - 53) ≤ 2 ^ (m.log2 + 1) := Nat.pow_le_pow_right (by decide) (by omega)
        _ = 2 * 2 ^ m.log2 := by rw [Nat.pow_succ, Nat.mul_comm]
        _ ≤ 2 * m + 1 := by omega
  rw [significant, Nat.one_shiftLeft, Nat.shiftLeft_eq]
  calc nearestEven m (2 ^ (m.log2 + 1 - 53)) * 2 ^ (m.log2 + 1 - 53)
    _ ≤ (m / 2 ^ (m.log2 + 1 - 53) + 1) * 2 ^ (m.log2 + 1 - 53) :=
        Nat.mul_le_mul_right _ (rounded _ _)
    _ = m / 2 ^ (m.log2 + 1 - 53) * 2 ^ (m.log2 + 1 - 53) + 2 ^ (m.log2 + 1 - 53) :=
        Nat.succ_mul _ _
    _ ≤ m + (2 * m + 1) := Nat.add_le_add (Nat.div_mul_le_self _ _) scale
    _ = 3 * m + 1 := by omega

theorem overflowsBinary64_word {m : Nat} (small : m < UInt64.size) :
    overflowsBinary64 m 0 = false := by
  have beyond : 3 * UInt64.size + 1 < 1 <<< 1024 - 1 <<< 970 := by decide +kernel
  have low : significant m < 1 <<< 1024 - 1 <<< 970 := by
    have := significant_le m
    exact Nat.lt_of_le_of_lt (by omega : significant m ≤ 3 * UInt64.size + 1) beyond
  have one : significant (Nat.pow 10 (Int.toNat 0)) = 1 := by decide
  simp only [overflowsBinary64, one, Nat.mul_one, Nat.not_le_of_lt low]
  split <;> rfl

theorem tooLarge_whole (negative : Bool) {ds : List Char} (small : Text.ofDigits ds < UInt64.size) :
    (Spelling.mk negative ds [] none).tooLarge = false := by
  have gathered : gather 0 0 ds = (Text.ofDigits ds, 0 + ds.length, []) := gather_eq small
  simp only [Spelling.tooLarge, gathered, gather]
  exact overflowsBinary64_word small

/-! Spellings -/

def AreDigits (ds : List Char) : Prop := ds ≠ [] ∧ ∀ c ∈ ds, Text.isDigit c = true

inductive SpellsFraction : List Char → List Char → Prop
  | none : SpellsFraction [] []
  | some {ds : List Char} (digits : AreDigits ds) : SpellsFraction ds ('.' :: ds)

inductive SpellsExponent : Option (Bool × List Char) → List Char → Prop
  | none : SpellsExponent none []
  | bare {e : Char} {ds : List Char} (mark : e = 'e' ∨ e = 'E') (digits : AreDigits ds) :
    SpellsExponent (some (false, ds)) (e :: ds)
  | plus {e : Char} {ds : List Char} (mark : e = 'e' ∨ e = 'E') (digits : AreDigits ds) :
    SpellsExponent (some (false, ds)) (e :: '+' :: ds)
  | minus {e : Char} {ds : List Char} (mark : e = 'e' ∨ e = 'E') (digits : AreDigits ds) :
    SpellsExponent (some (true, ds)) (e :: '-' :: ds)

/-- The characters are a number. Its whole part has no zero in front of other digits. -/
inductive SpellsNumber : Spelling → List Char → Prop
  | plain {whole fraction fs es : List Char} {exponent : Option (Bool × List Char)}
    (digits : AreDigits whole) (shortest : ¬ (whole.head? = some '0' ∧ 1 < whole.length))
    (behind : SpellsFraction fraction fs) (scaled : SpellsExponent exponent es) :
    SpellsNumber ⟨false, whole, fraction, exponent⟩ (whole ++ (fs ++ es))
  | minus {whole fraction cs : List Char} {exponent : Option (Bool × List Char)}
    (rest : SpellsNumber ⟨false, whole, fraction, exponent⟩ cs) :
    SpellsNumber ⟨true, whole, fraction, exponent⟩ ('-' :: cs)

theorem AreDigits.unsigned {ds : List Char} (digits : AreDigits ds) (more : List Char) :
    (∀ cs, ds ++ more ≠ '-' :: cs) ∧ ∀ cs, ds ++ more ≠ '+' :: cs := by
  obtain ⟨some, digits⟩ := digits
  obtain ⟨d, ds, rfl⟩ := List.exists_cons_of_ne_nil some
  have digit : Text.isDigit d = true := digits d List.mem_cons_self
  constructor <;> rintro cs same <;> cases same <;> exact absurd digit (by decide)

theorem areDigits_writeNat (m : Nat) : AreDigits (Text.writeNat m) :=
  ⟨Text.writeNat_ne_nil m, fun _ => Text.isDigit_of_mem_writeNat⟩

theorem spellsNumber_writeNat (m : Nat) :
    SpellsNumber ⟨false, Text.writeNat m, [], none⟩ (Text.writeNat m) := by
  have spelled := SpellsNumber.plain (areDigits_writeNat m) (Text.writeNat_canonical m) .none .none
  rwa [List.append_nil, List.append_nil] at spelled

/-- The spelling in which an integer is written is that of the integer. -/
theorem spellsNumber_writeInt {n : Int} (word : IsWord n) :
    ∃ spelling, SpellsNumber spelling (Text.writeInt n) ∧ spelling.value = .integer n := by
  obtain ⟨low, high⟩ := word
  cases n with
  | ofNat m =>
    have small : m < UInt64.size := Int.ofNat_lt.mp high
    refine ⟨_, spellsNumber_writeNat m, ?_⟩
    simp [Spelling.value, Text.ofDigits_writeNat, small]
  | negSucc m =>
    have small : 2 * (m + 1) ≤ UInt64.size := by omega
    refine ⟨_, (spellsNumber_writeNat (m + 1)).minus, ?_⟩
    simp only [Spelling.value, Bool.true_eq_false, false_and, and_false, if_false,
      Text.ofDigits_writeNat, Nat.succ_pos, small, and_self, if_true]
    rfl

/-- An integer is never too large. -/
theorem tooLarge_of_integer {spelling : Spelling} {n : Int} (h : spelling.value = .integer n) :
    spelling.tooLarge = false := by
  obtain ⟨negative, whole, fraction, exponent⟩ := spelling
  simp only [Spelling.value] at h
  split at h
  · rename_i word
    obtain ⟨rfl, rfl, _, small⟩ := word
    exact tooLarge_whole negative small
  · split at h
    · rename_i word
      obtain ⟨rfl, rfl, _, _, small⟩ := word
      exact tooLarge_whole negative (by omega)
    · cases h

theorem SpellsNumber.head {n : Spelling} {cs : List Char} (h : SpellsNumber n cs) :
    ∃ c t, cs = c :: t ∧ (c = '-' ∨ Text.isDigit c = true) := by
  cases h with
  | plain digits =>
    obtain ⟨d, ds, rfl⟩ := List.exists_cons_of_ne_nil digits.1
    exact ⟨d, _, rfl, .inr (digits.2 d List.mem_cons_self)⟩
  | minus => exact ⟨_, _, rfl, .inl rfl⟩

/-! Reading -/

section Digits

variable {p : Purpose} {rest : List Char}

theorem readDigits_append {ds : List Char} (digits : AreDigits ds)
    (stop : ∀ c ∈ rest.head?, Text.isDigit c = false) :
    readDigits p (ds ++ rest) = .ok (ds, rest) := by
  have none : rest.takeWhile Text.isDigit = [] ∧ rest.dropWhile Text.isDigit = rest := by
    cases rest with
    | nil => exact ⟨rfl, rfl⟩
    | cons c rest => simp [stop c rfl]
  obtain ⟨some, digits⟩ := digits
  cases ds with
  | nil => exact absurd rfl some
  | cons d ds =>
    have first : Text.isDigit d = true := digits d List.mem_cons_self
    have taken : (d :: ds ++ rest).takeWhile Text.isDigit = d :: ds := by
      rw [List.takeWhile_append_of_pos digits, none.1, List.append_nil]
    have left : (d :: ds ++ rest).dropWhile Text.isDigit = rest := by
      rw [List.dropWhile_append_of_pos digits, none.2]
    rw [List.cons_append] at taken left ⊢
    simp only [readDigits, first, if_true, taken, left]

theorem EndsNumber.digits (stop : EndsNumber rest) : ∀ c ∈ rest.head?, Text.isDigit c = false := by
  cases rest with
  | nil => exact nofun
  | cons c rest =>
    rintro _ ⟨⟩
    exact stop.1

theorem SpellsExponent.readExponent {exponent : Option (Bool × List Char)} {es : List Char}
    (h : SpellsExponent exponent es) (stop : EndsNumber rest) :
    Json.readExponent p (es ++ rest) = .ok (exponent, rest) := by
  cases h with
  | none =>
    cases rest with
    | nil => rfl
    | cons c rest => simp [Json.readExponent, stop.2.2.1, stop.2.2.2]
  | @bare e ds mark digits =>
    obtain ⟨minus, plus⟩ := digits.unsigned rest
    rw [List.cons_append, Json.readExponent, if_pos mark]
    · simp [readDigits_append digits stop.digits, bind, Except.bind, pure, Except.pure]
    · exact minus
    · exact plus
  | plus mark digits | minus mark digits =>
    simp [Json.readExponent, mark, readDigits_append digits stop.digits, bind, Except.bind, pure,
      Except.pure]

theorem SpellsExponent.begins {exponent : Option (Bool × List Char)} {es : List Char}
    (h : SpellsExponent exponent es) (stop : EndsNumber rest) :
    ∀ c ∈ (es ++ rest).head?, Text.isDigit c = false ∧ c ≠ '.' := by
  have letters : ∀ e, e = 'e' ∨ e = 'E' → Text.isDigit e = false ∧ e ≠ '.' := by
    rintro e (rfl | rfl) <;> decide
  cases h with
  | none =>
    cases rest with
    | nil => exact nofun
    | cons c rest =>
      rintro _ ⟨⟩
      exact ⟨stop.1, stop.2.1⟩
  | bare mark | plus mark | minus mark =>
    rintro _ ⟨⟩
    exact letters _ mark

theorem SpellsFraction.begins {fraction fs : List Char} (h : SpellsFraction fraction fs)
    (next : ∀ c ∈ rest.head?, Text.isDigit c = false) :
    ∀ c ∈ (fs ++ rest).head?, Text.isDigit c = false := by
  cases h with
  | none => exact next
  | some =>
    rintro _ ⟨⟩
    rfl

theorem SpellsFraction.readFraction {fraction fs : List Char} (h : SpellsFraction fraction fs)
    (next : ∀ c ∈ rest.head?, Text.isDigit c = false ∧ c ≠ '.') :
    Json.readFraction p (fs ++ rest) = .ok (fraction, rest) := by
  cases h with
  | none =>
    rw [List.nil_append]
    unfold Json.readFraction
    split
    · exact absurd rfl (next '.' rfl).2
    · rfl
  | some digits => exact readDigits_append digits fun c hc => (next c hc).1

/-- A number is read as it is spelled. -/
theorem SpellsNumber.readSpelling {n : Spelling} {cs : List Char} (h : SpellsNumber n cs)
    (stop : EndsNumber rest) : Json.readSpelling p (cs ++ rest) = .ok (n, rest) := by
  cases h with
  | @plain whole fraction fs es exponent digits shortest behind scaled =>
    have next := scaled.begins stop
    have wholly := readDigits_append (p := p) digits (behind.begins fun c hc => (next c hc).1)
    simp only [List.append_assoc]
    unfold Json.readSpelling
    split
    rename_i sign
    split at sign
    · exact absurd ‹_› ((digits.unsigned _).1 _)
    · cases sign
      simp only [wholly, shortest, behind.readFraction next, scaled.readExponent stop, if_false,
        bind, Except.bind, pure, Except.pure]
  | minus rest =>
    cases rest with
    | plain digits shortest behind scaled =>
      have next := scaled.begins stop
      have wholly := readDigits_append (p := p) digits (behind.begins fun c hc => (next c hc).1)
      simp only [List.cons_append, List.append_assoc, Json.readSpelling, wholly, shortest,
        behind.readFraction next, scaled.readExponent stop, if_false, bind, Except.bind, pure,
        Except.pure]

theorem SpellsNumber.readNumber {n : Spelling} {cs : List Char} (h : SpellsNumber n cs)
    (stop : EndsNumber rest) (small : p = .keep → n.tooLarge = false) :
    Json.readNumber p (cs ++ rest) = .ok (n.value, rest) := by
  have allowed : ¬ (p = .keep ∧ n.tooLarge = true) := by
    rintro ⟨keep, large⟩
    rw [small keep] at large
    cases large
  simp only [Json.readNumber, h.readSpelling stop, allowed, if_false, bind, Except.bind, pure,
    Except.pure]

/-- An integer is read as it was written. -/
theorem readNumber_writeInt {n : Int} (word : IsWord n) (stop : EndsNumber rest) :
    readNumber p (Text.writeInt n ++ rest) = .ok (.integer n, rest) := by
  obtain ⟨spelling, spelled, value⟩ := spellsNumber_writeInt word
  rw [spelled.readNumber stop fun _ => tooLarge_of_integer value, value]

end Digits

end CorrelatedInput.Json
