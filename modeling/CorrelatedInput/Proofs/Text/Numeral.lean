import CorrelatedInput.Text.Numeral
/-!
Decimal numerals: what is written consists of digits, has no needless zero in front, and gives the
number back.
-/
namespace CorrelatedInput.Text

theorem isDigit_of_mem_writeNat {n : Nat} {c : Char} (h : c ∈ writeNat n) : isDigit c = true := by
  have digit := Nat.isDigit_of_mem_toDigits (by decide : 0 < 10) (Nat.le_refl 10) h
  simpa [isDigit, Char.isDigit, Char.le_def] using digit

theorem writeNat_ne_nil (n : Nat) : writeNat n ≠ [] := Nat.toDigits_ne_nil

@[simp] theorem ofDigits_writeNat (n : Nat) : ofDigits (writeNat n) = n :=
  Nat.ofDigitChars_ten_toDigits

theorem writeNat_head {n : Nat} (counts : 0 < n) : (writeNat n).head? ≠ some '0' := by
  induction n using Nat.strongRecOn with
  | ind n ih =>
    by_cases small : n < 10
    · have digit : ∀ d < 10, 0 < d → [Nat.digitChar d].head? ≠ some '0' := by decide
      rw [writeNat, Nat.toDigits_of_lt_base small]
      exact digit n small counts
    · have front : writeNat n = writeNat (n / 10) ++ [(n % 10).digitChar] :=
        Nat.toDigits_of_base_le (by decide) (by omega)
      rw [front, List.head?_append, Option.or_of_isSome]
      · exact ih (n / 10) (by omega) (by omega)
      · simpa [List.isSome_head?] using writeNat_ne_nil (n / 10)

theorem writeNat_canonical (n : Nat) :
    ¬ ((writeNat n).head? = some '0' ∧ 1 < (writeNat n).length) := by
  rintro ⟨zero, several⟩
  rcases Nat.eq_zero_or_pos n with rfl | counts
  · exact absurd several (by decide)
  · exact writeNat_head counts zero

theorem readNat?_writeNat (n : Nat) : readNat? (writeNat n) = some n := by
  have digits : (writeNat n).all isDigit = true :=
    List.all_eq_true.mpr fun _ hc => isDigit_of_mem_writeNat hc
  rw [readNat?, if_pos ⟨writeNat_ne_nil n, digits⟩, ofDigits_writeNat]

theorem readInt?_writeInt (n : Int) : readInt? (writeInt n) = some n := by
  cases n with
  | negSucc m =>
    rw [writeInt, readInt?, readNat?_writeNat]
    rfl
  | ofNat m =>
    have back := readNat?_writeNat m
    obtain ⟨d, ds, digits⟩ := List.exists_cons_of_ne_nil (writeNat_ne_nil m)
    have digit : isDigit d = true := isDigit_of_mem_writeNat (digits ▸ List.mem_cons_self)
    rw [writeInt]
    rw [digits] at back ⊢
    unfold readInt?
    -- neither sign is a digit
    split
    · rename_i sign
      cases sign
      exact absurd digit (by decide)
    · rename_i sign
      cases sign
      exact absurd digit (by decide)
    · rw [back]
      rfl

theorem mem_writeInt {n : Int} {c : Char} (h : c ∈ writeInt n) : c = '-' ∨ isDigit c = true := by
  cases n with
  | ofNat m => exact .inr (isDigit_of_mem_writeNat h)
  | negSucc m =>
    rcases List.mem_cons.mp h with rfl | digit
    · exact .inl rfl
    · exact .inr (isDigit_of_mem_writeNat digit)

/-- The first character tells a negative number from others, and after it there is a digit. -/
theorem writeInt_begins (n : Int) :
    (n < 0 ∧ ∃ d ds, isDigit d = true ∧ writeInt n = '-' :: d :: ds) ∨
      (0 ≤ n ∧ ∃ d ds, isDigit d = true ∧ writeInt n = d :: ds) := by
  have begins (m : Nat) : ∃ d ds, isDigit d = true ∧ writeNat m = d :: ds := by
    obtain ⟨d, ds, digits⟩ := List.exists_cons_of_ne_nil (writeNat_ne_nil m)
    exact ⟨d, ds, isDigit_of_mem_writeNat (digits ▸ List.mem_cons_self), digits⟩
  cases n with
  | ofNat m => exact .inr ⟨Int.natCast_nonneg m, begins m⟩
  | negSucc m =>
    obtain ⟨d, ds, digit, digits⟩ := begins (m + 1)
    exact .inl ⟨Int.negSucc_lt_zero m, d, ds, digit, by rw [writeInt, digits]⟩

end CorrelatedInput.Text
