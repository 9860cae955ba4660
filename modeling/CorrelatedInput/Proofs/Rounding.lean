import CorrelatedInput.Rounding
import Mathlib.Algebra.Order.Ring.Nat
/-!
How far rounding goes: never beyond a number that needs no rounding, and no further than half a
step. Of two numbers the larger one is never rounded below the smaller one. A multiple of a rounded
quotient is rounded twice; cut off to a whole number it is still at most one away from the exact
one.
-/
namespace CorrelatedInput

theorem nearestEven_le {num den k : Nat} (h : num ≤ k * den) : nearestEven num den ≤ k := by
  have parts := Nat.div_add_mod num den
  have low : num / den ≤ k := Nat.div_le_of_le_mul (by rwa [Nat.mul_comm])
  simp only [nearestEven]
  rcases Nat.lt_or_eq_of_le low with below | reached
  · split
    · exact low
    · split <;> omega
  · -- the quotient is `k` itself, so nothing is left over
    have rest : num % den = 0 := by
      rw [reached, Nat.mul_comm] at parts
      omega
    rw [rest, reached]
    split
    · exact Nat.le_refl k
    · have none : den = 0 := by omega
      have zero : k = 0 := by rw [← reached, none, Nat.div_zero]
      simp [none, zero]

theorem nearestEven_error (num den : Nat) :
    2 * (den * nearestEven num den) ≤ 2 * num + den := by
  have parts := Nat.div_add_mod num den
  have next : den * (num / den + 1) = den * (num / den) + den := Nat.mul_succ _ _
  simp only [nearestEven]
  split
  · omega
  · split
    · omega
    · have odd : num / den + num / den % 2 ≤ num / den + 1 := by omega
      have := Nat.mul_le_mul_left den odd
      omega

theorem le_nearestEven_error {den : Nat} (num : Nat) (positive : 0 < den) :
    2 * num ≤ 2 * (den * nearestEven num den) + den := by
  have parts := Nat.div_add_mod num den
  have rest := Nat.mod_lt num positive
  have next : den * (num / den + 1) = den * (num / den) + den := Nat.mul_succ _ _
  simp only [nearestEven]
  split
  · omega
  · split
    · omega
    · have even := Nat.mul_le_mul_left den (Nat.le_add_right (num / den) (num / den % 2))
      omega

/-- Rounding takes one of the two neighbours. -/
theorem nearestEven_bounds (num den : Nat) :
    num / den ≤ nearestEven num den ∧ nearestEven num den ≤ num / den + 1 := by
  simp only [nearestEven]
  split_ifs <;> omega

theorem nearestEven_mono {m n : Nat} (den : Nat) (h : m ≤ n) :
    nearestEven m den ≤ nearestEven n den := by
  rcases Nat.lt_or_eq_of_le (Nat.div_le_div_right h : m / den ≤ n / den) with less | same
  · have up := (nearestEven_bounds m den).2
    have low := (nearestEven_bounds n den).1
    omega
  · have rest : m % den ≤ n % den := by
      have parts := Nat.div_add_mod m den
      have others := Nat.div_add_mod n den
      rw [same] at parts
      omega
    simp only [nearestEven, same]
    split_ifs <;> omega

/-- Rounding to 53 bits does not go beyond a number of 53 bits. -/
theorem significant_le_of_le {m p scale : Nat} (h : m ≤ p * 2 ^ scale) (few : p < 2 ^ 53) :
    significant m ≤ p * 2 ^ scale := by
  rw [significant, Nat.one_shiftLeft, Nat.shiftLeft_eq]
  by_cases coarse : m.log2 + 1 - 53 ≤ scale
  · have split : 2 ^ scale = 2 ^ (scale - (m.log2 + 1 - 53)) * 2 ^ (m.log2 + 1 - 53) := by
      rw [← Nat.pow_add, Nat.sub_add_cancel coarse]
    rw [split, ← Nat.mul_assoc] at h ⊢
    exact Nat.mul_le_mul_right _ (nearestEven_le h)
  · -- `m` has more than 53 bits above the scale, so it is not below the product
    have positive : m ≠ 0 := by
      rintro rfl
      exact coarse (by simp)
    have bits := Nat.log2_self_le positive
    have wide : 2 ^ (53 + scale) ≤ 2 ^ m.log2 := Nat.pow_le_pow_right (by decide) (by omega)
    have short : p * 2 ^ scale < 2 ^ (53 + scale) := by
      rw [Nat.pow_add]
      exact Nat.mul_lt_mul_of_pos_right few (Nat.two_pow_pos scale)
    omega

/-- A number keeps its highest bit when it is rounded. -/
theorem log2_le_significant {m : Nat} (positive : m ≠ 0) : 2 ^ m.log2 ≤ significant m := by
  rw [significant, Nat.one_shiftLeft, Nat.shiftLeft_eq]
  have split : 2 ^ m.log2 = 2 ^ (m.log2 - (m.log2 + 1 - 53)) * 2 ^ (m.log2 + 1 - 53) := by
    rw [← Nat.pow_add, Nat.sub_add_cancel (by omega)]
  have whole : 2 ^ (m.log2 - (m.log2 + 1 - 53)) ≤ m / 2 ^ (m.log2 + 1 - 53) := by
    rw [Nat.le_div_iff_mul_le (Nat.two_pow_pos _), ← split]
    exact Nat.log2_self_le positive
  rw [split]
  exact Nat.mul_le_mul_right _ (Nat.le_trans whole (nearestEven_bounds _ _).1)

theorem significant_mono {m n : Nat} (h : m ≤ n) : significant m ≤ significant n := by
  rcases Nat.eq_zero_or_pos m with rfl | positive
  · simp [significant, nearestEven]
  · have some : n ≠ 0 := by omega
    have bits : m.log2 ≤ n.log2 := by
      rw [Nat.le_log2 some]
      exact Nat.le_trans (Nat.log2_self_le (Nat.ne_of_gt positive)) h
    rcases Nat.lt_or_eq_of_le bits with shorter | same
    · -- a power of two lies between the two, and neither is rounded beyond it
      have below : m ≤ 1 * 2 ^ (m.log2 + 1) := by
        have := @Nat.lt_log2_self m
        omega
      calc significant m ≤ 1 * 2 ^ (m.log2 + 1) := significant_le_of_le below (by decide)
        _ ≤ 2 ^ n.log2 := by
          rw [Nat.one_mul]
          exact Nat.pow_le_pow_right (by decide) shorter
        _ ≤ significant n := log2_le_significant some
    · simp only [significant, same, Nat.shiftLeft_eq]
      exact Nat.mul_le_mul_right _ (nearestEven_mono _ h)

/-! How far two roundings lead -/

/-- What a number may become by being rounded once to 53 bits. -/
def IsRounded (rounded exact : Nat) : Prop :=
  2 ^ 53 * rounded ≤ (2 ^ 53 + 1) * exact ∧ (2 ^ 53 - 1) * exact ≤ 2 ^ 53 * rounded

theorem IsRounded.mul_left {rounded exact : Nat} (h : IsRounded rounded exact) (k : Nat) :
    IsRounded (k * rounded) (k * exact) := by
  constructor
  · calc 2 ^ 53 * (k * rounded) = k * (2 ^ 53 * rounded) := Nat.mul_left_comm _ _ _
      _ ≤ k * ((2 ^ 53 + 1) * exact) := Nat.mul_le_mul_left k h.1
      _ = (2 ^ 53 + 1) * (k * exact) := Nat.mul_left_comm _ _ _
  · calc (2 ^ 53 - 1) * (k * exact) = k * ((2 ^ 53 - 1) * exact) := Nat.mul_left_comm _ _ _
      _ ≤ k * (2 ^ 53 * rounded) := Nat.mul_le_mul_left k h.2
      _ = 2 ^ 53 * (k * rounded) := Nat.mul_left_comm _ _ _

theorem nearestEven_isRounded {num den : Nat} (positive : 0 < den) (fine : 2 ^ 52 * den ≤ num) :
    IsRounded (den * nearestEven num den) num := by
  have up := nearestEven_error num den
  have low := le_nearestEven_error num positive
  constructor <;> omega

theorem significant_isRounded (m : Nat) : IsRounded (significant m) m := by
  rw [significant, Nat.one_shiftLeft, Nat.shiftLeft_eq, Nat.mul_comm]
  rcases Nat.eq_zero_or_pos (m.log2 + 1 - 53) with none | some
  · -- a number of 53 bits stays as it is
    have whole : nearestEven m 1 = m := by simp [nearestEven, Nat.mod_one]
    rw [none, Nat.pow_zero, whole]
    constructor <;> omega
  · have positive : m ≠ 0 := by
      rintro rfl
      simp at some
    apply nearestEven_isRounded (Nat.two_pow_pos _)
    rw [← Nat.pow_add, (by omega : 52 + (m.log2 + 1 - 53) = m.log2)]
    exact Nat.log2_self_le positive

/-- What two roundings, one after the other, may add up to. -/
theorem IsRounded.twice {x y z : Nat} (h : IsRounded x y) (k : IsRounded y z) :
    2 ^ 106 * x ≤ (2 ^ 53 + 1) ^ 2 * z ∧ (2 ^ 53 - 1) ^ 2 * z ≤ 2 ^ 106 * x := by
  obtain ⟨up, low⟩ := h
  obtain ⟨above, below⟩ := k
  omega

namespace Dyadic

/-- A quotient is taken in steps so small that it has 53 bits. -/
theorem ofQuotient_eq {p q : Nat} (hp : 0 < p) (few : p < 2 ^ 53) (hq : 0 < q) :
    ∃ scale, ofQuotient p q = ⟨nearestEven (p * 2 ^ scale) q, scale⟩ ∧
      2 ^ 52 * q ≤ p * 2 ^ scale := by
  have short : p.log2 < 53 := (Nat.log2_lt (Nat.ne_of_gt hp)).mpr few
  have low := Nat.log2_self_le (Nat.ne_of_gt hp)
  have high : q < 2 ^ (q.log2 + 1) := Nat.lt_log2_self
  simp only [ofQuotient, Nat.ne_of_gt hp, if_false, Nat.shiftLeft_eq, Nat.one_mul]
  refine ⟨_, rfl, ?_⟩
  split
  · calc 2 ^ 52 * q ≤ 2 ^ 52 * 2 ^ (q.log2 + 1) := Nat.mul_le_mul_left _ (Nat.le_of_lt high)
      _ = 2 ^ p.log2 * 2 ^ (53 + q.log2 - p.log2) := by
        rw [← Nat.pow_add, ← Nat.pow_add]
        congr 1
        omega
      _ ≤ p * 2 ^ (53 + q.log2 - p.log2) := Nat.mul_le_mul_right _ low
  · rename_i large
    have whole : 2 ^ 53 * q ≤ p * 2 ^ (53 + q.log2 - p.log2) :=
      (Nat.le_div_iff_mul_le hq).mp (Nat.le_of_not_lt large)
    have half : 2 ^ (53 + q.log2 - p.log2) = 2 * 2 ^ (53 + q.log2 - p.log2 - 1) := by
      rw [← Nat.pow_succ']
      congr 1
      omega
    rw [half, Nat.mul_left_comm] at whole
    omega

/-- Fewer steps than there are do not lead beyond the end. -/
theorem floor_scaleBy_ofQuotient_le {p q i : Nat} (few : p < 2 ^ 53) (inner : i < q)
    (steps : q ≤ 2 ^ 32) : ((ofQuotient p q).scaleBy i).floor ≤ p := by
  rcases Nat.eq_zero_or_pos p with rfl | hp
  · simp [ofQuotient, scaleBy, floor, significant, nearestEven]
  · obtain ⟨scale, quotient, fine⟩ := ofQuotient_eq hp few (Nat.zero_lt_of_lt inner)
    have error := nearestEven_error (p * 2 ^ scale) q
    rw [quotient]
    generalize nearestEven (p * 2 ^ scale) q = coefficient at error ⊢
    have exact_le : coefficient * i ≤ p * 2 ^ scale := by
      generalize p * 2 ^ scale = whole at error fine ⊢
      have steps_le : q * i ≤ 2 * whole := by
        have : q * i ≤ q * 2 ^ 32 := Nat.mul_le_mul_left q (by omega)
        omega
      have scaled : 2 * (q * (coefficient * i)) ≤ 2 * (q * whole) := by
        calc 2 * (q * (coefficient * i)) = 2 * (q * coefficient) * i := by ac_rfl
          _ ≤ (2 * whole + q) * i := Nat.mul_le_mul_right i error
          _ = 2 * (whole * i) + q * i := by rw [Nat.add_mul, Nat.mul_assoc]
          _ ≤ 2 * (whole * i) + 2 * whole := Nat.add_le_add_left steps_le _
          _ = 2 * (whole * (i + 1)) := by rw [Nat.mul_succ, Nat.mul_add]
          _ ≤ 2 * (whole * q) := Nat.mul_le_mul_left 2 (Nat.mul_le_mul_left whole inner)
          _ = 2 * (q * whole) := by rw [Nat.mul_comm whole q]
      exact Nat.le_of_mul_le_mul_left (by omega) (Nat.zero_lt_of_lt inner)
    have rounded := significant_le_of_le exact_le few
    simp only [scaleBy, floor, Nat.shiftRight_eq_div_pow]
    exact Nat.div_le_of_le_mul (Nat.mul_comm p _ ▸ rounded)

theorem floor_scaleBy_mono (x : Dyadic) {i j : Nat} (h : i ≤ j) :
    (x.scaleBy i).floor ≤ (x.scaleBy j).floor := by
  simp only [scaleBy, floor, Nat.shiftRight_eq_div_pow]
  exact Nat.div_le_div_right (significant_mono (Nat.mul_le_mul_left _ h))

theorem floor_bounds (x : Dyadic) :
    x.floor * 2 ^ x.scale ≤ x.coefficient ∧ x.coefficient < (x.floor + 1) * 2 ^ x.scale := by
  rw [floor, Nat.shiftRight_eq_div_pow, Nat.succ_mul]
  exact ⟨Nat.div_mul_le_self _ _, Nat.lt_div_mul_add (Nat.two_pow_pos _)⟩

/-- How far a multiple of a rounded quotient may be from the exact one. It is rounded twice, and
then cut off to a whole number. -/
theorem floor_scaleBy_ofQuotient_bounds {p q : Nat} (few : p < 2 ^ 53) (hq : 0 < q) (i : Nat) :
    let position := ((ofQuotient p q).scaleBy i).floor
    2 ^ 106 * (q * position) ≤ (2 ^ 53 + 1) ^ 2 * (p * i) ∧
      (2 ^ 53 - 1) ^ 2 * (p * i) < 2 ^ 106 * (q * (position + 1)) := by
  intro position
  rcases Nat.eq_zero_or_pos p with rfl | hp
  · have start : position = 0 := by
      simp [position, ofQuotient, scaleBy, floor, significant, nearestEven]
    rw [start]
    omega
  · obtain ⟨scale, quotient, fine⟩ := ofQuotient_eq hp few hq
    have once := (nearestEven_isRounded hq fine).mul_left i
    rw [Nat.mul_comm i (q * _), Nat.mul_comm i (p * _), Nat.mul_right_comm p] at once
    have again := (significant_isRounded (nearestEven (p * 2 ^ scale) q * i)).mul_left q
    rw [← Nat.mul_assoc] at again
    obtain ⟨up, low⟩ := again.twice once
    obtain ⟨below, above⟩ := floor_bounds ((ofQuotient p q).scaleBy i)
    change position * _ ≤ _ at below
    change _ < (position + 1) * _ at above
    simp only [quotient, scaleBy] at below above
    have room := Nat.two_pow_pos scale
    constructor
    · apply Nat.le_of_mul_le_mul_right _ room
      rw [Nat.mul_assoc (2 ^ 106), Nat.mul_assoc q, Nat.mul_assoc _ (p * i)]
      refine Nat.le_trans ?_ up
      exact Nat.mul_le_mul_left _ (Nat.mul_le_mul_left q below)
    · apply Nat.lt_of_mul_lt_mul_right (a := 2 ^ scale)
      rw [Nat.mul_assoc (2 ^ 106), Nat.mul_assoc q, Nat.mul_assoc _ (p * i)]
      refine Nat.lt_of_le_of_lt low ?_
      apply Nat.mul_lt_mul_of_pos_left _ (by decide)
      exact Nat.mul_lt_mul_of_pos_left above hq

theorem floor_scaleBy_ofQuotient_near {p q i : Nat} (word : p ≤ 2 ^ 31) (inner : i < q) :
    ((ofQuotient p q).scaleBy i).floor ≤ p * i / q + 1 ∧
      p * i / q ≤ ((ofQuotient p q).scaleBy i).floor + 1 := by
  have hq := Nat.zero_lt_of_lt inner
  obtain ⟨up, low⟩ := floor_scaleBy_ofQuotient_bounds (p := p) (by omega) hq i
  generalize ((ofQuotient p q).scaleBy i).floor = position at up low ⊢
  have few : p * i < 2 ^ 31 * q := by
    calc p * i ≤ 2 ^ 31 * i := Nat.mul_le_mul_right i word
      _ < 2 ^ 31 * q := Nat.mul_lt_mul_of_pos_left inner (by decide)
  have below := Nat.mul_div_le (p * i) q
  have above := Nat.lt_mul_div_succ (p * i) hq
  rw [Nat.mul_succ] at above low
  constructor
  · by_contra far
    have further := Nat.mul_le_mul_left q (Nat.lt_of_not_le far)
    rw [Nat.mul_succ, Nat.mul_succ] at further
    omega
  · by_contra far
    have further := Nat.mul_le_mul_left q (Nat.lt_of_not_le far)
    rw [Nat.mul_succ, Nat.mul_succ] at further
    omega

/-- As long as one part in `q` is more than the roundings can add up to, they make no difference to
a product that is not whole, and at most let a whole one appear to be a little less. -/
theorem floor_scaleBy_ofQuotient_exact {p q i : Nat} (short : p * q ≤ 2 ^ 51) (inner : i < q) :
    ((ofQuotient p q).scaleBy i).floor = p * i / q ∨
      (q ∣ p * i ∧ ((ofQuotient p q).scaleBy i).floor + 1 = p * i / q) := by
  have hq := Nat.zero_lt_of_lt inner
  have word : p ≤ 2 ^ 51 := Nat.le_trans (Nat.le_mul_of_pos_right p hq) short
  obtain ⟨up, low⟩ := floor_scaleBy_ofQuotient_bounds (p := p) (by omega) hq i
  generalize ((ofQuotient p q).scaleBy i).floor = position at up low ⊢
  have few : p * i ≤ 2 ^ 51 := Nat.le_trans (Nat.mul_le_mul_left p (Nat.le_of_lt inner)) short
  have whole := Nat.mul_div_le (p * i) q
  have covered : q * position ≤ p * i := by omega
  have reached : p * i ≤ q * (position + 1) := by omega
  have least : position ≤ p * i / q := by
    rw [Nat.le_div_iff_mul_le hq, Nat.mul_comm]
    exact covered
  rcases Nat.eq_or_lt_of_le least with same | next
  · exact .inl same
  · have exact : q * (position + 1) = p * i :=
      Nat.le_antisymm (Nat.le_trans (Nat.mul_le_mul_left q next) whole) reached
    refine .inr ⟨⟨position + 1, exact.symm⟩, ?_⟩
    rw [← exact, Nat.mul_div_cancel_left _ hq]

end Dyadic

end CorrelatedInput
