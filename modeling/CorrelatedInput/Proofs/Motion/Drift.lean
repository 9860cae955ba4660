import CorrelatedInput.Proofs.Motion.Interpolation
/-!
The positions of a leg against exact arithmetic. The steps of a leg are rounded, and so is every
multiple of them, but the errors do not add up: each position lies within a pixel of where it should
be. On a leg whose distance and number of steps are not both large, a position is at most behind,
and only where it should be a whole number of pixels away.
-/
namespace CorrelatedInput.Motion

section Axis

variable {distance : Int} {steps i : Nat} {a b : Int32}

/-- How far along an axis the `i`-th of `steps` positions should lie, cut towards zero. -/
def exactReach (distance : Int) (steps i : Nat) : Int := (distance * i).tdiv steps

theorem natAbs_towards (direction : Int) (magnitude : Nat) :
    (towards direction magnitude).natAbs = magnitude := by
  unfold towards
  split <;> simp

theorem exactReach_eq (distance : Int) (steps i : Nat) :
    exactReach distance steps i = towards distance (distance.natAbs * i / steps) := by
  unfold exactReach towards
  rcases Int.lt_or_le distance 0 with back | forth
  · have size : distance = -(distance.natAbs : Int) := by omega
    rw [if_pos back]
    conv_lhs => rw [size]
    rw [Int.neg_mul, Int.neg_tdiv]
    rfl
  · have size : distance = distance.natAbs := by omega
    rw [if_neg (by omega)]
    conv_lhs => rw [size]
    rfl

theorem reach_near (word : FitsInt32 distance) (inner : i < steps) :
    (reach distance steps i - exactReach distance steps i).natAbs ≤ 1 := by
  obtain ⟨low, high⟩ := word
  obtain ⟨up, down⟩ := Dyadic.floor_scaleBy_ofQuotient_near (p := distance.natAbs) (by omega) inner
  rw [exactReach_eq]
  unfold reach towards
  split <;> omega

theorem reach_exact (short : distance.natAbs * steps ≤ 2 ^ 51) (inner : i < steps) :
    reach distance steps i = exactReach distance steps i ∨
      ((steps : Int) ∣ distance * i ∧ distance * i ≠ 0 ∧
        reach distance steps i + distance.sign = exactReach distance steps i) := by
  rw [exactReach_eq]
  unfold reach
  rcases Dyadic.floor_scaleBy_ofQuotient_exact short inner with same | ⟨whole, behind⟩
  · exact .inl (by rw [same])
  · have some : distance.natAbs * i ≠ 0 := by
      intro none
      simp [none] at behind
    refine .inr ⟨?_, ?_, ?_⟩
    · rw [Int.natCast_dvd, Int.natAbs_mul, Int.natAbs_natCast]
      exact whole
    · intro none
      rw [← Int.natAbs_eq_zero, Int.natAbs_mul, Int.natAbs_natCast] at none
      exact some none
    · rw [← behind]
      unfold towards
      rcases Int.lt_trichotomy distance 0 with back | rfl | forth
      · rw [if_pos back, if_pos back, Int.sign_eq_neg_one_of_neg back]
        omega
      · simp at some
      · rw [if_neg (by omega), if_neg (by omega), Int.sign_eq_one_of_pos forth]
        omega

/-- On a leg that is not too long no position is too far ahead. -/
theorem reach_within (short : distance.natAbs * steps ≤ 2 ^ 51) (inner : i < steps) :
    (reach distance steps i).natAbs ≤ (exactReach distance steps i).natAbs := by
  rw [exactReach_eq]
  unfold reach
  rw [natAbs_towards, natAbs_towards]
  rcases Dyadic.floor_scaleBy_ofQuotient_exact short inner with same | ⟨_, behind⟩ <;> omega

/-- The position is the `i`-th on its way, up to one pixel. If the way is not too long, it is not
too far from the start; it is too near only by one pixel, and only where no division cuts anything
off. -/
structure Steady (start distance : Int) (steps i : Nat) (position : Int) : Prop where
  near : (position - (start + exactReach distance steps i)).natAbs ≤ 1
  within : distance.natAbs * steps ≤ 2 ^ 51 →
    (position - start).natAbs ≤ (exactReach distance steps i).natAbs
  behind : distance.natAbs * steps ≤ 2 ^ 51 → position ≠ start + exactReach distance steps i →
    (steps : Int) ∣ distance * i ∧ distance * i ≠ 0 ∧
      position + distance.sign = start + exactReach distance steps i

theorem along_steady (fits : FitsInt32 (b.toInt - a.toInt)) (inner : i < steps)
    (few : steps ≤ 2 ^ 32) :
    Steady a.toInt (b.toInt - a.toInt) steps i (along a b steps i).toInt := by
  have place := (exact_of_fits fits inner few).along_toInt
  constructor
  · rw [place, Int.add_sub_add_left]
    exact reach_near fits inner
  · intro short
    rw [place, Int.add_comm, Int.add_sub_cancel]
    exact reach_within short inner
  · intro short off
    rw [place] at off ⊢
    rcases reach_exact short inner with same | ⟨whole, some, behind⟩
    · exact absurd (congrArg (a.toInt + ·) same) off
    · exact ⟨whole, some, by rw [Int.add_assoc, behind]⟩

end Axis

/-- A leg does not drift. Every position on its way is, along each axis, within a pixel of where
exact arithmetic puts it; and while distance times steps does not exceed `2 ^ 51`, it is never
farther from the start than that, and nearer, by one pixel, only where exact arithmetic cuts nothing
off and does not stay at the start. -/
theorem interpolate_steady (start finish : Coordinate) (fits : LegFits start finish)
    (steps : UInt32) :
    ∃ places, interpolate start finish steps = .ok places ∧
      ∀ i, 1 ≤ i → i < steps.toNat → ∃ p, places[i - 1]? = some p ∧
        Steady start.x.toInt (finish.x.toInt - start.x.toInt) steps.toNat i p.x.toInt ∧
        Steady start.y.toInt (finish.y.toInt - start.y.toInt) steps.toNat i p.y.toInt := by
  refine ⟨_, interpolate_ok fits steps, ?_⟩
  intro i first inner
  have several : max steps.toNat 1 = steps.toNat := by omega
  have few := steps_le steps
  rw [several] at few ⊢
  have found : (positions start finish steps.toNat)[i - 1]? =
      some (place start finish steps.toNat i) := by
    have early : i - 1 < steps.toNat - 1 := by omega
    have index : 1 + (i - 1) = i := by omega
    simp [positions, List.getElem?_append, early, index]
  exact ⟨_, found, along_steady fits.1 inner few, along_steady fits.2 inner few⟩

/-- Half way to the 58th pixel a step of 0.29, as near as it can be said, leads to 28 and not to 29,
whatever the direction. -/
theorem interpolate_steady_half_way :
    let finish : Coordinate := ⟨58, -58⟩
    exactReach 58 200 100 = 29 ∧ ∃ places, interpolate ⟨0, 0⟩ finish 200 = .ok places ∧
      places[99]? = some ⟨28, -28⟩ ∧ Steady 0 58 200 100 28 ∧ Steady 0 (-58) 200 100 (-28) := by
  intro finish
  obtain ⟨places, found, steady⟩ := interpolate_steady ⟨0, 0⟩ finish (by decide) 200
  obtain ⟨p, there, across, down⟩ := steady 100 (by decide) (by decide)
  have known : (interpolate ⟨0, 0⟩ finish 200).toOption.bind (·[99]?) = some ⟨28, -28⟩ := by
    decide +kernel
  rw [found] at known
  have same : p = ⟨28, -28⟩ := Option.some.inj (there.symm.trans known)
  subst same
  exact ⟨by decide, places, found, known, across, down⟩

/-! A long leg in many steps may run ahead. -/

example : reach 2147483647 1073741823 1073741822 =
    exactReach 2147483647 1073741823 1073741822 + 1 := by decide +kernel

end CorrelatedInput.Motion
