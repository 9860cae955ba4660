import CorrelatedInput.Proofs.Motion.Interpolation
import CorrelatedInput.Terminal.Program
/-!
Two fingers that pinch. The path of one is the mirror image of the other's, because a distance and
its opposite are rounded alike, and so the fingers come closer, or move apart, without ever turning
back or meeting.
-/
namespace CorrelatedInput

theorem narrow_eq_ok_iff {n : Int} {cause : Overflow} {w : Int32} :
    narrow cause n = .ok w ↔ FitsInt32 n ∧ Int32.ofInt n = w := by
  unfold narrow
  split <;> simp [*]

namespace Motion

theorem interpolate_eq_ok_iff {start finish : Coordinate} {steps : UInt32}
    {places : List Coordinate} : interpolate start finish steps = .ok places ↔
      LegFits start finish ∧ positions start finish (max steps.toNat 1) = places := by
  by_cases fits : LegFits start finish
  · simp [interpolate_ok fits, fits]
  · simp [interpolate_error fits, fits]

/-- A leg with its start. -/
def course (start finish : Coordinate) (steps : Nat) : List Coordinate :=
  start :: positions start finish steps

section Mirror

variable {steps i : Nat} {t : Int} {a b a' b' : Int32}

theorem reach_none (steps i : Nat) : reach 0 steps i = 0 := by
  simp [reach, towards, Dyadic.ofQuotient, Dyadic.scaleBy, Dyadic.floor, significant, nearestEven]

theorem reach_neg (distance : Int) (steps i : Nat) :
    reach (-distance) steps i = -reach distance steps i := by
  rcases Int.lt_trichotomy distance 0 with back | rfl | forth
  · simp only [reach, Int.natAbs_neg, towards]
    rw [if_neg (by omega), if_pos back, Int.neg_neg]
  · rw [Int.neg_zero, reach_none]
    rfl
  · simp only [reach, Int.natAbs_neg, towards]
    rw [if_pos (by omega), if_neg (by omega)]

theorem along_self (a : Int32) (steps i : Nat) : along a a steps i = a := by
  simp [along, reach_none]

/-- Between ends that are mirrored every position is mirrored. -/
theorem along_mirrored (start : a.toInt + a'.toInt = t) (finish : b.toInt + b'.toInt = t)
    (fits : FitsInt32 (b.toInt - a.toInt)) (fits' : FitsInt32 (b'.toInt - a'.toInt))
    (inner : i < steps) (few : steps ≤ 2 ^ 32) :
    (along a b steps i).toInt + (along a' b' steps i).toInt = t := by
  have opposite : b'.toInt - a'.toInt = -(b.toInt - a.toInt) := by omega
  rw [(exact_of_fits fits inner few).along_toInt, (exact_of_fits fits' inner few).along_toInt,
    opposite, reach_neg]
  omega

end Mirror

section Course

variable {start finish start' finish' : Coordinate} {steps : Nat} {t : Int}

theorem course_length (start finish : Coordinate) (some : 0 < steps) :
    (course start finish steps).length = steps + 1 := by
  rw [course, List.length_cons, positions_length _ _ some]

theorem course_last (start finish : Coordinate) (steps : Nat) :
    (course start finish steps).getLast? = some finish := by
  rw [course, positions, ← List.cons_append, List.getLast?_concat]

theorem course_level (level : start.y = finish.y) :
    ∀ p ∈ course start finish steps, p.y = finish.y := by
  intro p hp
  rcases List.mem_cons.mp hp with rfl | later
  · exact level
  rcases List.mem_append.mp later with inside | last
  · obtain ⟨i, _, rfl⟩ := List.mem_map.mp inside
    simp only [place, level, along_self]
  · rw [List.mem_singleton.mp last]

theorem course_mirrored (starts : start.x.toInt + start'.x.toInt = t)
    (finishes : finish.x.toInt + finish'.x.toInt = t) (fits : LegFits start finish)
    (fits' : LegFits start' finish') (few : steps ≤ 2 ^ 32) :
    List.Forall₂ (fun p q => p.x.toInt + q.x.toInt = t)
      (course start finish steps) (course start' finish' steps) := by
  refine .cons starts (List.rel_append ?_ (.cons finishes .nil))
  rw [List.forall₂_map_left_iff, List.forall₂_map_right_iff, List.forall₂_same]
  intro i hi
  obtain ⟨_, inner⟩ := List.mem_range'_1.mp hi
  exact along_mirrored starts finishes fits.1 fits'.1 (by omega) few

theorem course_x (start finish : Coordinate) (steps : Nat) :
    (course start finish steps).map Coordinate.x = start.x ::
      ((List.range' 1 (steps - 1)).map (along start.x finish.x steps) ++ [finish.x]) := by
  simp [course, positions, place, Function.comp_def]

/-- The positions lead one way only, and none lies left of both ends. -/
theorem course_onward (fits : LegFits start finish) (some : 0 < steps) (few : steps ≤ 2 ^ 32) :
    (start.x.toInt ≤ finish.x.toInt →
      (course start finish steps).Pairwise fun p q => p.x.toInt ≤ q.x.toInt) ∧
    (finish.x.toInt ≤ start.x.toInt →
      (course start finish steps).Pairwise fun p q => q.x.toInt ≤ p.x.toInt) ∧
    ∀ p ∈ course start finish steps, min start.x.toInt finish.x.toInt ≤ p.x.toInt := by
  obtain ⟨rises, falls, between⟩ := along_onward fits.1 some few
  simp only [← course_x, List.pairwise_map, Int32.le_iff_toInt_le] at rises falls
  refine ⟨rises, falls, ?_⟩
  intro p hp
  have place := List.mem_map_of_mem (f := Coordinate.x) hp
  rw [course_x] at place
  rcases List.mem_cons.mp place with here | later
  · rw [here]
    exact Int.min_le_left _ _
  · have inside := between p.x later
    simp only [Int32.le_iff_toInt_le] at inside
    omega

end Course

end Motion

namespace Terminal

open Motion

/-- How far from the center the fingers are where they are closest. -/
def closest (span : Int32) : Int := max (span.toInt.tdiv 10) 1

/-- How far from the center the fingers are at the near or at the far end of their paths. -/
def radius (span : Int32) (near : Bool) : Int := if near then closest span else span.toInt

/-- The point of the center's line that lies so far to its right. -/
def beside (center : Coordinate) (away : Int) : Coordinate :=
  ⟨Int32.ofInt (center.x.toInt + away), center.y⟩

/-- The path of the finger that lies in a direction. -/
def finger (center : Coordinate) (span : Int32) (steps : UInt32) (outwards : Bool)
    (direction : Int) : List Coordinate :=
  course (beside center (direction * radius span outwards))
    (beside center (direction * radius span !outwards)) (max (steps.toNat - 1) 1)

/-- No operation overflows on the path of the finger that lies in a direction. -/
structure FingerFits (center : Coordinate) (span : Int32) (outwards : Bool) (direction : Int) :
    Prop where
  away : ∀ near, FitsInt32 (direction * radius span near)
  ends : ∀ near, FitsInt32 (center.x.toInt + direction * radius span near)
  leg : FitsInt32 (direction * radius span (!outwards) - direction * radius span outwards)

/-- No operation overflows: neither the span taken to the left, nor an end of a path, nor a distance
between two ends. -/
structure PinchFits (center : Coordinate) (span : Int32) : Prop where
  opposite : FitsInt32 (-span.toInt)
  farLeft : FitsInt32 (center.x.toInt - span.toInt)
  farRight : FitsInt32 (center.x.toInt + span.toInt)
  nearLeft : FitsInt32 (center.x.toInt - closest span)
  nearRight : FitsInt32 (center.x.toInt + closest span)
  inwards : FitsInt32 (closest span - span.toInt)
  outwards : FitsInt32 (span.toInt - closest span)

section Finger

variable {center : Coordinate} {span : Int32} {steps : UInt32} {outwards : Bool}

theorem closest_eq (span : Int32) :
    (if span / 10 < 1 then 1 else span / 10).toInt = closest span := by
  have tenth : (span / 10).toInt = span.toInt.tdiv 10 :=
    Int32.toInt_div_of_ne_right _ _ (by decide)
  have one : (1 : Int32).toInt = 1 := rfl
  unfold closest
  split <;> rename_i small <;> rw [Int32.lt_iff_toInt_lt] at small <;> omega

theorem closest_of_pos (some : 1 ≤ span.toInt) :
    closest span = max (span.toInt / 10) 1 ∧ closest span ≤ span.toInt := by
  unfold closest
  rw [Int.tdiv_eq_ediv_of_nonneg (by omega)]
  omega

theorem closest_bounds (span : Int32) : 1 ≤ closest span ∧ closest span ≤ 214748364 := by
  have low := span.le_toInt
  have high := span.toInt_lt
  have tenth : (span.toInt.tdiv 10).natAbs = span.toInt.natAbs / 10 := Int.natAbs_tdiv _ _
  unfold closest
  omega

theorem beside_toInt {away : Int} (fits : FitsInt32 (center.x.toInt + away)) :
    (beside center away).x.toInt = center.x.toInt + away := toInt_ofInt_of_fits fits

theorem legFits_beside_iff {a b : Int} (fits : FitsInt32 (center.x.toInt + a))
    (fits' : FitsInt32 (center.x.toInt + b)) :
    LegFits (beside center a) (beside center b) ↔ FitsInt32 (b - a) := by
  have across : center.x.toInt + b - (center.x.toInt + a) = b - a := by omega
  have level : FitsInt32 ((beside center b).y.toInt - (beside center a).y.toInt) := by
    change FitsInt32 (center.y.toInt - center.y.toInt)
    rw [Int.sub_self]
    decide
  rw [LegFits, beside_toInt fits, beside_toInt fits', across]
  exact and_iff_left level

theorem FingerFits.legFits {direction : Int}
    (fits : FingerFits center span outwards direction) :
    LegFits (beside center (direction * radius span outwards))
      (beside center (direction * radius span !outwards)) :=
  (legFits_beside_iff (fits.ends outwards) (fits.ends !outwards)).mpr fits.leg

theorem fingerPath_eq_ok_iff {direction : Int32} {path : List Coordinate} :
    fingerPath center span steps outwards direction = .ok path ↔
      FingerFits center span outwards direction.toInt ∧
        finger center span steps outwards direction.toInt = path := by
  have count : (UInt32.ofNat (steps.toNat - 1)).toNat = steps.toNat - 1 :=
    UInt32.toNat_ofNat_of_lt (Nat.lt_of_le_of_lt (Nat.sub_le _ _) steps.toNat_lt)
  simp only [fingerPath, plus, times, bind_eq_ok_iff, narrow_eq_ok_iff, interpolate_eq_ok_iff,
    closest_eq, count]
  constructor
  · rintro ⟨_, ⟨away, rfl⟩, _, ⟨far, rfl⟩, _, ⟨close, rfl⟩, _, ⟨near, rfl⟩, _, ⟨leg, rfl⟩, made⟩
    rw [toInt_ofInt_of_fits away] at far leg made
    rw [toInt_ofInt_of_fits close] at near leg made
    refine ⟨⟨Bool.forall_bool.mpr ⟨away, close⟩, Bool.forall_bool.mpr ⟨far, near⟩, ?_⟩, ?_⟩
    · cases outwards
      · exact (legFits_beside_iff far near).mp leg
      · exact (legFits_beside_iff near far).mp leg
    · cases outwards <;> exact Except.ok.inj made
  · rintro ⟨fits, rfl⟩
    obtain ⟨away, close⟩ := Bool.forall_bool.mp fits.away
    obtain ⟨far, near⟩ := Bool.forall_bool.mp fits.ends
    have leg := fits.legFits
    simp only [radius, Bool.false_eq_true, if_true, if_false] at away close far near
    refine ⟨_, ⟨away, rfl⟩, _, ⟨?_, rfl⟩, _, ⟨close, rfl⟩, _, ⟨?_, rfl⟩, _, ⟨?_, rfl⟩, ?_⟩
    all_goals simp only [toInt_ofInt_of_fits away, toInt_ofInt_of_fits close]
    · exact far
    · exact near
    · cases outwards <;> exact leg
    · cases outwards <;> rfl

/-- Both fingers are on their way or neither is, whichever way they move. -/
theorem pinchFits_iff (outwards : Bool) : PinchFits center span ↔
    FingerFits center span outwards (-1) ∧ FingerFits center span outwards 1 := by
  obtain ⟨some, few⟩ := closest_bounds span
  have word := fits_toInt span
  constructor
  · rintro ⟨opposite, farLeft, farRight, nearLeft, nearRight, apart, together⟩
    constructor <;> constructor <;> cases outwards <;> simp [radius, FitsInt32] at * <;> omega
  · rintro ⟨⟨away, ends, leg⟩, ⟨_, ends', leg'⟩⟩
    constructor <;> cases outwards <;> simp [radius, FitsInt32] at * <;> omega

theorem pinchPaths_eq_ok_iff {paths : List (List Coordinate)} :
    pinchPaths center span steps outwards = .ok paths ↔ PinchFits center span ∧
      [finger center span steps outwards (-1), finger center span steps outwards 1] = paths := by
  simp only [pinchPaths, bind_eq_ok_iff, fingerPath_eq_ok_iff, pinchFits_iff outwards]
  constructor
  · rintro ⟨_, ⟨left, rfl⟩, _, ⟨right, rfl⟩, made⟩
    exact ⟨⟨left, right⟩, Except.ok.inj made⟩
  · rintro ⟨⟨left, right⟩, rfl⟩
    exact ⟨_, ⟨left, rfl⟩, _, ⟨right, rfl⟩, rfl⟩

end Finger

/-- Two paths that mirror each other at the center, point by point. -/
structure Mirrored (center : Coordinate) (count : Nat) (left right : List Coordinate) : Prop where
  left_length : left.length = count
  right_length : right.length = count
  left_level : ∀ p ∈ left, p.y = center.y
  right_level : ∀ p ∈ right, p.y = center.y
  opposite : List.Forall₂ (fun p q => p.x.toInt + q.x.toInt = 2 * center.x.toInt) left right

/-- How far to the right of the center the points of a path lie. -/
def away (center : Coordinate) (path : List Coordinate) : List Int :=
  path.map fun p => p.x.toInt - center.x.toInt

/-- How far the second finger is to the right of the first one, from point to point. -/
def distances (left right : List Coordinate) : List Int :=
  List.zipWith (fun p q => q.x.toInt - p.x.toInt) left right

section Pinch

variable {center : Coordinate} {span : Int32}

theorem distances_eq {left right : List Coordinate} {x : Int}
    (opposite : List.Forall₂ (fun p q => p.x.toInt + q.x.toInt = 2 * x) left right) :
    distances left right = right.map fun q => 2 * (q.x.toInt - x) := by
  induction opposite with
  | nil => rfl
  | cons here _ ih =>
    rw [distances, List.zipWith_cons_cons, ← distances, ih, List.map_cons]
    congr 1
    omega

theorem few_steps (steps : UInt32) : max (steps.toNat - 1) 1 ≤ 2 ^ 32 := by
  have := steps.toNat_lt
  omega

theorem finger_length (center : Coordinate) (span : Int32) (steps : UInt32) (outwards : Bool)
    (direction : Int) :
    (finger center span steps outwards direction).length = max steps.toNat 2 := by
  rw [finger, course_length _ _ (by omega)]
  omega

theorem finger_head (center : Coordinate) (span : Int32) (steps : UInt32) (outwards : Bool)
    (direction : Int) : (finger center span steps outwards direction).head? =
      some (beside center (direction * radius span outwards)) := rfl

theorem finger_last (center : Coordinate) (span : Int32) (steps : UInt32) (outwards : Bool)
    (direction : Int) : (finger center span steps outwards direction).getLast? =
      some (beside center (direction * radius span !outwards)) := course_last ..

theorem finger_mirrored (fits : PinchFits center span) (steps : UInt32) (outwards : Bool) :
    Mirrored center (max steps.toNat 2) (finger center span steps outwards (-1))
      (finger center span steps outwards 1) := by
  obtain ⟨left, right⟩ := (pinchFits_iff outwards).mp fits
  have ends (near : Bool) : (beside center (-1 * radius span near)).x.toInt +
      (beside center (1 * radius span near)).x.toInt = 2 * center.x.toInt := by
    rw [beside_toInt (left.ends near), beside_toInt (right.ends near)]
    omega
  exact {
    left_length := finger_length ..
    right_length := finger_length ..
    left_level := course_level rfl
    right_level := course_level rfl
    opposite := course_mirrored (ends outwards) (ends !outwards) left.legFits right.legFits
      (few_steps steps) }

theorem away_head {steps : UInt32} {outwards : Bool} {direction : Int}
    (fits : FingerFits center span outwards direction) :
    (away center (finger center span steps outwards direction)).head? =
      some (direction * radius span outwards) := by
  rw [away, List.head?_map, finger_head, Option.map_some, beside_toInt (fits.ends outwards)]
  congr 1
  omega

theorem away_last {steps : UInt32} {outwards : Bool} {direction : Int}
    (fits : FingerFits center span outwards direction) :
    (away center (finger center span steps outwards direction)).getLast? =
      some (direction * radius span !outwards) := by
  rw [away, List.getLast?_map, finger_last, Option.map_some, beside_toInt (fits.ends !outwards)]
  congr 1
  omega

/-- The right finger never turns back, and is never closer to the center than where its path has
its near end. -/
theorem finger_onward (fits : PinchFits center span) (some : 1 ≤ span.toInt) (steps : UInt32) :
    (finger center span steps false 1).Pairwise (fun p q => q.x.toInt ≤ p.x.toInt) ∧
    (finger center span steps true 1).Pairwise (fun p q => p.x.toInt ≤ q.x.toInt) ∧
    ∀ outwards, ∀ p ∈ finger center span steps outwards 1,
      center.x.toInt + closest span ≤ p.x.toInt := by
  have right (outwards : Bool) := ((pinchFits_iff outwards).mp fits).2
  have below := (closest_of_pos some).2
  have far : (beside center (1 * radius span false)).x.toInt = center.x.toInt + span.toInt := by
    rw [beside_toInt ((right false).ends false), Int.one_mul, radius, if_neg (by decide)]
  have near : (beside center (1 * radius span true)).x.toInt = center.x.toInt + closest span := by
    rw [beside_toInt ((right true).ends true), Int.one_mul, radius, if_pos rfl]
  have onward (outwards : Bool) := course_onward (right outwards).legFits
    (show 0 < max (steps.toNat - 1) 1 by omega) (few_steps steps)
  have inwards := onward false
  have back := onward true
  simp only [Bool.not_false, Bool.not_true, far, near] at inwards back
  refine ⟨inwards.2.1 (by omega), back.1 (by omega), ?_⟩
  intro outwards p hp
  cases outwards
  · have := inwards.2.2 p hp
    omega
  · have := back.2.2 p hp
    omega

/-- Where the paths of a pinch lead. They exist exactly if no operation overflows. Then both have as
many points as steps, though at least two, all on the center's line, and point by point they mirror
each other; and moving apart each finger starts where it ends when they come together, and ends
where it starts. If the span is positive the fingers come together from as far as that on either side
of the center to a tenth of it, though at least a pixel; their distance never grows, or never
shrinks if they move apart, and they never meet. -/
theorem pinch_mirrors (center : Coordinate) (span : Int32) (steps : UInt32) :
    (¬ PinchFits center span →
      ∀ outwards, ∃ cause, pinchPaths center span steps outwards = .error cause) ∧
    (PinchFits center span → ∃ left right left' right',
      pinchPaths center span steps false = .ok [left, right] ∧
      pinchPaths center span steps true = .ok [left', right'] ∧
      Mirrored center (max steps.toNat 2) left right ∧
      Mirrored center (max steps.toNat 2) left' right' ∧
      (left'.head? = left.getLast? ∧ left'.getLast? = left.head?) ∧
      (right'.head? = right.getLast? ∧ right'.getLast? = right.head?) ∧
      (1 ≤ span.toInt →
        ((away center left).head? = some (-span.toInt) ∧
          (away center right).head? = some span.toInt) ∧
        ((away center left).getLast? = some (-max (span.toInt / 10) 1) ∧
          (away center right).getLast? = some (max (span.toInt / 10) 1)) ∧
        (distances left right).Pairwise (fun before after => after ≤ before) ∧
        (distances left' right').Pairwise (fun before after => before ≤ after) ∧
        ∀ distance ∈ distances left right ++ distances left' right',
          2 * max (span.toInt / 10) 1 ≤ distance)) := by
  constructor
  · intro overflows outwards
    cases outcome : pinchPaths center span steps outwards with
    | error cause => exact ⟨cause, rfl⟩
    | ok paths => exact absurd (pinchPaths_eq_ok_iff.mp outcome).1 overflows
  · intro fits
    have mirrored := finger_mirrored fits steps
    refine ⟨finger center span steps false (-1), finger center span steps false 1,
      finger center span steps true (-1), finger center span steps true 1,
      pinchPaths_eq_ok_iff.mpr ⟨fits, rfl⟩, pinchPaths_eq_ok_iff.mpr ⟨fits, rfl⟩,
      mirrored false, mirrored true, ?_, ?_, ?_⟩
    · simp only [finger_head, finger_last, Bool.not_false, Bool.not_true, and_self]
    · simp only [finger_head, finger_last, Bool.not_false, Bool.not_true, and_self]
    · intro some
      have tenth := (closest_of_pos some).1
      obtain ⟨inwards, outwards, least⟩ := finger_onward fits some steps
      obtain ⟨left, right⟩ := (pinchFits_iff false).mp fits
      rw [← tenth]
      refine ⟨⟨?_, ?_⟩, ⟨?_, ?_⟩, ?_, ?_, ?_⟩
      · simp [away_head left, radius]
      · simp [away_head right, radius]
      · simp [away_last left, radius]
      · simp [away_last right, radius]
      · rw [distances_eq (mirrored false).opposite, List.pairwise_map]
        refine inwards.imp ?_
        intro p q closer
        omega
      · rw [distances_eq (mirrored true).opposite, List.pairwise_map]
        refine outwards.imp ?_
        intro p q farther
        omega
      · rw [distances_eq (mirrored false).opposite, distances_eq (mirrored true).opposite,
          ← List.map_append, List.forall_mem_map, List.forall_mem_append]
        constructor
        · intro q hq
          have := least false q hq
          omega
        · intro q hq
          have := least true q hq
          omega

/-- The widest pinch there is; one pixel further left it overflows. -/
theorem pinch_mirrors_widest :
    let center : Coordinate := ⟨-1, 7⟩
    let span : Int32 := 2147483647
    (PinchFits center span ∧ 1 ≤ span.toInt ∧
      ∃ left right, pinchPaths center span 1 false = .ok [left, right] ∧
        left.length = 2 ∧ (away center left).getLast? = some (-214748364) ∧
        (distances left right).Pairwise fun before after => after ≤ before) ∧
    ¬ PinchFits ⟨-2, 7⟩ span ∧ ∃ cause, pinchPaths ⟨-2, 7⟩ span 1 false = .error cause := by
  intro center span
  have fits : PinchFits center span := by constructor <;> decide
  have outside : ¬ PinchFits ⟨-2, 7⟩ span := fun fits => absurd fits.farLeft (by decide)
  have positive : 1 ≤ span.toInt := by decide
  have tenth : max (span.toInt / 10) 1 = 214748364 := by decide
  obtain ⟨left, right, _, _, found, _, mirrored, _, _, _, course⟩ :=
    (pinch_mirrors center span 1).2 fits
  obtain ⟨_, ⟨finish, _⟩, closer, _⟩ := course positive
  rw [tenth] at finish
  exact ⟨⟨fits, positive, left, right, found, mirrored.left_length, finish, closer⟩,
    outside, (pinch_mirrors ⟨-2, 7⟩ span 1).1 outside false⟩

end Pinch

end Terminal

end CorrelatedInput
