import CorrelatedInput.Motion.Interpolation
import CorrelatedInput.Proofs.Except
import CorrelatedInput.Proofs.Rounding
/-!
Where a swipe leads. Both distances of a leg have to be 32-bit words; then every position on the way
lies between the ends of the leg and none behind the one before it, however the roundings fall, and
no sum leaves the range. So a leg has all its moves, one less than it has steps.
-/
namespace CorrelatedInput

theorem narrow_ok {n : Int} (cause : Overflow) (fits : FitsInt32 n) :
    narrow cause n = .ok (Int32.ofInt n) := if_pos fits

theorem toInt_ofInt_of_fits {n : Int} (fits : FitsInt32 n) : (Int32.ofInt n).toInt = n := by
  obtain ⟨low, high⟩ := fits
  exact Int32.toInt_ofInt_of_le low (by omega)

theorem fits_toInt (a : Int32) : FitsInt32 a.toInt := by
  have low := a.le_toInt
  have high := a.toInt_lt
  constructor <;> omega

namespace Motion

/-- Neither distance of the leg overflows. -/
def LegFits (a b : Coordinate) : Prop :=
  FitsInt32 (b.x.toInt - a.x.toInt) ∧ FitsInt32 (b.y.toInt - a.y.toInt)

instance (a b : Coordinate) : Decidable (LegFits a b) := inferInstanceAs (Decidable (_ ∧ _))

section Position

variable {steps i j : Nat} {distance : Int} {a b : Int32}

/-- How far along an axis the `i`-th of `steps` positions lies, whether or not that is a word. -/
def reach (distance : Int) (steps i : Nat) : Int :=
  towards distance ((Dyadic.ofQuotient distance.natAbs steps).scaleBy i).floor

theorem reach_zero (distance : Int) (steps : Nat) : reach distance steps 0 = 0 := by
  simp [reach, towards, Dyadic.scaleBy, Dyadic.floor, significant, nearestEven]

/-- However the roundings fall, no position lies behind the start or beyond the finish. -/
theorem reach_bounds (word : FitsInt32 distance) (inner : i < steps) (few : steps ≤ 2 ^ 32) :
    (0 ≤ distance → 0 ≤ reach distance steps i ∧ reach distance steps i ≤ distance) ∧
      (distance ≤ 0 → distance ≤ reach distance steps i ∧ reach distance steps i ≤ 0) := by
  obtain ⟨low, high⟩ := word
  have covered := Dyadic.floor_scaleBy_ofQuotient_le (p := distance.natAbs) (by omega) inner few
  unfold reach towards
  constructor <;> intro side <;> split <;> omega

theorem reach_mono (h : i ≤ j) :
    (0 ≤ distance → reach distance steps i ≤ reach distance steps j) ∧
      (distance ≤ 0 → reach distance steps j ≤ reach distance steps i) := by
  have further := (Dyadic.ofQuotient distance.natAbs steps).floor_scaleBy_mono h
  rcases Int.lt_trichotomy distance 0 with back | rfl | forth
  · unfold reach towards
    rw [if_pos back, if_pos back]
    omega
  · simp [reach, towards, Dyadic.ofQuotient, Dyadic.scaleBy, significant, nearestEven]
  · unfold reach towards
    rw [if_neg (by omega), if_neg (by omega)]
    omega

/-- The `i`-th position on the way from `a` to `b` is computed without loss: the offset is a word
as it is, and so is the sum. -/
structure Exact (a b : Int32) (steps i : Nat) : Prop where
  unsaturated : FitsInt32 (reach (b.toInt - a.toInt) steps i)
  converts : (offset (Int32.ofInt (b.toInt - a.toInt)) steps i).toInt =
    reach (b.toInt - a.toInt) steps i
  sum : FitsInt32 (a.toInt + (offset (Int32.ofInt (b.toInt - a.toInt)) steps i).toInt)

theorem exact_of_fits (fits : FitsInt32 (b.toInt - a.toInt)) (inner : i < steps)
    (few : steps ≤ 2 ^ 32) : Exact a b steps i := by
  obtain ⟨up, down⟩ := reach_bounds fits inner few
  have begins := fits_toInt a
  have ends := fits_toInt b
  have unsaturated : FitsInt32 (reach (b.toInt - a.toInt) steps i) := by
    unfold FitsInt32 at *
    omega
  have converts : (offset (Int32.ofInt (b.toInt - a.toInt)) steps i).toInt =
      reach (b.toInt - a.toInt) steps i := by
    change (saturate (reach (Int32.ofInt (b.toInt - a.toInt)).toInt steps i)).toInt = _
    rw [toInt_ofInt_of_fits fits]
    unfold saturate
    rw [if_neg (Int.not_lt.mpr unsaturated.1), if_neg (Int.not_lt.mpr unsaturated.2)]
    exact toInt_ofInt_of_fits unsaturated
  refine ⟨unsaturated, converts, ?_⟩
  rw [converts]
  unfold FitsInt32 at *
  omega

def along (a b : Int32) (steps i : Nat) : Int32 :=
  Int32.ofInt (a.toInt + reach (b.toInt - a.toInt) steps i)

theorem Exact.plus_offset (h : Exact a b steps i) :
    plus a (offset (Int32.ofInt (b.toInt - a.toInt)) steps i) = .ok (along a b steps i) := by
  unfold plus along
  rw [narrow_ok _ h.sum, h.converts]

theorem Exact.along_toInt (h : Exact a b steps i) :
    (along a b steps i).toInt = a.toInt + reach (b.toInt - a.toInt) steps i := by
  have fits := h.sum
  rw [h.converts] at fits
  exact toInt_ofInt_of_fits fits

/-- From `a` on the words lead towards `b` and never back, and none lies beyond it. -/
structure Onward (a b : Int32) (places : List Int32) : Prop where
  rises : a ≤ b → (a :: places).Pairwise fun p q => p ≤ q
  falls : b ≤ a → (a :: places).Pairwise fun p q => q ≤ p
  between : ∀ p ∈ places, (a ≤ p ∧ p ≤ b) ∨ (b ≤ p ∧ p ≤ a)

theorem along_pairwise {r : Int32 → Int32 → Prop} (some : 0 < steps)
    (further : ∀ i j, i ≤ j → j < steps → r (along a b steps i) (along a b steps j))
    (last : ∀ i, i < steps → r (along a b steps i) b) :
    (a :: ((List.range' 1 (steps - 1)).map (along a b steps) ++ [b])).Pairwise r := by
  -- the start is the position before the first step
  have start : along a b steps 0 = a := by simp [along, reach_zero]
  have whole : a :: (List.range' 1 (steps - 1)).map (along a b steps) =
      (List.range steps).map (along a b steps) := by
    obtain ⟨n, rfl⟩ := Nat.exists_eq_succ_of_ne_zero (Nat.ne_of_gt some)
    rw [List.range_eq_range', List.range'_succ, List.map_cons, start]
    rfl
  rw [← List.cons_append, whole]
  refine List.pairwise_append.mpr ⟨List.pairwise_map.mpr ?_, List.pairwise_singleton _ _, ?_⟩
  · refine List.pairwise_lt_range.imp_of_mem ?_
    intro i j _ hj before
    exact further i j (Nat.le_of_lt before) (List.mem_range.mp hj)
  · intro p hp q hq
    obtain ⟨i, hi, rfl⟩ := List.mem_map.mp hp
    rw [List.mem_singleton.mp hq]
    exact last i (List.mem_range.mp hi)

theorem along_onward (fits : FitsInt32 (b.toInt - a.toInt)) (some : 0 < steps)
    (few : steps ≤ 2 ^ 32) :
    Onward a b ((List.range' 1 (steps - 1)).map (along a b steps) ++ [b]) := by
  have place (i : Nat) (inner : i < steps) := (exact_of_fits fits inner few).along_toInt
  have bounds (i : Nat) (inner : i < steps) := reach_bounds fits inner few
  constructor
  · intro up
    rw [Int32.le_iff_toInt_le] at up
    refine along_pairwise some ?_ ?_
    · intro i j le inner
      rw [Int32.le_iff_toInt_le, place i (by omega), place j inner]
      exact Int.add_le_add_left ((reach_mono le).1 (by omega)) _
    · intro i inner
      have := ((bounds i inner).1 (by omega)).2
      rw [Int32.le_iff_toInt_le, place i inner]
      omega
  · intro down
    rw [Int32.le_iff_toInt_le] at down
    refine along_pairwise some ?_ ?_
    · intro i j le inner
      rw [Int32.le_iff_toInt_le, place i (by omega), place j inner]
      exact Int.add_le_add_left ((reach_mono le).2 (by omega)) _
    · intro i inner
      have := ((bounds i inner).2 (by omega)).1
      rw [Int32.le_iff_toInt_le, place i inner]
      omega
  · intro p hp
    simp only [Int32.le_iff_toInt_le]
    rcases List.mem_append.mp hp with inside | last
    · obtain ⟨i, hi, rfl⟩ := List.mem_map.mp inside
      have inner := (List.mem_range'_1.mp hi).2
      obtain ⟨up, down⟩ := bounds i (by omega)
      rw [place i (by omega)]
      omega
    · rw [List.mem_singleton.mp last]
      omega

end Position

section Leg

variable {start finish : Coordinate}

def place (start finish : Coordinate) (steps i : Nat) : Coordinate :=
  ⟨along start.x finish.x steps i, along start.y finish.y steps i⟩

/-- The positions of a leg, from the first step to the finish. -/
def positions (start finish : Coordinate) (steps : Nat) : List Coordinate :=
  (List.range' 1 (steps - 1)).map (place start finish steps) ++ [finish]

theorem waypoint_ok {steps i : Nat} (fits : LegFits start finish) (inner : i < steps)
    (few : steps ≤ 2 ^ 32) :
    waypoint start (Int32.ofInt (finish.x.toInt - start.x.toInt))
      (Int32.ofInt (finish.y.toInt - start.y.toInt)) steps i =
      .ok (place start finish steps i) := by
  unfold waypoint
  rw [(exact_of_fits fits.1 inner few).plus_offset, (exact_of_fits fits.2 inner few).plus_offset]
  rfl

theorem steps_le (steps : UInt32) : max steps.toNat 1 ≤ 2 ^ 32 := by
  have := steps.toNat_lt
  omega

theorem interpolate_ok (fits : LegFits start finish) (steps : UInt32) :
    interpolate start finish steps = .ok (positions start finish (max steps.toNat 1)) := by
  have onTheWay : (List.range' 1 (max steps.toNat 1 - 1)).mapM
      (waypoint start (Int32.ofInt (finish.x.toInt - start.x.toInt))
        (Int32.ofInt (finish.y.toInt - start.y.toInt)) (max steps.toNat 1)) =
      .ok ((List.range' 1 (max steps.toNat 1 - 1)).map
        (place start finish (max steps.toNat 1))) := by
    apply mapM_eq_ok
    intro i hi
    have inner := (List.mem_range'_1.mp hi).2
    exact waypoint_ok fits (by omega) (steps_le steps)
  unfold interpolate minus
  simp only [narrow_ok _ fits.1, narrow_ok _ fits.2]
  change (List.mapM _ _ >>= fun inner => (pure (inner ++ [finish]) : Except Overflow _)) = _
  rw [onTheWay]
  rfl

theorem swipeMoves_eq (start finish : Coordinate) (steps : UInt32) :
    swipeMoves start finish steps = (interpolate start finish steps).map List.dropLast := by
  unfold swipeMoves
  cases interpolate start finish steps <;> rfl

theorem interpolate_error (outside : ¬ LegFits start finish) (steps : UInt32) :
    interpolate start finish steps = .error .subtraction := by
  unfold interpolate minus narrow
  by_cases across : FitsInt32 (finish.x.toInt - start.x.toInt)
  · have down : ¬ FitsInt32 (finish.y.toInt - start.y.toInt) := fun down => outside ⟨across, down⟩
    rw [if_pos across, if_neg down]
    rfl
  · rw [if_neg across]
    rfl

theorem positions_length (start finish : Coordinate) {steps : Nat} (some : 0 < steps) :
    (positions start finish steps).length = steps := by
  simp [positions]
  omega

/-- A leg has all its moves. -/
theorem swipeMoves_ok (fits : LegFits start finish) (steps : UInt32) :
    ∃ moves, swipeMoves start finish steps = .ok moves ∧ moves.length = max steps.toNat 1 - 1 := by
  refine ⟨(positions start finish (max steps.toNat 1)).dropLast, ?_, ?_⟩
  · rw [swipeMoves_eq, interpolate_ok fits]
    rfl
  · rw [List.length_dropLast, positions_length _ _ (by omega)]

/-- Where a leg leads, for any two ends and any number of steps. It fails exactly if one of its
distances is no word, and then before any position is computed. Otherwise every position is computed
without loss; there are as many as steps, though at least one, and the last one is the finish; and
along each axis they lead from the start to the finish without ever turning back. -/
theorem interpolate_safe (start finish : Coordinate) (steps : UInt32) :
    (¬ LegFits start finish →
      interpolate start finish steps = .error .subtraction ∧
        swipeMoves start finish steps = .error .subtraction) ∧
    (LegFits start finish →
      (∀ i < max steps.toNat 1, Exact start.x finish.x (max steps.toNat 1) i ∧
        Exact start.y finish.y (max steps.toNat 1) i) ∧
      ∃ places, interpolate start finish steps = .ok places ∧
        swipeMoves start finish steps = .ok places.dropLast ∧
        places.length = max steps.toNat 1 ∧ places.getLast? = some finish ∧
        Onward start.x finish.x (places.map Coordinate.x) ∧
        Onward start.y finish.y (places.map Coordinate.y)) := by
  have few := steps_le steps
  have some : 0 < max steps.toNat 1 := by omega
  constructor
  · intro outside
    rw [swipeMoves_eq, interpolate_error outside]
    exact ⟨rfl, rfl⟩
  · intro fits
    constructor
    · intro i inner
      exact ⟨exact_of_fits fits.1 inner few, exact_of_fits fits.2 inner few⟩
    · refine ⟨positions start finish (max steps.toNat 1), interpolate_ok fits steps, ?_,
        positions_length _ _ some, List.getLast?_concat, ?_, ?_⟩
      · rw [swipeMoves_eq, interpolate_ok fits]
        rfl
      · have across := along_onward fits.1 some few
        simpa [positions, place, Function.comp_def] using across
      · have down := along_onward fits.2 some few
        simpa [positions, place, Function.comp_def] using down

/-- The longest leg there is, in as many steps as there can be, has them all; one pixel more is no
leg. -/
theorem interpolate_safe_longest :
    let start : Coordinate := ⟨-2147483648, 2147483647⟩
    LegFits start ⟨-1, 0⟩ ∧ ¬ LegFits start ⟨0, 0⟩ ∧
      (∃ places, interpolate start ⟨-1, 0⟩ 4294967295 = .ok places ∧
        places.length = 4294967295 ∧ places.getLast? = some ⟨-1, 0⟩) ∧
      interpolate start ⟨0, 0⟩ 4294967295 = .error .subtraction := by
  intro start
  have fits : LegFits start ⟨-1, 0⟩ := by decide
  have outside : ¬ LegFits start ⟨0, 0⟩ := by decide
  obtain ⟨_, places, found, _, count, last, _⟩ :=
    (interpolate_safe start ⟨-1, 0⟩ 4294967295).2 fits
  exact ⟨fits, outside, ⟨places, found, count, last⟩,
    ((interpolate_safe start ⟨0, 0⟩ 4294967295).1 outside).1⟩

end Leg

/-! Several legs -/

/-- Each waypoint with the next one. -/
def legs (points : List Coordinate) : List (Coordinate × Coordinate) := points.zip points.tail

theorem legs_cons (a b : Coordinate) (rest : List Coordinate) :
    legs (a :: b :: rest) = (a, b) :: legs (b :: rest) := rfl

theorem legs_split (front : List Coordinate) (p : Coordinate) (back : List Coordinate) :
    legs (front ++ p :: back) = legs (front ++ [p]) ++ legs (p :: back) := by
  induction front with
  | nil => rfl
  | cons a front ih =>
    cases front with
    | nil => rfl
    | cons b rest =>
      simp only [List.cons_append, legs_cons] at ih ⊢
      rw [ih]

theorem fits_of_mem_legs {points : List Coordinate} (fits : points.IsChain LegFits) :
    ∀ leg ∈ legs points, LegFits leg.1 leg.2 := by
  induction fits with
  | nil => exact List.forall_mem_nil _
  | singleton => exact List.forall_mem_nil _
  | cons_cons first _ ih => exact List.forall_mem_cons.mpr ⟨first, ih⟩

theorem segmentMoves_eq (points : List Coordinate) (steps : UInt32) :
    segmentMoves points steps = (legs points).mapM fun leg => swipeMoves leg.1 leg.2 steps := by
  induction points with
  | nil => rfl
  | cons a points ih =>
    cases points with
    | nil => rfl
    | cons b rest =>
      rw [legs_cons, List.mapM_cons, ← ih]
      rfl

theorem segmentMoves_ok {points : List Coordinate} (fits : points.IsChain LegFits)
    (steps : UInt32) :
    ∃ moves, segmentMoves points steps = .ok moves ∧
      List.Forall₂ (fun leg moves => swipeMoves leg.1 leg.2 steps = .ok moves ∧
        moves.length = max steps.toNat 1 - 1) (legs points) moves := by
  rw [segmentMoves_eq]
  apply mapM_ok
  intro leg hleg
  obtain ⟨moves, found, all⟩ := swipeMoves_ok (fits_of_mem_legs fits leg hleg) steps
  exact ⟨moves, found, found, all⟩

theorem segmentMoves_error {points : List Coordinate} (outside : ¬ points.IsChain LegFits)
    (steps : UInt32) : segmentMoves points steps = .error .subtraction := by
  induction points with
  | nil => exact absurd .nil outside
  | cons a points ih =>
    cases points with
    | nil => exact absurd (.singleton a) outside
    | cons b rest =>
      rw [segmentMoves]
      by_cases fits : LegFits a b
      · have later : ¬ (b :: rest).IsChain LegFits := fun later => outside (.cons_cons fits later)
        obtain ⟨moves, found, _⟩ := swipeMoves_ok fits steps
        rw [found, ih later]
        rfl
      · rw [((interpolate_safe a b steps).1 fits).2]
        rfl

/-- A path that is split at a waypoint is moved through part by part. -/
theorem segmentMoves_split (front : List Coordinate) (p : Coordinate) (back : List Coordinate)
    (steps : UInt32) :
    segmentMoves (front ++ p :: back) steps = (do
      let before ← segmentMoves (front ++ [p]) steps
      let after ← segmentMoves (p :: back) steps
      return before ++ after) := by
  rw [segmentMoves_eq, legs_split, List.mapM_append, ← segmentMoves_eq, ← segmentMoves_eq]

end Motion

end CorrelatedInput
