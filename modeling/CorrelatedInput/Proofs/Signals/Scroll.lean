import CorrelatedInput.Signals.Notification
/-!
What the position of a scrolled view says about the end of its content, read off the raw integers of
whoever sent it. A swipe along one axis and the same swipe along the other one are judged alike.
-/
namespace CorrelatedInput

/-- The same place with its axes exchanged. -/
def Coordinate.transposed (place : Coordinate) : Coordinate := ⟨place.y, place.x⟩

namespace ScrollPosition

/-- The same view with its axes exchanged. -/
def transposed (p : ScrollPosition) : ScrollPosition :=
  { p with
    scrollX := p.scrollY, scrollY := p.scrollX
    maxScrollX := p.maxScrollY, maxScrollY := p.maxScrollX }

/-! What is reported -/

section Raw

variable {first last count x y maxX maxY : Int32}

theorem indexRange?_ofRaw (reports : first ≠ -1 ∧ last ≠ -1 ∧ count ≠ -1) :
    (ofRaw first last count x y maxX maxY).indexRange? = some (first, last, count) := by
  simp [indexRange?, ofRaw, reported, reports]

theorem indexRange?_ofRaw_eq_none (lacks : ¬ (first ≠ -1 ∧ last ≠ -1 ∧ count ≠ -1)) :
    (ofRaw first last count x y maxX maxY).indexRange? = none := by
  by_cases noFirst : first = -1
  · simp [indexRange?, ofRaw, reported, noFirst]
  by_cases noLast : last = -1
  · simp [indexRange?, ofRaw, reported, noLast]
  have noCount : count = -1 :=
    Decidable.byContradiction fun reports => lacks ⟨noFirst, noLast, reports⟩
  simp [indexRange?, ofRaw, reported, noCount]

theorem offsets?_ofRaw (reports : x ≠ -1 ∧ y ≠ -1) :
    (ofRaw first last count x y maxX maxY).offsets? = some (x, y) := by
  simp [offsets?, ofRaw, reported, reports]

theorem offsets?_ofRaw_eq_none (lacks : ¬ (x ≠ -1 ∧ y ≠ -1)) :
    (ofRaw first last count x y maxX maxY).offsets? = none := by
  by_cases noX : x = -1
  · simp [offsets?, ofRaw, reported, noX]
  have noY : y = -1 := Decidable.byContradiction fun reports => lacks ⟨noX, reports⟩
  simp [offsets?, ofRaw, reported, noY]

/-- An offset that is reported is the greatest one if the two raw integers are the same: what is not
reported equals no offset. -/
theorem reported_eq_some_iff {offset greatest : Int32} (reports : offset ≠ -1) :
    reported greatest = some offset ↔ offset = greatest := by
  unfold reported
  split
  · rename_i none
    simp [none, reports]
  · simp [eq_comm]

theorem toInt_eq_zero_iff {n : Int32} : n.toInt = 0 ↔ n = 0 := by
  rw [← Int32.toInt_inj]
  rfl

/-- Of a list that reports its items only these count. -/
theorem hasMore_ofRaw_items (reports : first ≠ -1 ∧ last ≠ -1 ∧ count ≠ -1)
    (down up : Coordinate) :
    (ofRaw first last count x y maxX maxY).hasMore down up = false ↔
      first.toInt = 0 ∨ last.toInt = count.toInt - 1 := by
  simp [hasMore, indexRange?_ofRaw reports, toInt_eq_zero_iff, Decidable.or_iff_not_imp_left]

/-- Of a canvas that reports its offsets the one along the swipe counts. -/
theorem hasMore_ofRaw_offsets (lacks : ¬ (first ≠ -1 ∧ last ≠ -1 ∧ count ≠ -1))
    (reports : x ≠ -1 ∧ y ≠ -1) (down up : Coordinate) :
    (ofRaw first last count x y maxX maxY).hasMore down up =
      if down.x = up.x then !(y = 0 || y = maxY)
      else if down.y = up.y then !(x = 0 || x = maxX)
      else true := by
  have greatestX : reported maxX = some x ↔ x = maxX := reported_eq_some_iff reports.1
  have greatestY : reported maxY = some y ↔ y = maxY := reported_eq_some_iff reports.2
  simp only [hasMore, indexRange?_ofRaw_eq_none lacks, offsets?_ofRaw reports]
  simp only [ofRaw, greatestX, greatestY]

end Raw

/-! Exchanged axes -/

theorem indexRange?_transposed (p : ScrollPosition) : p.transposed.indexRange? = p.indexRange? :=
  rfl

theorem offsets?_transposed (p : ScrollPosition) :
    p.transposed.offsets? = p.offsets?.map Prod.swap := by
  cases hx : p.scrollX <;> cases hy : p.scrollY <;> simp [offsets?, transposed, hx, hy]

/-- A swipe that leads somewhere keeps at most one coordinate, so no axis comes first. -/
theorem hasMore_transposed (p : ScrollPosition) {down up : Coordinate} (apart : down ≠ up) :
    p.transposed.hasMore down.transposed up.transposed = p.hasMore down up := by
  have once : down.x = up.x → down.y ≠ up.y := by
    intro sameX sameY
    cases down
    cases up
    exact apart (Coordinate.mk.injEq .. ▸ ⟨sameX, sameY⟩)
  simp only [hasMore, indexRange?_transposed, offsets?_transposed, Coordinate.transposed]
  cases p.indexRange? with
  | some range => rfl
  | none =>
    cases p.offsets? with
    | none => rfl
    | some offsets =>
      by_cases sameX : down.x = up.x
      · simp [sameX, once sameX]
        rfl
      · by_cases sameY : down.y = up.y
        · simp [sameX, sameY]
          rfl
        · simp [sameX, sameY]

/-- Whether content is left, by the raw integers, where -1 stands for what is not reported. A list
that reports its items is at its end exactly when its first item shows or its last one, without any
overflow. Otherwise a canvas that reports both offsets is at its end, for a swipe that keeps `x`,
exactly when its offset along `y` is zero or the greatest, and for any other swipe that keeps `y`
when that along `x` is. In every other case content is left. So nothing changes when the axes of
a swipe that leads somewhere and of the view are exchanged. -/
theorem boundary_of_raw (first last count x y maxX maxY : Int32) (down up : Coordinate) :
    let p := ofRaw first last count x y maxX maxY
    (first ≠ -1 ∧ last ≠ -1 ∧ count ≠ -1 →
      (p.hasMore down up = false ↔ first.toInt = 0 ∨ last.toInt = count.toInt - 1)) ∧
    (¬ (first ≠ -1 ∧ last ≠ -1 ∧ count ≠ -1) → x ≠ -1 ∧ y ≠ -1 →
      (down.x = up.x → (p.hasMore down up = false ↔ y.toInt = 0 ∨ y = maxY)) ∧
      (down.x ≠ up.x → down.y = up.y →
        (p.hasMore down up = false ↔ x.toInt = 0 ∨ x = maxX)) ∧
      (down.x ≠ up.x → down.y ≠ up.y → p.hasMore down up = true)) ∧
    (¬ (first ≠ -1 ∧ last ≠ -1 ∧ count ≠ -1) → ¬ (x ≠ -1 ∧ y ≠ -1) →
      p.hasMore down up = true) ∧
    (down ≠ up → (ofRaw first last count y x maxY maxX).hasMore down.transposed up.transposed =
      p.hasMore down up) := by
  intro p
  refine ⟨?_, ?_, ?_, ?_⟩
  · intro items
    exact hasMore_ofRaw_items items down up
  · intro noItems offsets
    have judged : p.hasMore down up = _ := hasMore_ofRaw_offsets noItems offsets down up
    refine ⟨?_, ?_, ?_⟩
    · intro keepsX
      simp [judged, keepsX, toInt_eq_zero_iff, Decidable.or_iff_not_imp_left]
    · intro leavesX keepsY
      simp [judged, leavesX, keepsY, toInt_eq_zero_iff, Decidable.or_iff_not_imp_left]
    · intro leavesX leavesY
      simp [judged, leavesX, leavesY]
  · intro noItems noOffsets
    simp [p, hasMore, indexRange?_ofRaw_eq_none noItems, offsets?_ofRaw_eq_none noOffsets]
  · intro apart
    exact hasMore_transposed p apart

/-- The least number of items there is, with nothing below it; offsets that count because the
number of items is missing; and the same view on its side. -/
theorem boundary_of_raw_least_count :
    (ofRaw 3 6 (-2147483648) 0 0 0 0).hasMore ⟨100, 800⟩ ⟨100, 200⟩ = true ∧
      (ofRaw 0 4 (-1) 0 900 (-1) 900).hasMore ⟨100, 800⟩ ⟨100, 200⟩ = false ∧
      (ofRaw 0 4 (-1) 900 0 900 (-1)).hasMore ⟨800, 100⟩ ⟨200, 100⟩ = false := by
  obtain ⟨items, _⟩ := boundary_of_raw 3 6 (-2147483648) 0 0 0 0 ⟨100, 800⟩ ⟨100, 200⟩
  obtain ⟨_, canvas, _, turned⟩ :=
    boundary_of_raw 0 4 (-1) 0 900 (-1) 900 ⟨100, 800⟩ ⟨100, 200⟩
  have bottom := ((canvas (by decide) (by decide)).1 rfl).mpr (.inr rfl)
  refine ⟨?_, bottom, (turned (by decide)).trans bottom⟩
  rw [← Bool.not_eq_false, items (by decide)]
  decide

end ScrollPosition

end CorrelatedInput
