import CorrelatedInput.Signals.Kind
import CorrelatedInput.Motion.Interpolation
/-!
Notifications, with the position that a scrolling view reports, and what that position says about
the end of its content.
-/
namespace CorrelatedInput

/-- Where a scrolled view stands. A list reports the items it shows, a canvas its offsets; what
the view does not report is absent. -/
structure ScrollPosition where
  fromIndex : Option Int32
  toIndex : Option Int32
  itemCount : Option Int32
  scrollX : Option Int32
  scrollY : Option Int32
  maxScrollX : Option Int32
  maxScrollY : Option Int32
deriving DecidableEq, Repr

namespace ScrollPosition

def unreported : ScrollPosition := ⟨none, none, none, none, none, none, none⟩

/-- A raw value, where -1 stands for an absent one. -/
def reported (n : Int32) : Option Int32 := if n = -1 then none else some n

def ofRaw (fromIndex toIndex itemCount scrollX scrollY maxScrollX maxScrollY : Int32) :
    ScrollPosition :=
  ⟨reported fromIndex, reported toIndex, reported itemCount, reported scrollX,
    reported scrollY, reported maxScrollX, reported maxScrollY⟩

def indexed (fromIndex toIndex itemCount : Int32) : ScrollPosition :=
  { unreported with
    fromIndex := some fromIndex, toIndex := some toIndex, itemCount := some itemCount }

def offsets (scrollX scrollY maxScrollX maxScrollY : Int32) : ScrollPosition :=
  { unreported with
    scrollX := some scrollX, scrollY := some scrollY,
    maxScrollX := some maxScrollX, maxScrollY := some maxScrollY }

/-- First item, last item and number of items, when all three are reported. -/
def indexRange? (p : ScrollPosition) : Option (Int32 × Int32 × Int32) := do
  return (← p.fromIndex, ← p.toIndex, ← p.itemCount)

/-- Both offsets, when both are reported. -/
def offsets? (p : ScrollPosition) : Option (Int32 × Int32) := do
  return (← p.scrollX, ← p.scrollY)

/-- Whether content is left in the direction of a swipe from `down` to `up`. A list is at its end
when its first or its last item shows; a canvas when the offset on the axis of the swipe is
zero or the greatest. A position that tells neither leaves content. -/
def hasMore (p : ScrollPosition) (down up : Coordinate) : Bool :=
  match p.indexRange? with
  | some (first, last, count) => !(first = 0 || last.toInt = count.toInt - 1)
  | none =>
    match p.offsets? with
    | none => true
    | some (x, y) =>
      if down.x = up.x then !(y = 0 || p.maxScrollY = some y)
      else if down.y = up.y then !(x = 0 || p.maxScrollX = some x)
      else true

end ScrollPosition

structure Notification where
  kind : Kind
  /-- When it was sent, on the clock of the sender. -/
  eventTime : UInt64
  scroll : ScrollPosition
deriving DecidableEq, Repr

/-- A notification that tells nothing but its kind. -/
def Kind.notification (kind : Kind) : Notification := ⟨kind, 0, .unreported⟩

end CorrelatedInput
