/-!
Rounding to 53 significant bits, ties to the even neighbour, over exact natural numbers.

A quotient rounded once and its product with a natural number rounded again are all that paths
and number limits need, so a rounded number is a coefficient over a power of two and no exponent
ever leaves the range where this is the whole story.
-/
namespace CorrelatedInput

/-- The integer nearest to `num / den`; of two at the same distance, the even one. -/
def nearestEven (num den : Nat) : Nat :=
  let quotient := num / den
  let rest := num % den
  if 2 * rest < den then quotient
  else if den < 2 * rest then quotient + 1
  else quotient + quotient % 2

/-- The number with at most 53 significant bits nearest to `m`. -/
def significant (m : Nat) : Nat :=
  let spare := m.log2 + 1 - 53
  nearestEven m (1 <<< spare) <<< spare

structure Dyadic where
  coefficient : Nat
  scale : Nat
deriving DecidableEq, Repr

namespace Dyadic

/-- `p / q` rounded to 53 significant bits, for `p` below `2 ^ 53` times the power of two that
`q` reaches: then the scale is no less than zero. -/
def ofQuotient (p q : Nat) : Dyadic :=
  if p = 0 then ⟨0, 0⟩
  else
    let wide := 53 + q.log2 - p.log2
    let scale := if (p <<< wide) / q < 1 <<< 53 then wide else wide - 1
    ⟨nearestEven (p <<< scale) q, scale⟩

/-- The product with a natural number, rounded to 53 significant bits. -/
def scaleBy (x : Dyadic) (k : Nat) : Dyadic := ⟨significant (x.coefficient * k), x.scale⟩

def floor (x : Dyadic) : Nat := x.coefficient >>> x.scale

end Dyadic

/-- Whether `m * 10 ^ e`, both factors rounded to 53 significant bits and their product once
more, exceeds every number of 53 significant bits below `2 ^ 1024`. A tie at the end of the
range counts as beyond it. -/
def overflowsBinary64 (m : Nat) (e : Int) : Bool :=
  if m = 0 then false
  else if 308 < e then true
  else if e < 0 then false
  else 1 <<< 1024 - 1 <<< 970 ≤ significant m * significant (Nat.pow 10 e.toNat)

end CorrelatedInput
