/-!
Checked 32-bit arithmetic. Pixel positions are 32-bit words, and a sum, difference or product
that leaves their range is not a position at all: it stops the gesture, and the cause names the
operation that left the range.
-/
namespace CorrelatedInput

/-- The operation whose exact result is no 32-bit integer. -/
inductive Overflow where
  | subtraction
  | addition
  | multiplication
deriving DecidableEq, Repr

def Overflow.message : Overflow → String
  | .subtraction => "attempt to subtract with overflow"
  | .addition => "attempt to add with overflow"
  | .multiplication => "attempt to multiply with overflow"

def FitsInt32 (n : Int) : Prop := -2147483648 ≤ n ∧ n ≤ 2147483647

instance (n : Int) : Decidable (FitsInt32 n) := inferInstanceAs (Decidable (_ ∧ _))

/-- The word that holds `n`, or the operation to blame when none does. -/
def narrow (cause : Overflow) (n : Int) : Except Overflow Int32 :=
  if FitsInt32 n then .ok (Int32.ofInt n) else .error cause

def minus (a b : Int32) : Except Overflow Int32 := narrow .subtraction (a.toInt - b.toInt)

def plus (a b : Int32) : Except Overflow Int32 := narrow .addition (a.toInt + b.toInt)

def times (a b : Int32) : Except Overflow Int32 := narrow .multiplication (a.toInt * b.toInt)

/-- The word nearest to `n`: out of range, the bound on that side. -/
def saturate (n : Int) : Int32 :=
  if n < -2147483648 then Int32.ofInt (-2147483648)
  else if 2147483647 < n then Int32.ofInt 2147483647
  else Int32.ofInt n

end CorrelatedInput
