import CorrelatedInput.Time.Clock
/-!
The clock of the events against the timeline of the run. They go on together, and what the clock
shows is in order as long as it fits its 64 bits.
-/
namespace CorrelatedInput.Clock

variable {c : Clock} {now later : Nat}

theorem stamp_add (started : c.start ≤ now) (elapsed : Nat) :
    c.stamp (now + elapsed) = c.stamp now + UInt64.ofNat elapsed := by
  unfold stamp
  rw [Nat.sub_add_comm started]
  exact UInt64.ofNat_add _ _

theorem stamp_le (ordered : now ≤ later) (short : later - c.start < UInt64.size) :
    c.stamp now ≤ c.stamp later := by
  rw [UInt64.le_iff_toNat_le]
  simp only [stamp]
  rw [UInt64.toNat_ofNat_of_lt' short, UInt64.toNat_ofNat_of_lt' (by omega)]
  omega

end CorrelatedInput.Clock
