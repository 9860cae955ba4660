import CorrelatedInput.Signals.Notification
/-!
What other parties will publish and when: instants in order, each with all its notifications.
-/
namespace CorrelatedInput

abbrev Schedule := List (Nat × List Notification)

namespace Schedule

/-- Adds a notification, after those of the same instant. -/
def insert (time : Nat) (n : Notification) : Schedule → Schedule
  | [] => [(time, [n])]
  | (t, ns) :: rest =>
    if t < time then (t, ns) :: insert time n rest
    else if t = time then (t, ns ++ [n]) :: rest
    else (time, [n]) :: (t, ns) :: rest

/-- The schedule of notifications given by their delays after `start`. -/
def ofDelays (start : Nat) (arrivals : List (Nat × Notification)) : Schedule :=
  arrivals.foldl (fun s (delay, n) => s.insert (start + delay) n) []

end Schedule

end CorrelatedInput
