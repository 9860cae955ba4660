import CorrelatedInput.Input.Event
/-!
Where events go. A sink takes or rejects every event it is handed, at once. The sink in memory keeps
what it was handed, in order and with its verdict on each event; events whose ordinal in that log is
marked are rejected.
-/
namespace CorrelatedInput

class InjectionSink (σ : Type) where
  /-- Whether an event was taken, and the sink after it. -/
  inject : σ → InputEvent → Bool × σ
  name : σ → String

structure Injected where
  event : InputEvent
  accepted : Bool
deriving DecidableEq, Repr

structure Sink where
  log : Array Injected
  /-- The ordinals of the events that will be rejected. -/
  rejects : List Nat
deriving DecidableEq, Repr

namespace Sink

def name : String := "memory"

def rejecting (ordinals : List Nat) : Sink := ⟨#[], ordinals⟩

def next (s : Sink) : Nat := s.log.size

def inject (s : Sink) (event : InputEvent) : Bool × Sink :=
  let accepted := !s.rejects.contains s.next
  (accepted, { s with log := s.log.push ⟨event, accepted⟩ })

/-- Forgets what was handed over; the next event has ordinal 0 again. -/
def clear (s : Sink) : Sink := { s with log := #[] }

instance : InjectionSink Sink := ⟨inject, fun _ => name⟩

end Sink

end CorrelatedInput
