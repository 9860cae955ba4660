import CorrelatedInput.Input.Sink
/-!
What a sink makes of events that it is handed one after the other. Its verdicts depend on the
ordinals of the events alone, and so does which of some events come to it if the first rejection is
the end of them.
-/
namespace CorrelatedInput.Sink

/-- The entries that events leave in the log: an event is accepted unless its ordinal is marked. -/
def judged (s : Sink) (events : List InputEvent) : List Injected :=
  (events.zipIdx s.next).map fun (event, ordinal) => ⟨event, !s.rejects.contains ordinal⟩

def offer (s : Sink) (events : List InputEvent) : Sink :=
  { s with log := s.log ++ (s.judged events).toArray }

/-- No event is rejected. -/
def accepts (s : Sink) (events : List InputEvent) : Bool := (s.judged events).all Injected.accepted

variable (s : Sink) (events first second : List InputEvent)

@[simp] theorem offer_nil : s.offer [] = s := by simp [offer, judged]

@[simp] theorem accepts_nil : s.accepts [] = true := rfl

@[simp] theorem offer_rejects : (s.offer events).rejects = s.rejects := rfl

@[simp] theorem offer_next : (s.offer events).next = s.next + events.length := by
  simp [offer, next, judged]

theorem judged_append :
    s.judged (first ++ second) = s.judged first ++ (s.offer first).judged second := by
  simp [judged, List.zipIdx_append]

theorem offer_append : s.offer (first ++ second) = (s.offer first).offer second := by
  have log : (s.offer (first ++ second)).log = ((s.offer first).offer second).log := by
    simp [offer, judged_append]
  exact congrArg (Sink.mk · s.rejects) log

theorem accepts_append :
    s.accepts (first ++ second) = (s.accepts first && (s.offer first).accepts second) := by
  simp [accepts, judged_append]

theorem inject_eq (event : InputEvent) : s.inject event = (s.accepts [event], s.offer [event]) := by
  simp [inject, accepts, offer, judged]

@[simp] theorem injection_inject (event : InputEvent) :
    InjectionSink.inject s event = s.inject event := rfl

@[simp] theorem judged_events : (s.judged events).map Injected.event = events := by
  simp [judged, Function.comp_def]

theorem accepts_iff : s.accepts events ↔ ∀ entry ∈ s.judged events, entry.accepted := by
  simp [accepts]

theorem accepts_of_tolerant (tolerant : s.rejects = []) : s.accepts events = true := by
  simp [accepts, judged, tolerant]

theorem accepts_cons (event : InputEvent) :
    s.accepts (event :: events) = (s.accepts [event] && (s.offer [event]).accepts events) :=
  s.accepts_append [event] events

/-! Up to the first rejection -/

/-- Those of some planned events that come to the sink if no event follows a rejected one. -/
def untilRejected (s : Sink) : List InputEvent → List InputEvent
  | [] => []
  | event :: rest =>
    if s.accepts [event] then event :: (s.offer [event]).untilRejected rest else [event]

theorem untilRejected_prefix (s : Sink) (events : List InputEvent) :
    s.untilRejected events <+: events := by
  induction events generalizing s with
  | nil => exact List.prefix_rfl
  | cons event rest ih =>
    rw [untilRejected]
    split
    · exact List.cons_prefix_cons.mpr ⟨rfl, ih _⟩
    · exact ⟨rest, rfl⟩

/-- The events are the shortest beginning of the planned ones that ends with a rejected event, or
all of them if none is rejected. -/
def IsUntilRejected (s : Sink) (planned offered : List InputEvent) : Prop :=
  if s.accepts planned then offered = planned
  else ∃ front event, offered = front ++ [event] ∧ offered <+: planned ∧
    s.accepts front = true ∧ (s.offer front).accepts [event] = false

theorem untilRejected_of_accepts {s : Sink} {events : List InputEvent}
    (accepted : s.accepts events = true) : s.untilRejected events = events := by
  induction events generalizing s with
  | nil => rfl
  | cons event rest ih =>
    rw [accepts_cons, Bool.and_eq_true] at accepted
    rw [untilRejected, if_pos accepted.1, ih accepted.2]

theorem isUntilRejected (s : Sink) (planned : List InputEvent) :
    s.IsUntilRejected planned (s.untilRejected planned) := by
  unfold IsUntilRejected
  split
  · rename_i accepted
    exact untilRejected_of_accepts accepted
  · rename_i rejected
    induction planned generalizing s with
    | nil => exact absurd rfl rejected
    | cons event rest ih =>
      rw [accepts_cons, Bool.and_eq_true, not_and] at rejected
      rw [untilRejected]
      by_cases accepted : s.accepts [event] = true
      · obtain ⟨front, last, stops, part, before, here⟩ := ih _ (rejected accepted)
        rw [if_pos accepted, stops]
        refine ⟨event :: front, last, rfl, ?_, ?_, ?_⟩
        · rw [← stops]
          exact List.cons_prefix_cons.mpr ⟨rfl, part⟩
        · rw [accepts_cons, accepted, before, Bool.and_self]
        · rw [← List.singleton_append, offer_append]
          exact here
      · rw [if_neg accepted]
        refine ⟨[], event, rfl, ⟨rest, rfl⟩, rfl, ?_⟩
        rw [offer_nil]
        exact eq_false_of_ne_true accepted

end CorrelatedInput.Sink
