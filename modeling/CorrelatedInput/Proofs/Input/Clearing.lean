import CorrelatedInput.Proofs.Input.Sink
import Mathlib.Data.List.Induction
import Mathlib.Data.List.DropRight
/-!
A sink that is cleared now and then. What was handed over before counts no more: the ordinals that
are rejected are those since the log was last cleared, not those of all the events that the sink has
ever seen.
-/
namespace CorrelatedInput.Sink

inductive Use where
  | inject (event : InputEvent)
  | clear
deriving DecidableEq

namespace Use

def event? : Use → Option InputEvent
  | inject event => some event
  | clear => none

/-- Every event that was handed over. -/
def events (uses : List Use) : List InputEvent := uses.filterMap event?

/-- The events that were handed over since the log was last cleared. -/
def current (uses : List Use) : List InputEvent := events (uses.rtakeWhile (· ≠ clear))

variable (uses : List Use) (event : InputEvent)

theorem current_inject : current (uses ++ [inject event]) = current uses ++ [event] := by
  have kept : (uses ++ [inject event]).rtakeWhile (· ≠ clear) =
      uses.rtakeWhile (· ≠ clear) ++ [inject event] := List.rtakeWhile_concat_pos _ _ _ rfl
  rw [current, kept, events, List.filterMap_append]
  rfl

theorem current_clear : current (uses ++ [clear]) = [] := by
  have gone : (uses ++ [clear]).rtakeWhile (· ≠ clear) = [] :=
    List.rtakeWhile_concat_neg _ _ _ (by simp)
  rw [current, gone]
  rfl

theorem current_eq {uses : List Use} (uncleared : clear ∉ uses) : current uses = events uses := by
  have all : uses.rtakeWhile (· ≠ clear) = uses := by
    rw [List.rtakeWhile_eq_self_iff]
    intro use here
    simpa using fun same : use = clear => uncleared (same ▸ here)
  rw [current, all]

end Use

open Use (events current)

/-- All events that were handed over with the verdicts on them, and the sink after it all. -/
def serve (s : Sink) : List Use → List Injected × Sink
  | [] => ([], s)
  | .inject event :: uses =>
    let (accepted, next) := s.inject event
    let (history, last) := next.serve uses
    (⟨event, accepted⟩ :: history, last)
  | .clear :: uses => s.clear.serve uses

section Serve

variable (s : Sink) (ordinals : List Nat) (uses first second : List Use) (event : InputEvent)

theorem serve_append : s.serve (first ++ second) =
    ((s.serve first).1 ++ ((s.serve first).2.serve second).1,
      ((s.serve first).2.serve second).2) := by
  induction first generalizing s with
  | nil => rfl
  | cons use uses ih =>
    cases use with
    | inject event => simp only [List.cons_append, serve, ih]
    | clear => simp only [List.cons_append, serve, ih]

theorem serve_events : (s.serve uses).1.map Injected.event = events uses := by
  induction uses generalizing s with
  | nil => rfl
  | cons use uses ih =>
    cases use with
    | inject event => exact congrArg (event :: ·) (ih _)
    | clear => exact ih _

/-- What came before the log was last cleared has left no trace. -/
theorem serve_sink :
    ((rejecting ordinals).serve uses).2 = (rejecting ordinals).offer (current uses) := by
  induction uses using List.reverseRecOn with
  | nil => exact (offer_nil _).symm
  | append_singleton uses use ih =>
    rw [serve_append, ih]
    cases use with
    | inject event =>
      rw [Use.current_inject, offer_append]
      exact congrArg Prod.snd (inject_eq _ event)
    | clear =>
      rw [Use.current_clear, offer_nil]
      rfl

/-- The log holds the end of what was handed over, with the verdicts that were returned. -/
theorem serve_log : ((rejecting ordinals).serve uses).2.log.toList <:+
    ((rejecting ordinals).serve uses).1 := by
  induction uses using List.reverseRecOn with
  | nil => exact List.suffix_rfl
  | append_singleton uses use ih =>
    rw [serve_append]
    cases use with
    | inject event =>
      obtain ⟨old, same⟩ := ih
      refine ⟨old, ?_⟩
      simp [serve, inject, ← same]
    | clear => exact List.nil_suffix

theorem inject_offered (events : List InputEvent) :
    (((rejecting ordinals).offer events).inject event).1 = !ordinals.contains events.length := by
  have place : ((rejecting ordinals).offer events).next = events.length :=
    (offer_next _ events).trans (Nat.zero_add _)
  rw [inject, place]
  rfl

end Serve

/-- What a sink makes of any uses. An event is rejected just if the number of events that came
before it since the log was last cleared is marked; so while the log is not cleared, all events that
ever came count. The log holds, in order, the events since it was last cleared, with the verdicts
that were returned. -/
theorem ordinals_start_over (ordinals : List Nat) (uses : List Use) :
    let history := ((rejecting ordinals).serve uses).1
    let log := ((rejecting ordinals).serve uses).2.log.toList
    history.map Injected.event = events uses ∧
    (∀ front event back, uses = front ++ .inject event :: back →
      history[(events front).length]? =
        some ⟨event, !ordinals.contains (current front).length⟩ ∧
      (.clear ∉ front → current front = events front)) ∧
    log <:+ history ∧ log.map Injected.event = current uses := by
  intro history log
  refine ⟨serve_events _ uses, ?_, serve_log ordinals uses, ?_⟩
  · rintro front event back rfl
    refine ⟨?_, Use.current_eq⟩
    have place : (events front).length = ((rejecting ordinals).serve front).1.length := by
      rw [← serve_events (rejecting ordinals) front, List.length_map]
    have parts : history = ((rejecting ordinals).serve front).1 ++
        (((rejecting ordinals).serve front).2.serve (.inject event :: back)).1 :=
      congrArg Prod.fst (serve_append _ front _)
    rw [parts, place, List.getElem?_append_right (Nat.le_refl _), Nat.sub_self, serve_sink]
    have verdict := inject_offered ordinals event (current front)
    exact congrArg (fun accepted => some (Injected.mk event accepted)) verdict
  · have sink := serve_sink ordinals uses
    simp only [log, sink]
    simp [offer, rejecting]

/-- The second event after the log was cleared is rejected, as the second event of all was. -/
theorem ordinals_start_over_twice :
    let e : InputEvent := .key (.stamped 5 .down 66 0)
    let uses : List Use := [.inject e, .inject e, .clear, .inject e, .inject e]
    let (history, s) := (rejecting [1]).serve uses
    history[1]? = some ⟨e, false⟩ ∧ history[3]? = some ⟨e, false⟩ ∧
      s.log.toList.map Injected.event = [e, e] := by
  intro e uses
  obtain ⟨_, verdicts, _, log⟩ := ordinals_start_over [1] uses
  have second := (verdicts [.inject e] e [.clear, .inject e, .inject e] rfl).1
  have last := (verdicts [.inject e, .inject e, .clear, .inject e] e [] rfl).1
  exact ⟨second, last, log⟩

/-- So an event may be accepted although its ordinal among all events is marked. -/
theorem cleared_sink_forgets_ordinals :
    let e : InputEvent := .key (.stamped 5 .down 66 0)
    let history := ((rejecting [1]).serve [.inject e, .clear, .inject e]).1
    ¬ (∀ k entry, history[k]? = some entry → entry.accepted = !List.contains [1] k) ∧
      history[1]? = some ⟨e, true⟩ := by
  intro e history
  have accepted : history[1]? = some ⟨e, true⟩ := rfl
  refine ⟨?_, accepted⟩
  intro counted
  exact absurd (counted 1 _ accepted) (by decide)

end CorrelatedInput.Sink
