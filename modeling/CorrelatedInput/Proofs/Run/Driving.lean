import CorrelatedInput.Gesture.Controller
import CorrelatedInput.Proofs.Input.Sink
import CorrelatedInput.Proofs.Run.Alike
/-!
What an activity hands over to the sink, and when. One that waits for nothing sees no more of the
world than the time, the verdicts of the sink and the device; so all that it does can be written
down beforehand, and what two do one after the other is put together from what each does.
-/
namespace CorrelatedInput

/-- What driving input has to do with. -/
structure Bench where
  now : Nat
  sink : Sink
  device : Device

def World.bench (w : World) : Bench := ⟨w.now, w.sink, w.device⟩

theorem World.Alike.bench {w v : World} (h : Alike w v) : v.bench = w.bench := by
  obtain ⟨_, _, _, _, _, rfl⟩ := h
  rfl

namespace Bench

/-- The bench at a later time, when some events have been handed over. -/
def after (b : Bench) (events : List InputEvent) (time : Nat) : Bench :=
  ⟨time, b.sink.offer events, b.device⟩

variable (b : Bench) (events more : List InputEvent) (time later : Nat)

@[simp] theorem after_now : (b.after events time).now = time := rfl

@[simp] theorem after_sink : (b.after events time).sink = b.sink.offer events := rfl

@[simp] theorem after_nothing : b.after [] b.now = b := by
  simp only [after, Sink.offer_nil]

@[simp] theorem after_after :
    (b.after events time).after more later = b.after (events ++ more) later := by
  simp only [after, Sink.offer_append]

end Bench

namespace Activity

/-- Wherever the activity starts with this bench, it has this result, and it has handed over these
events when it ends, at this time. -/
def Drives {α : Type} (a : Activity α) (b : Bench) (result : Except Overflow α)
    (events : List InputEvent) (time : Nat) : Prop :=
  ∀ w : World, w.bench = b → (w.run a).1 = result ∧ (w.run a).2.bench = b.after events time

section Drives

variable {α β : Type} {b : Bench} {result : Except Overflow β} {events more : List InputEvent}
  {time later : Nat}

theorem drives_pure (x : α) : (pure x : Activity α).Drives b (.ok x) [] b.now := by
  rintro w rfl
  exact ⟨rfl, (Bench.after_nothing _).symm⟩

theorem Drives.bind {a : Activity α} {f : α → Activity β} {x : α}
    (ha : a.Drives b (.ok x) events time)
    (hf : (f x).Drives (b.after events time) result more later) :
    (a >>= f).Drives b result (events ++ more) later := by
  intro w start
  obtain ⟨value, reached⟩ := ha w start
  rw [World.run_bind]
  generalize w.run a = ran at value reached
  obtain ⟨r, v⟩ := ran
  cases value
  rw [← Bench.after_after]
  exact hf v reached

theorem Drives.map {a : Activity β} (f : β → α) (ha : a.Drives b result events time) :
    (f <$> a).Drives b (result.map f) events time := by
  intro w start
  obtain ⟨value, reached⟩ := ha w start
  rw [World.run_map, value]
  exact ⟨rfl, reached⟩

theorem drives_inject (event : InputEvent) :
    (inject event).Drives b (.ok (b.sink.accepts [event])) [event] b.now := by
  rintro w rfl
  have taken : w.run (inject event) = (.ok (w.inject event).1, (w.inject event).2) := rfl
  rw [taken]
  simp only [World.inject_eq, World.bench, Bench.after, Sink.inject_eq, and_self]

theorem drives_pause (milliseconds : Nat) :
    (pause milliseconds).Drives b (.ok ()) [] (b.now + pauseLength milliseconds) := by
  rintro w rfl
  have slept := (World.sleep_alike w (pauseLength milliseconds)).bench
  refine ⟨rfl, slept.trans ?_⟩
  simp only [World.bench, Bench.after, Sink.offer_nil]

/-! One step, and what comes after it -/

theorem Drives.stamp_bind {f : UInt64 → Activity β} (c : Controller)
    (h : (f (c.clock.stamp b.now)).Drives b result events time) :
    (c.stamp >>= f).Drives b result events time := by
  rintro w rfl
  exact h w rfl

theorem Drives.inject_bind {f : Bool → Activity β} {event : InputEvent}
    (h : (f (b.sink.accepts [event])).Drives (b.after [event] b.now) result events time) :
    (inject event >>= f).Drives b result (event :: events) time :=
  (drives_inject event).bind h

theorem Drives.pause_bind {f : Unit → Activity β} {milliseconds : Nat}
    (h : (f ()).Drives (b.after [] (b.now + pauseLength milliseconds)) result events time) :
    (pause milliseconds >>= f).Drives b result events time :=
  (drives_pause milliseconds).bind h

theorem drives_stop (cause : Overflow) (f : α → Activity β) :
    (ofExcept (.error cause) >>= f).Drives b (.error cause) [] b.now := by
  rintro w rfl
  exact ⟨rfl, (Bench.after_nothing _).symm⟩

theorem Drives.ofExcept_bind {f : α → Activity β} (x : α)
    (h : (f x).Drives b result events time) :
    (ofExcept (.ok x) >>= f).Drives b result events time := h

end Drives

/-! Up to the first rejection -/

/-- The activity hands over planned events, none of them after one that is rejected, and says
whether none is. It ends at this time. -/
def Plays (a : Activity Bool) (b : Bench) (planned : List InputEvent) (time : Nat) : Prop :=
  a.Drives b (.ok (b.sink.accepts planned)) (b.sink.untilRejected planned) time

section Plays

variable {b : Bench} {planned : List InputEvent} {time : Nat}

theorem plays_nothing : (pure true : Activity Bool).Plays b [] b.now := drives_pure true

theorem plays_inject (event : InputEvent) : (inject event).Plays b [event] b.now := by
  have one : b.sink.untilRejected [event] = [event] := by simp [Sink.untilRejected]
  rw [Plays, one]
  exact drives_inject event

theorem Plays.stamp_bind {f : UInt64 → Activity Bool} (c : Controller)
    (h : (f (c.clock.stamp b.now)).Plays b planned time) :
    (c.stamp >>= f).Plays b planned time :=
  Drives.stamp_bind c h

theorem Plays.pause_bind {f : Unit → Activity Bool} {milliseconds : Nat}
    (h : (f ()).Plays (b.after [] (b.now + pauseLength milliseconds)) planned time) :
    (pause milliseconds >>= f).Plays b planned time := by
  rw [Plays, Bench.after_sink, Sink.offer_nil] at h
  exact Drives.pause_bind h

/-- What follows an event is left out if the event is rejected. -/
theorem Plays.inject_bind {next : Activity Bool} {event : InputEvent}
    (h : next.Plays (b.after [event] b.now) planned time) :
    (inject event >>= fun accepted => if accepted then next else pure false).Plays b
      (event :: planned) (if b.sink.accepts [event] then time else b.now) := by
  rw [Plays, Sink.accepts_cons, Sink.untilRejected]
  cases accepted : b.sink.accepts [event] with
  | true =>
    simp only [Bool.true_and, if_true]
    apply Drives.inject_bind
    rw [accepted]
    exact h
  | false =>
    simp only [Bool.false_and, Bool.false_eq_true, if_false]
    apply Drives.inject_bind
    rw [accepted]
    exact drives_pure false

theorem Plays.inject_bind_atOnce {next : Activity Bool} {event : InputEvent}
    (h : next.Plays (b.after [event] b.now) planned b.now) :
    (inject event >>= fun accepted => if accepted then next else pure false).Plays b
      (event :: planned) b.now := by
  have both := h.inject_bind
  rwa [ite_self] at both

theorem Plays.of_tolerant {a : Activity Bool} (h : a.Plays b planned time)
    (tolerant : b.sink.rejects = []) : a.Drives b (.ok true) planned time := by
  have all := b.sink.accepts_of_tolerant planned tolerant
  rwa [Plays, Sink.untilRejected_of_accepts all, all] at h

end Plays

end Activity

namespace Controller

open Activity (pauseLength)

/-- Events that are made of items one after another, the first at `start` and with a pause between
each and the next. -/
def paced {α : Type} (c : Controller) (make : UInt64 → α → InputEvent) (start : Nat)
    (items : List α) : List InputEvent :=
  items.mapIdx fun i item => make (c.clock.stamp (start + i * pauseLength c.pace)) item

theorem pauses_succ (start pauses length : Nat) :
    start + (pauses + 1) * length = start + length + pauses * length := by
  rw [Nat.succ_mul]
  omega

theorem paced_cons {α : Type} (c : Controller) (make : UInt64 → α → InputEvent) (start : Nat)
    (item : α) (rest : List α) :
    c.paced make start (item :: rest) =
      make (c.clock.stamp start) item :: c.paced make (start + pauseLength c.pace) rest := by
  simp [paced, pauses_succ]

end Controller

end CorrelatedInput
