import CorrelatedInput.Input.Event
import CorrelatedInput.Proofs.Time.Clock
/-!
What a legal stream of input events is. A panel follows which pointers are down and which keys are
held, and takes an event only if it fits; and a stream is timely if a clock has stamped its events
in the order they have.
-/
namespace CorrelatedInput

/-- The ids of the first `n` pointers. -/
def pointerIds (n : Nat) : List UInt32 := (List.range n).map UInt32.ofNat

theorem pointerIds_succ (n : Nat) : pointerIds (n + 1) = pointerIds n ++ [UInt32.ofNat n] := by
  simp [pointerIds, List.range_succ]

theorem pointerIds_stable (n : Nat) : pointerIds n = pointerIds (pointerIds n).length := by
  simp [pointerIds]

/-- As long as there are ids left, the later pointers have other ids than the first one. -/
theorem pointerId_ne_zero {n : Nat} (other : 0 < n) (word : n < UInt32.size) : UInt32.ofNat n ≠ 0 := by
  intro zero
  have same := congrArg UInt32.toNat zero
  rw [UInt32.toNat_ofNat_of_lt' word] at same
  exact Nat.ne_of_gt other same

theorem pointerIds_eq_cons {n : Nat} (one : 0 < n) :
    pointerIds n = 0 :: (List.range' 1 (n - 1)).map UInt32.ofNat := by
  cases n with
  | zero => cases one
  | succ n => simp [pointerIds, List.range_eq_range', List.range'_succ]

theorem mem_pointerIds {n i : Nat} (h : i < n) : UInt32.ofNat i ∈ pointerIds n :=
  List.mem_map_of_mem (List.mem_range.mpr h)

theorem pointerIds_subset {m n : Nat} (h : m ≤ n) : pointerIds m ⊆ pointerIds n := by
  intro id hid
  obtain ⟨i, hi, rfl⟩ := List.mem_map.mp hid
  exact mem_pointerIds (Nat.lt_of_lt_of_le (List.mem_range.mp hi) h)

structure Panel where
  /-- The pointers that are down, in the order in which they went down. -/
  down : List UInt32
  /-- When the first of them did. -/
  since : UInt64
  /-- The keys that are held. -/
  held : List Int32
deriving DecidableEq

namespace Panel

/-- No pointer is down and no key is held. -/
def idle (since : UInt64) : Panel := ⟨[], since, []⟩

/-- A touch event carries every pointer that is down, and each pointer keeps its id. The first
pointer goes down when none is down, the `i`-th when exactly those before it are; only pointers that
are down move or are lifted, the last one by an event of its own. All events of a touch have the
time of its first one as their down time. -/
def touch? (p : Panel) (ids : List UInt32) (action : MotionAction) (downTime eventTime : UInt64) :
    Option Panel :=
  let finger := action.pointerIndex
  if ids = pointerIds ids.length ∧ p.down ⊆ ids then
    match action.kind with
    | .down =>
      if p.down = [] ∧ finger = 0 ∧ finger ∈ ids ∧ downTime = eventTime then
        some { p with down := [finger], since := eventTime }
      else none
    | .pointerDown =>
      if p.down = pointerIds finger.toNat ∧ finger ≠ 0 ∧ finger ∈ ids ∧ downTime = p.since then
        some { p with down := p.down ++ [finger] }
      else none
    | .move => if p.down ≠ [] ∧ ids ⊆ p.down ∧ downTime = p.since then some p else none
    | .pointerUp =>
      if finger ∈ p.down ∧ p.down ≠ [finger] ∧ downTime = p.since then
        some { p with down := p.down.erase finger }
      else none
    | .up => if p.down = [finger] ∧ downTime = p.since then some { p with down := [] } else none
  else none

/-- A key goes down when it is not held, and up when it is. -/
def key? (p : Panel) (e : KeyEvent) : Option Panel :=
  match e.action with
  | .down => if e.keyCode ∈ p.held then none else some { p with held := e.keyCode :: p.held }
  | .up =>
    if e.keyCode ∈ p.held then some { p with held := p.held.erase e.keyCode } else none

def take? (p : Panel) : InputEvent → Option Panel
  | .motion e => p.touch? (e.pointers.map Pointer.id) e.action e.downTime e.eventTime
  | .key e => p.key? e

def replay? (p : Panel) (events : List InputEvent) : Option Panel := events.foldlM take? p

theorem replay?_cons (p : Panel) (e : InputEvent) (rest : List InputEvent) :
    p.replay? (e :: rest) = (p.take? e).bind fun q => q.replay? rest := rfl

theorem replay?_append (p : Panel) (first second : List InputEvent) :
    p.replay? (first ++ second) = (p.replay? first).bind fun q => q.replay? second :=
  List.foldlM_append

/-- A panel that such events leave as it is. -/
theorem replay?_same {p : Panel} {events : List InputEvent} (h : ∀ e ∈ events, p.take? e = some p) :
    p.replay? events = some p := by
  induction events with
  | nil => rfl
  | cons e rest ih =>
    obtain ⟨here, there⟩ := List.forall_mem_cons.mp h
    rw [replay?_cons, here, Option.bind_some, ih there]

/-! The steps of a touch -/

section Touch

variable (start time : UInt64) (held : List Int32)

theorem touch?_down (since : UInt64) :
    (Panel.mk [] since held).touch? (pointerIds 1) ⟨.down, 0⟩ start start =
      some ⟨pointerIds 1, start, held⟩ := by
  simp [touch?, pointerIds]

theorem touch?_pointerDown {finger : Nat} (other : 0 < finger) (word : finger < UInt32.size) :
    (Panel.mk (pointerIds finger) start held).touch? (pointerIds (finger + 1))
      ⟨.pointerDown, UInt32.ofNat finger⟩ start time =
        some ⟨pointerIds (finger + 1), start, held⟩ := by
  have carried : pointerIds finger ⊆ pointerIds (finger + 1) :=
    pointerIds_subset (Nat.le_succ finger)
  have before : pointerIds finger = pointerIds (UInt32.ofNat finger).toNat := by
    rw [UInt32.toNat_ofNat_of_lt' word]
  have own : UInt32.ofNat finger ∈ pointerIds (finger + 1) := mem_pointerIds (Nat.lt_succ_self _)
  simp only [touch?]
  rw [if_pos ⟨pointerIds_stable _, carried⟩,
    if_pos ⟨before, pointerId_ne_zero other word, own, trivial⟩, pointerIds_succ]

theorem touch?_move {fingers : Nat} (one : 0 < fingers) :
    (Panel.mk (pointerIds fingers) start held).touch? (pointerIds fingers) ⟨.move, 0⟩ start time =
      some ⟨pointerIds fingers, start, held⟩ := by
  have down : pointerIds fingers ≠ [] := List.ne_nil_of_mem (mem_pointerIds one)
  simp only [touch?]
  rw [if_pos ⟨pointerIds_stable _, List.Subset.refl _⟩, if_pos ⟨down, List.Subset.refl _, trivial⟩]

theorem touch?_pointerUp {finger fingers : Nat} (other : 0 < finger) (word : finger < UInt32.size)
    {rest : List UInt32} (carried : 0 :: UInt32.ofNat finger :: rest ⊆ pointerIds fingers) :
    (Panel.mk (0 :: UInt32.ofNat finger :: rest) start held).touch? (pointerIds fingers)
      ⟨.pointerUp, UInt32.ofNat finger⟩ start time = some ⟨0 :: rest, start, held⟩ := by
  have different : UInt32.ofNat finger ≠ 0 := pointerId_ne_zero other word
  have lifted : (0 :: UInt32.ofNat finger :: rest).erase (UInt32.ofNat finger) = 0 :: rest := by
    simp [different.symm]
  simp only [touch?]
  rw [if_pos ⟨pointerIds_stable _, carried⟩, if_pos ⟨by simp, by simp, trivial⟩, lifted]

theorem touch?_up :
    (Panel.mk (pointerIds 1) start held).touch? (pointerIds 1) ⟨.up, 0⟩ start time =
      some ⟨[], start, held⟩ := by
  simp [touch?, pointerIds]

end Touch

end Panel

/-- The clock stamped the events in their order, from `start` to `finish` on the timeline of the
run, and each belongs to something that began no later. -/
inductive Timely (clock : Clock) : Nat → Nat → List InputEvent → Prop
  | nil {start finish : Nat} (forward : start ≤ finish) : Timely clock start finish []
  | cons {start began time finish : Nat} {event : InputEvent} {rest : List InputEvent}
    (next : start ≤ time) (since : began ≤ time) (stamped : event.eventTime = clock.stamp time)
    (down : event.downTime = clock.stamp began) (others : Timely clock time finish rest) :
    Timely clock start finish (event :: rest)

namespace Timely

variable {clock : Clock} {start middle finish : Nat} {events more : List InputEvent}

theorem forward (h : Timely clock start finish events) : start ≤ finish := by
  induction h with
  | nil forward => exact forward
  | cons next _ _ _ _ ih => exact Nat.le_trans next ih

theorem earlier (h : Timely clock middle finish events) (before : start ≤ middle) :
    Timely clock start finish events := by
  cases h with
  | nil forward => exact .nil (Nat.le_trans before forward)
  | cons next since stamped down others =>
    exact .cons (Nat.le_trans before next) since stamped down others

theorem append (first : Timely clock start middle events)
    (second : Timely clock middle finish more) : Timely clock start finish (events ++ more) := by
  induction first with
  | nil forward => exact second.earlier forward
  | cons next since stamped down _ ih => exact .cons next since stamped down (ih second)

/-- Events at one time. -/
theorem sameTime {began time : Nat} (since : began ≤ time)
    (h : ∀ e ∈ events, e.eventTime = clock.stamp time ∧ e.downTime = clock.stamp began) :
    Timely clock time time events := by
  induction events with
  | nil => exact .nil (Nat.le_refl time)
  | cons e rest ih =>
    obtain ⟨⟨stamped, down⟩, others⟩ := List.forall_mem_cons.mp h
    exact .cons (Nat.le_refl time) since stamped down (ih others)

/-- While the clock has room, what it shows is in order. -/
theorem ordered (h : Timely clock start finish events) (room : finish - clock.start < UInt64.size) :
    (∀ e ∈ events, clock.stamp start ≤ e.eventTime ∧ e.downTime ≤ e.eventTime) ∧
      events.Pairwise fun e f => e.eventTime ≤ f.eventTime := by
  induction h with
  | nil => exact ⟨List.forall_mem_nil _, .nil⟩
  | @cons start began time finish e rest next since stamped down others ih =>
    obtain ⟨after, sorted⟩ := ih room
    have short : time - clock.start < UInt64.size := by
      have := others.forward
      omega
    have first : clock.stamp start ≤ e.eventTime := stamped ▸ Clock.stamp_le next short
    refine ⟨List.forall_mem_cons.mpr ⟨⟨first, ?_⟩, ?_⟩, List.pairwise_cons.mpr ⟨?_, sorted⟩⟩
    · rw [stamped, down]
      exact Clock.stamp_le since short
    · intro f hf
      refine ⟨?_, (after f hf).2⟩
      exact UInt64.le_trans (Clock.stamp_le next short) (after f hf).1
    · intro f hf
      rw [stamped]
      exact (after f hf).1

end Timely

end CorrelatedInput
