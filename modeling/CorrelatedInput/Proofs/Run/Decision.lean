import CorrelatedInput.Proofs.Run.Correlation
/-!
When a wait is decided. Waits read only at certain moments of a run, so the moment of a decision can
be looked up: it is the first one at which the wait has an outcome. A wait that is bound to bring a
notification is decided at the instant at which its condition holds, be the activity beside it short
or long.
-/
namespace CorrelatedInput

open Activity

namespace World

/-! The moments at which waits read -/

/-- Those while time passes: the worlds just after the reading. -/
def readingsFrom (enough : World → Bool) (limit : Nat) : Schedule → World → List World
  | [], _ => []
  | (time, notifications) :: rest, w =>
    if time < limit then
      let w := (w.arrive time notifications).settle
      w :: if enough w then [] else readingsFrom enough limit rest w
    else []

def passReadings (enough : World → Bool) (limit : Nat) (w : World) : List World :=
  match w.ending with
  | none => readingsFrom enough limit w.schedule w
  | some time =>
    if limit ≤ time then readingsFrom enough limit w.schedule w
    else
      let v := w.passEnding enough time
      readingsFrom enough time w.schedule w ++
        (if enough (w.passFrom enough time w.schedule) then [] else [v]) ++
          if enough v then [] else readingsFrom enough limit v.schedule v

def sleepReadings (milliseconds : Nat) (w : World) : List World :=
  if milliseconds = 0 then []
  else
    let v := w.settle
    v :: v.passReadings (fun _ => false) (w.now + milliseconds)

def awaitReadings (id : Nat) (w : World) : List World :=
  let v := w.settle
  v :: match v.outcome? id, v.deadline? id with
    | none, some deadline =>
      let enough := fun w : World => (w.outcome? id).isSome
      v.passReadings enough deadline ++ [(v.pass enough deadline).settle]
    | _, _ => []

def readings {α : Type} (w : World) : Activity α → List World
  | .done _ => []
  | .stop _ => []
  | .ask request next => (w.answer request).2.readings (next (w.answer request).1)
  | .sleep milliseconds next =>
    w.sleepReadings milliseconds ++ (w.sleep milliseconds).readings next
  | .await wait next => w.awaitReadings wait ++ (w.await wait).2.readings (next (w.await wait).1)

/-- When a wait is decided, and with which outcome, if it ever is. -/
def decision? (id : Nat) (moments : List World) : Option (Nat × Outcome) :=
  moments.findSome? fun w => (w.outcome? id).map fun o => (w.now, o)

section Readings

variable {α β : Type} {id : Nat}

theorem readings_bind (w : World) (a : Activity α) (f : α → Activity β) :
    w.readings (a >>= f) = w.readings a ++
      match w.run a with
      | (.ok x, v) => v.readings (f x)
      | (.error _, _) => [] := by
  change w.readings (a.andThen f) = _
  induction a generalizing w with
  | done x => rfl
  | stop cause => rfl
  | ask request next ih => exact ih _ _
  | sleep milliseconds next ih =>
    simp only [andThen, readings, ih, List.append_assoc]
    rfl
  | await wait next ih =>
    simp only [andThen, readings, ih, List.append_assoc]
    rfl

theorem decision?_append (l k : List World) :
    decision? id (l ++ k) = (decision? id l).or (decision? id k) := List.findSome?_append

theorem decision?_cons_of_undecided {w : World} (h : w.outcome? id = none) (l : List World) :
    decision? id (w :: l) = decision? id l := by simp [decision?, h]

theorem decision?_cons_of_decided {w : World} {o : Outcome} (h : w.outcome? id = some o)
    (l : List World) : decision? id (w :: l) = some (w.now, o) := by simp [decision?, h]

end Readings

/-- Either some moments bring the decision, or the wait is still undecided in the world after. -/
def Pending (id time : Nat) (n : Notification) (moments : List World) (after : World) : Prop :=
  decision? id moments = some (time, .ok n) ∨
    (decision? id moments = none ∧ after.outcome? id = none)

section Decision

variable {w : World} {s : Schedule} {id time : Nat} {others : List Subscriber} {own : Timeline}
  {n : Notification}

theorem Pending.append {l k : List World} {u v : World} (h : Pending id time n l u)
    (next : u.outcome? id = none → Pending id time n k v) : Pending id time n (l ++ k) v := by
  unfold Pending at *
  rw [decision?_append]
  rcases h with found | ⟨missing, undecided⟩
  · exact .inl (by rw [found, Option.some_or])
  · rw [missing, Option.none_or]
    exact next undecided

/-- A wait that is bound to bring a notification is decided when it reads, or stays undecided: that
its time is over cannot be found out before. -/
theorem Fated.settle_decision (h : Fated w s id others own time (.ok n))
    (undecided : w.outcome? id = none) (quiet : own.instant w.now = []) :
    Pending id time n [w.settle] w.settle := by
  rcases h with decided | ⟨wait, unread, name, waiting⟩
  · rw [decided.outcome?] at undecided
    cases undecided
  · have inTime : w.now ≤ wait.deadline := by
      cases waiting.destined with
      | late _ _ out => cases out
      | ahead inTime => exact inTime
    rcases waiting.settle quiet with ⟨after, found, past, exactly⟩ | still
    · have decided : Decided w.settle id others time (.ok n) :=
        ⟨_, [], by simpa using name, after, found, past⟩
      left
      rw [decision?_cons_of_decided decided.outcome?, settle_now, exactly inTime]
    · have missing := still.waiting.outcome? ((Wait.read_id _ _ _ _).trans name)
      right
      exact ⟨decision?_cons_of_undecided missing [], missing⟩

theorem Settled.passFrom_decision {enough : World → Bool} {limit : Nat}
    (h : Settled w s id others own time (.ok n)) (endless : w.ending = none)
    (undecided : w.outcome? id = none) (upcoming : Upcoming w.now s) (before : w.now < limit)
    (quiet : ∀ t, t < limit → own.instant t = [])
    (known : ∀ v, v.outcome? id = none → enough v = false) :
    Pending id time n (readingsFrom enough limit s w) (w.passFrom enough limit s) := by
  induction s generalizing w with
  | nil => exact .inr ⟨rfl, undecided⟩
  | cons m s ih =>
    have now := arrive_now upcoming
    simp only [readingsFrom, World.passFrom]
    split
    · rename_i first
      have gap := upcoming.gap (fun t ht => quiet t (by omega)) (fun _ => quiet _ before)
      have fated := h.elapse (v := w.arrive m.1 m.2) rfl (arrive_hub upcoming) rfl
        (by simp [endless]) (by rwa [now])
      have silent : own.instant (w.arrive m.1 m.2).now = [] := by
        rw [now]
        exact quiet _ first
      have tail : Upcoming (w.arrive m.1 m.2).settle.now s := by
        rw [settle_now, now]
        exact upcoming.tail.mono (Nat.le_succ _)
      rcases fated.settle_decision undecided silent with found | ⟨missing, still⟩
      · have found := congrArg (·.or (decision? id (if enough (w.arrive m.1 m.2).settle then []
          else readingsFrom enough limit s (w.arrive m.1 m.2).settle))) found
        exact .inl ((decision?_append [_] _).trans found)
      · simp only [known _ still, Bool.false_eq_true, if_false, Pending,
          decision?_cons_of_undecided still]
        exact ih (fated.settle silent) endless still tail (by rwa [settle_now, now])
    · split <;> exact .inr ⟨rfl, undecided⟩

theorem Settled.pass_decision {enough : World → Bool} {limit : Nat}
    (h : Settled w w.schedule id others own time (.ok n)) (endless : w.ending = none)
    (undecided : w.outcome? id = none) (upcoming : Upcoming w.now w.schedule)
    (before : w.now < limit) (quiet : ∀ t, t < limit → own.instant t = [])
    (known : ∀ v, v.outcome? id = none → enough v = false) :
    Pending id time n (w.passReadings enough limit) (w.pass enough limit) := by
  rw [passReadings, pass_eq_passFrom endless, endless]
  exact h.passFrom_decision endless undecided upcoming before quiet known

theorem Fated.sleep_decision {milliseconds : Nat}
    (h : Fated w w.schedule id others own time (.ok n)) (endless : w.ending = none)
    (undecided : w.outcome? id = none) (upcoming : Upcoming w.now w.schedule)
    (quiet : ∀ t, t < w.now + milliseconds → own.instant t = []) :
    Pending id time n (w.sleepReadings milliseconds) (w.sleep milliseconds) := by
  unfold sleepReadings World.sleep
  split
  · exact .inr ⟨rfl, undecided⟩
  · have before : w.now < w.now + milliseconds := by omega
    refine (h.settle_decision undecided (quiet _ before)).append (k := passReadings _ _ _) ?_
    intro still
    exact (h.settle (quiet _ before)).pass_decision endless still upcoming before quiet
      fun _ _ => rfl

/-- To await a wait that is bound to bring a notification brings its decision. -/
theorem Fated.await_decision (h : Fated w w.schedule id others [] time (.ok n))
    (endless : w.ending = none) (undecided : w.outcome? id = none) (ahead : Ahead w) :
    decision? id (w.awaitReadings id) = some (time, .ok n) := by
  have quiet (t : Nat) : Timeline.instant t [] = [] := rfl
  unfold awaitReadings
  rcases h.settle_decision undecided rfl with found | ⟨_, still⟩
  · exact (decision?_append [_] _).trans (by rw [found, Option.some_or])
  · rw [decision?_cons_of_undecided still]
    rcases h.settle rfl with decided | ⟨wait, name, rest⟩
    · rw [decided.outcome?] at still
      cases still
    · have due : w.settle.deadline? id = some wait.deadline := by
        rw [← name, rest.waiting.watching.deadline?]
      obtain ⟨decided, now⟩ := rest.await ahead.settle name
      have unknown (v : World) (h : v.outcome? id = none) : (v.outcome? id).isSome = false := by
        rw [h, Option.isSome_none]
      have passing := (h.settle rfl).pass_decision endless still ahead.upcoming rest.early
        (fun t _ => quiet t) unknown
      simp only [still, due, decision?_append]
      rcases passing with found | ⟨missing, _⟩
      · rw [found, Option.some_or]
      · rw [missing, Option.none_or, decision?_cons_of_decided decided.outcome?, now]

theorem Fated.run_decision {α : Type} {a : Activity α} (script : a.IsScript) {room : Nat}
    {w : World} (h : Fated w w.schedule id others (w.emits a) time (.ok n)) (steady : w.Steady room)
    (undecided : w.outcome? id = none) (ahead : Ahead w) :
    Pending id time n (w.readings a) (w.run a).2 := by
  induction a generalizing w with
  | done => exact .inr ⟨rfl, undecided⟩
  | stop => exact .inr ⟨rfl, rfl⟩
  | ask request next ih =>
    obtain ⟨sink, recorder, device, changes⟩ := answer_changes (w := w) script.1
    have waits : (w.answer request).2.outcome? id = none := by
      rw [changes]
      exact undecided
    exact ih _ (script.2 _) (h.answer script.1) (steady.answer request) waits
      (ahead.answer script.1)
  | sleep milliseconds next ih =>
    have quiet (t : Nat) (asleep : t < w.now + milliseconds) :=
      emits_asleep (a := next) script t asleep
    obtain ⟨fated, later⟩ := Fated.sleep h ahead quiet
    have passing := Fated.sleep_decision h steady.endless undecided ahead.upcoming quiet
    exact passing.append fun still => ih script fated (steady.sleep milliseconds) still later
  | await wait next => exact script.elim

end Decision

end World

end CorrelatedInput
