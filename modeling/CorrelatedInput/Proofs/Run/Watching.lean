import CorrelatedInput.Proofs.Run.Activity
/-!
A wait that listens to the hub while the world goes on: its place among the subscribers, and what
it has not read yet. Publishing adds to the unread, and reading feeds the newest of it to the
condition.
-/
namespace CorrelatedInput

/-- When a wait is over whose condition never holds, and what it brings then: its stream may end
before its deadline. -/
def expiry (ending : Option Nat) (deadline timeout : Nat) : Nat × Outcome :=
  match ending.filter (· < deadline) with
  | some e => (e, .error .streamClosed)
  | none => (deadline, .error (.timedOut timeout))

theorem expiry_of_le {ending : Option Nat} {deadline : Nat} (late : ∀ e ∈ ending, deadline ≤ e)
    (timeout : Nat) : expiry ending deadline timeout = (deadline, .error (.timedOut timeout)) := by
  have none : ending.filter (· < deadline) = none := by
    rw [Option.filter_eq_none_iff]
    intro e he
    simpa using late e he
  rw [expiry, none]

theorem expiry_of_lt {ending deadline : Nat} (early : ending < deadline) (timeout : Nat) :
    expiry (some ending) deadline timeout = (ending, .error .streamClosed) := by
  simp [expiry, Option.filter, early]

/-- What a wait for a condition brings that sees a timeline, and when: the first notification at
which the condition holds, or else how it expires. -/
def Condition.verdict (c : Condition) (expiry : Nat × Outcome) (l : Timeline) : Nat × Outcome :=
  match c.satisfaction? l with
  | some (time, n) => (time, .ok n)
  | none => expiry

def Wait.verdict (ending : Option Nat) (wait : Wait) : Timeline → Nat × Outcome :=
  wait.condition.verdict (expiry ending wait.deadline wait.timeout)

namespace Wait

variable (wait : Wait) (now : Nat) (ns : List Notification) (after : Reception)

theorem read_changes :
    ∃ condition outcome, wait.read now ns after = { wait with condition, outcome } := by
  unfold read
  split
  · exact ⟨_, _, rfl⟩
  · split
    · exact ⟨_, _, rfl⟩
    · exact ⟨_, _, rfl⟩

@[simp] theorem read_id : (wait.read now ns after).id = wait.id := by
  obtain ⟨condition, outcome, changes⟩ := wait.read_changes now ns after
  rw [changes]

@[simp] theorem read_subscription :
    (wait.read now ns after).subscription = wait.subscription := by
  obtain ⟨condition, outcome, changes⟩ := wait.read_changes now ns after
  rw [changes]

@[simp] theorem read_deadline : (wait.read now ns after).deadline = wait.deadline := by
  obtain ⟨condition, outcome, changes⟩ := wait.read_changes now ns after
  rw [changes]

@[simp] theorem settle_id (hub : Hub) : (wait.settle now hub).1.id = wait.id := by
  unfold settle
  split
  · rfl
  · rfl
  · exact wait.read_id now _ _

theorem read_late {wait : Wait} {now : Nat} (late : wait.deadline < now)
    (ns : List Notification) (after : Reception) :
    (wait.read now ns after).outcome = some (.error (.timedOut wait.timeout)) := by
  simp [read, late]

section Verdict

variable {wait : Wait} {now time : Nat} {ns : List Notification} {o : Outcome}

theorem read_verdict {ending : Option Nat} {rest : Timeline} (inTime : now ≤ wait.deadline)
    (going : ∀ e ∈ ending, now ≤ e) (last : now = wait.deadline → rest = [])
    (h : wait.verdict ending (Timeline.moment now ns ++ rest) = (time, o)) :
    ((wait.read now ns .pending).outcome = some o ∧ time = now) ∨
      ((wait.read now ns .pending).outcome = none ∧ now < wait.deadline ∧
        (wait.read now ns .pending).verdict ending rest = (time, o)) := by
  have early : ¬ wait.deadline < now := Nat.not_lt_of_le inTime
  simp only [verdict, Condition.verdict, Condition.satisfaction?_moment_append] at h
  cases fed : wait.condition.feed ns with
  | mk condition found =>
    cases found with
    | some n =>
      simp only [fed, Prod.mk.injEq] at h
      refine .inl ⟨?_, h.1.symm⟩
      simp [read, early, fed, h.2]
    | none =>
      simp only [fed] at h
      by_cases due : wait.deadline = now
      · rw [last due.symm, Condition.satisfaction?_nil] at h
        have h := (expiry_of_le (due ▸ going) wait.timeout).symm.trans h
        obtain ⟨rfl, rfl⟩ := Prod.mk.inj h
        refine .inl ⟨?_, due⟩
        simp [read, fed, due]
      · refine .inr ⟨?_, by omega, ?_⟩
        · simp [read, early, fed, due]
        · simpa [read, early, fed, verdict, Condition.verdict] using h

/-- A wait that reads the last of a stream that has ended brings what it finds there, or nothing. -/
theorem read_verdict_last (inTime : now < wait.deadline)
    (h : wait.verdict (some now) (Timeline.moment now ns) = (time, o)) :
    (wait.read now ns .closed).outcome = some o ∧ time = now := by
  have early : ¬ wait.deadline < now := Nat.not_lt_of_lt inTime
  rw [← List.append_nil (Timeline.moment now ns)] at h
  simp only [verdict, Condition.verdict, Condition.satisfaction?_moment_append] at h
  cases fed : wait.condition.feed ns with
  | mk condition found =>
    cases found with
    | some n =>
      simp only [fed, Prod.mk.injEq] at h
      refine ⟨?_, h.1.symm⟩
      simp [read, early, fed, h.2]
    | none =>
      simp only [fed, Condition.satisfaction?_nil, expiry_of_lt inTime, Prod.mk.injEq] at h
      refine ⟨?_, h.1.symm⟩
      simp [read, early, fed, h.2]

end Verdict

end Wait

namespace World

/-- One wait listens, beside whoever else subscribes to the hub, and has not read `unread`. -/
structure Watching (w : World) (wait : Wait) (others : List Subscriber)
    (unread : List Notification) : Prop where
  alone : w.waits = [wait]
  listens : ∃ id next, wait.subscription = some id ∧
    w.hub.subscribers = others ++ [⟨id, next⟩] ∧ (∀ s ∈ others, s.id ≠ id) ∧
    next ≤ w.hub.published.size ∧ w.hub.published.toList.drop next = unread

section Watching

variable {w : World} {wait : Wait} {others : List Subscriber} {unread : List Notification}

theorem Watching.publishes (h : Watching w wait others unread) {v : World}
    {ns : List Notification} (waits : v.waits = w.waits) (hub : v.hub = w.hub.publishAll ns) :
    Watching v wait others (unread ++ w.hub.heard ns) := by
  obtain ⟨id, next, subscribed, place, apart, inside, rest⟩ := h.listens
  have bound : next ≤ w.hub.published.toList.length := by simpa using inside
  refine ⟨waits.trans h.alone, id, next, subscribed, ?_, apart, ?_, ?_⟩
  · rw [hub, Hub.publishAll_subscribers, place]
  · rw [hub, ← Array.length_toList, Hub.publishAll_published, List.length_append]
    omega
  · rw [hub, Hub.publishAll_published, List.drop_append_of_le_length bound, rest]

theorem Watching.withSchedule (h : Watching w wait others unread) (s : Schedule) :
    Watching { w with schedule := s } wait others unread := by
  constructor
  · exact h.alone
  · exact h.listens

theorem Watching.endStream (h : Watching w wait others unread) :
    Watching w.endStream wait others unread := by
  constructor
  · exact h.alone
  · exact h.listens

theorem Watching.settle (h : Watching w wait others unread) (undecided : wait.outcome = none) :
    let after := if w.hub.isOpen then Reception.pending else .closed
    Watching w.settle (wait.read w.now (newest w.hub.limit unread) after) others [] ∧
      w.settle.hub.limit = w.hub.limit ∧ w.settle.hub.isOpen = w.hub.isOpen := by
  intro after
  obtain ⟨id, next, subscribed, place, apart, inside, rest⟩ := h.listens
  let drained : Hub := { w.hub with subscribers := others ++ [⟨id, w.hub.published.size⟩] }
  have told : drained.receive id = (after, drained) := Hub.receive_last rfl apart
  have read : wait.settle w.now w.hub =
      (wait.read w.now (newest w.hub.limit unread) after, drained) := by
    simp only [Wait.settle, undecided, subscribed, Hub.drain_last place apart, rest]
    rw [told]
  have settled : w.settle = { w with
      waits := [wait.read w.now (newest w.hub.limit unread) after]
      hub := drained } := by
    simp only [World.settle, h.alone, settleAll, read]
  rw [settled]
  refine ⟨⟨rfl, id, w.hub.published.size, ?_, rfl, apart, Nat.le_refl _, ?_⟩, rfl, rfl⟩
  · simp [subscribed]
  · simp [drained]

theorem Watching.settle_decided (h : Watching w wait others unread) {o : Outcome}
    (decided : wait.outcome = some o) : w.settle = w := by
  have idle : wait.settle w.now w.hub = (wait, w.hub) := by simp [Wait.settle, decided]
  have same : settleAll w.now w.waits w.hub = (w.waits, w.hub) := by
    simp only [h.alone, settleAll, idle]
  simp only [World.settle, same]

theorem Watching.closeAll (h : Watching w wait others unread) :
    w.closeAll.hub.subscribers = others := by
  obtain ⟨id, next, subscribed, place, apart, _, _⟩ := h.listens
  simpa [World.closeAll, h.alone, unsubscribe, subscribed] using Hub.unsubscribe_last place apart

end Watching

end World

end CorrelatedInput
