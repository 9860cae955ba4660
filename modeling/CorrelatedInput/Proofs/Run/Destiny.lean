import CorrelatedInput.Proofs.Run.Watching
/-!
What becomes of a wait, known before it happens.

At every moment of a run the outcome is fixed by what the wait has not read, by what others will
publish, by what the activity will publish and by the end of the stream. Time passing, publishing
and reading move notifications from the future to the unread and on to the condition, and leave the
outcome alone; when the stream ends there is nothing left to wait for.
-/
namespace CorrelatedInput

/-- At the moment `now` a wait that is not decided is bound to have the outcome `o`, decided at
`time`. -/
inductive Destined (room now : Nat) (ending : Option Nat) (wait : Wait) (unread : List Notification)
    (others own : Timeline) (time : Nat) (o : Outcome) : Prop where
  /-- Its deadline has passed, and it has yet to find that out. -/
  | late (past : wait.deadline < now) (same : time = wait.deadline)
      (out : o = .error (.timedOut wait.timeout))
  | ahead (inTime : now ≤ wait.deadline)
      (verdict : wait.verdict ending
        (Timeline.ahead room now wait.deadline unread others own) = (time, o))

/-- From `now` on nobody publishes before the instant `later`; `rest` is what others publish after
it. The activity may go on at that instant, unless it is still the same. -/
structure Gap (now later : Nat) (others rest own : Timeline) : Prop where
  forward : now ≤ later
  nothing : ∀ t, t < later → others.instant t = []
  remain : ∀ t, later < t → rest.instant t = others.instant t
  gone : rest.instant later = []
  quiet : ∀ t, t < later → own.instant t = []
  start : now = later → own.instant now = []

section Gap

variable {room now later deadline : Nat} {others rest own : Timeline}

theorem Gap.instants_eq_nil (gap : Gap now later others rest own) {count : Nat}
    (inside : now + 1 + count ≤ later) :
    Timeline.instants room others own (now + 1) count = [] := by
  apply Timeline.instants_eq_nil
  · intro t _ high
    exact gap.nothing t (by omega)
  · intro t _ high
    exact gap.quiet t (by omega)

/-- What lies ahead stays the same while time passes up to the end of a gap. -/
theorem Gap.ahead_eq (gap : Gap now later others rest own) (undue : now < deadline)
    (inTime : later ≤ deadline) :
    Timeline.ahead room later deadline (others.instant later) rest own =
      Timeline.ahead room now deadline [] others own := by
  have tail : Timeline.instants room rest own (later + 1) (deadline - later) =
      Timeline.instants room others own (later + 1) (deadline - later) := by
    apply Timeline.instants_congr
    · intro t low _
      exact gap.remain t (by omega)
    · intro _ _ _
      rfl
  rcases Nat.eq_or_lt_of_le gap.forward with rfl | forward
  · simp [Timeline.ahead, tail, gap.gone, gap.start rfl, undue]
  · -- the instants before `later` are silent, so `later` is the first of those that count
    have whole : deadline - now = (later - now - 1) + (1 + (deadline - later)) := by omega
    have first : now + 1 + (later - now - 1) = later := by omega
    have silent : Timeline.instants room others own (now + 1) (later - now - 1) = [] :=
      gap.instants_eq_nil (by omega)
    have here : Timeline.instants room others own later 1 =
        Timeline.moment later (newest room (others.instant later ++ own.instant later)) := by
      simp [Timeline.instants]
    simp [Timeline.ahead, tail, gap.gone, whole, Timeline.instants_add, first, silent, here,
      gap.nothing now forward, gap.quiet now forward]

/-- A gap stays one when what comes after the end of a stream is left out. -/
theorem Gap.upTo (gap : Gap now later others rest own) (ending : Option Nat) :
    Gap now later (others.upTo ending) (rest.upTo ending) (own.upTo ending) where
  forward := gap.forward
  nothing t before := Timeline.instant_upTo_eq_nil (gap.nothing t before) ending
  remain t after := by rw [Timeline.instant_upTo, Timeline.instant_upTo, gap.remain t after]
  gone := Timeline.instant_upTo_eq_nil gap.gone ending
  quiet t before := Timeline.instant_upTo_eq_nil (gap.quiet t before) ending
  start same := Timeline.instant_upTo_eq_nil (gap.start same) ending

end Gap

section Steps

variable {room now : Nat} {ending : Option Nat} {wait : Wait} {unread : List Notification}
  {others own : Timeline} {time : Nat} {o : Outcome}

theorem Destined.publish {ns : List Notification} {own' : Timeline}
    (h : Destined room now ending wait unread others (Timeline.moment now ns ++ own') time o) :
    Destined room now ending wait (unread ++ ns) others own' time o := by
  cases h with
  | late past same out => exact .late past same out
  | ahead inTime verdict =>
    refine .ahead inTime (verdict ▸ congrArg (wait.verdict ending) ?_)
    have same : Timeline.instants room others (Timeline.moment now ns ++ own') (now + 1)
        (wait.deadline - now) = Timeline.instants room others own' (now + 1)
          (wait.deadline - now) := by
      apply Timeline.instants_congr
      · intro _ _ _
        rfl
      · intro t low _
        have other : now ≠ t := by omega
        simp [Timeline.instant_moment_of_ne other]
    simp [Timeline.ahead, same]

theorem Destined.read (h : Destined room now ending wait unread others own time o)
    (going : ∀ e ∈ ending, now ≤ e) (quiet : own.instant now = []) :
    let next := wait.read now (newest room unread) .pending
    (next.outcome = some o ∧ time ≤ now ∧ (now ≤ wait.deadline → time = now)) ∨
      (next.outcome = none ∧ now < next.deadline ∧
        Destined room now ending next [] others own time o) := by
  cases h with
  | late past same out =>
    have timedOut := Wait.read_late past (newest room unread) .pending
    exact .inl ⟨out ▸ timedOut, by omega, by omega⟩
  | ahead inTime verdict =>
    simp only [Timeline.ahead, quiet, List.append_nil, List.append_assoc] at verdict
    rcases Wait.read_verdict inTime going (fun last => by simp [last, Timeline.instants]) verdict
      with ⟨found, here⟩ | ⟨missing, before, later⟩
    · exact .inl ⟨found, Nat.le_of_eq here, fun _ => here⟩
    · refine .inr ⟨missing, by simpa using before, ?_⟩
      apply Destined.ahead
      · simpa using inTime
      · simpa [Timeline.ahead, quiet] using later

theorem Destined.advance {later : Nat} {rest : Timeline}
    (h : Destined room now ending wait [] others own time o) (undue : now < wait.deadline)
    (gap : Gap now later others rest own) (going : ∀ e ∈ ending, later ≤ e) :
    Destined room later ending wait (others.instant later) rest own time o := by
  cases h with
  | late past => omega
  | ahead inTime verdict =>
    by_cases missed : wait.deadline < later
    · have span : Timeline.instants room others own (now + 1) (wait.deadline - now) = [] :=
        gap.instants_eq_nil (by omega)
      have silent : Timeline.ahead room now wait.deadline [] others own = [] := by
        simp [Timeline.ahead, span, gap.nothing now (by omega), gap.quiet now (by omega)]
      have late : ∀ e ∈ ending, wait.deadline ≤ e :=
        fun e he => Nat.le_trans (Nat.le_of_lt missed) (going e he)
      rw [silent] at verdict
      obtain ⟨rfl, rfl⟩ := Prod.mk.inj ((expiry_of_le late wait.timeout).symm.trans verdict)
      exact .late missed rfl rfl
    · have inTime : later ≤ wait.deadline := by omega
      refine .ahead inTime ?_
      rw [gap.ahead_eq undue inTime]
      exact verdict

/-- When its stream ends, a wait is decided by what it has not read. -/
theorem Destined.last (h : Destined room now (some now) wait unread others own time o)
    (apart : now ≠ wait.deadline) (nothing : ∀ t, now ≤ t → others.instant t = [])
    (quiet : ∀ t, now ≤ t → own.instant t = []) :
    (wait.read now (newest room unread) .closed).outcome = some o ∧ time ≤ now ∧
      (now ≤ wait.deadline → time = now) := by
  cases h with
  | late past same out =>
    have timedOut := Wait.read_late past (newest room unread) .closed
    exact ⟨out ▸ timedOut, by omega, by omega⟩
  | ahead inTime verdict =>
    have silent : Timeline.instants room others own (now + 1) (wait.deadline - now) = [] := by
      apply Timeline.instants_eq_nil
      · intro t low _
        exact nothing t (by omega)
      · intro t low _
        exact quiet t (by omega)
    have last : Timeline.ahead room now wait.deadline unread others own =
        Timeline.moment now (newest room unread) := by
      simp [Timeline.ahead, silent, nothing now (Nat.le_refl _), quiet now (Nat.le_refl _)]
    rw [last] at verdict
    obtain ⟨found, here⟩ := Wait.read_verdict_last (by omega) verdict
    exact ⟨found, Nat.le_of_eq here, fun _ => here⟩

end Steps

/-- What others will publish: instants in order, none of them past. -/
structure Upcoming (now : Nat) (s : Schedule) : Prop where
  ordered : s.Ordered
  future : ∀ m ∈ s, now ≤ m.1

section Upcoming

variable {now : Nat} {m : Nat × List Notification} {s : Schedule} {own : Timeline}

theorem Upcoming.mono {earlier : Nat} (h : Upcoming now s) (le : earlier ≤ now) :
    Upcoming earlier s := by
  constructor
  · exact h.ordered
  · intro m hm
    exact Nat.le_trans le (h.future m hm)

theorem Upcoming.tail (h : Upcoming now (m :: s)) : Upcoming (m.1 + 1) s := by
  obtain ⟨first, ordered⟩ := List.pairwise_cons.mp h.ordered
  constructor
  · exact ordered
  · exact first

theorem Upcoming.cons {later : Nat} (h : Upcoming now (m :: s)) (first : later ≤ m.1) :
    Upcoming later (m :: s) := by
  constructor
  · exact h.ordered
  · intro k hk
    rcases List.mem_cons.mp hk with rfl | hk
    · exact first
    · have := h.tail.future k hk
      omega

theorem Upcoming.instant_eq_nil (h : Upcoming now s) {t : Nat} (past : t < now) :
    s.timeline.instant t = [] := by
  apply Schedule.timeline_instant_eq_nil
  intro k hk
  have := h.future k hk
  omega

theorem Upcoming.instant_first (h : Upcoming now (m :: s)) :
    (Schedule.timeline (m :: s)).instant m.1 = m.2 := by
  simp [h.tail.instant_eq_nil (Nat.lt_succ_self m.1)]

theorem Upcoming.gap (h : Upcoming now (m :: s)) (quiet : ∀ t, t < m.1 → own.instant t = [])
    (start : now = m.1 → own.instant now = []) :
    Gap now m.1 (Schedule.timeline (m :: s)) s.timeline own := by
  have first (t : Nat) (other : m.1 ≠ t) :
      (Schedule.timeline (m :: s)).instant t = s.timeline.instant t := by
    simp [Timeline.instant_moment_of_ne other]
  exact {
    forward := h.future m List.mem_cons_self
    nothing := fun t before => (first t (by omega)).trans (h.tail.instant_eq_nil (by omega))
    remain := fun t after => (first t (by omega)).symm
    gone := h.tail.instant_eq_nil (Nat.lt_succ_self m.1)
    quiet
    start }

theorem Upcoming.gap_of_future {limit : Nat} (h : Upcoming (limit + 1) s) (before : now ≤ limit)
    (quiet : ∀ t, t < limit → own.instant t = []) (start : now = limit → own.instant now = []) :
    Gap now limit s.timeline s.timeline own where
  forward := before
  nothing t ht := h.instant_eq_nil (by omega)
  remain _ _ := rfl
  gone := h.instant_eq_nil (Nat.lt_succ_self limit)
  quiet := quiet
  start := start

end Upcoming

namespace World

variable {w : World} {s : Schedule} {wait : Wait} {unread : List Notification} {id time : Nat}
  {others : List Subscriber} {own : Timeline} {o : Outcome}

/-- The stream of the hub goes on up to this moment, and does not end at this deadline. -/
structure Streams (w : World) (deadline : Nat) : Prop where
  isOpen : w.hub.isOpen = true
  going : ∀ e ∈ w.ending, w.now ≤ e
  apart : ∀ e ∈ w.ending, e ≠ deadline

/-- A wait that is not decided is bound to have the outcome `o`, decided at `time`, if others
publish `s` from now on and the activity its `own`. -/
structure Waiting (w : World) (s : Schedule) (wait : Wait) (others : List Subscriber)
    (unread : List Notification) (own : Timeline) (time : Nat) (o : Outcome) : Prop where
  watching : Watching w wait others unread
  outcome : wait.outcome = none
  streams : Streams w wait.deadline
  destined : Destined w.hub.limit w.now w.ending wait unread (s.timeline.upTo w.ending)
    (own.upTo w.ending) time o

/-- The same, after the wait has read all there is to read now. It has time left. -/
structure Open (w : World) (s : Schedule) (wait : Wait) (others : List Subscriber)
    (own : Timeline) (time : Nat) (o : Outcome) : Prop where
  waiting : Waiting w s wait others [] own time o
  early : w.now < wait.deadline

/-- The wait `id` has the outcome `o`, since `time` at the latest. -/
def Decided (w : World) (id : Nat) (others : List Subscriber) (time : Nat) (o : Outcome) : Prop :=
  ∃ wait unread, wait.id = id ∧ Watching w wait others unread ∧ wait.outcome = some o ∧
    time ≤ w.now

theorem Waiting.settle (h : Waiting w s wait others unread own time o)
    (quiet : own.instant w.now = []) :
    let next := wait.read w.now (newest w.hub.limit unread) .pending
    (Watching w.settle next others [] ∧ next.outcome = some o ∧ time ≤ w.now ∧
        (w.now ≤ wait.deadline → time = w.now)) ∨
      Open w.settle s next others own time o := by
  obtain ⟨after, limit, isOpen⟩ := h.watching.settle h.outcome
  rw [if_pos h.streams.isOpen] at after
  rcases h.destined.read h.streams.going (Timeline.instant_upTo_eq_nil quiet _) with
    found | ⟨missing, early, rest⟩
  · exact .inl ⟨after, found⟩
  · have streams :
        Streams w.settle (wait.read w.now (newest w.hub.limit unread) .pending).deadline := by
      rw [Wait.read_deadline]
      exact ⟨isOpen.trans h.streams.isOpen, h.streams.going, h.streams.apart⟩
    exact .inr ⟨⟨after, missing, streams, limit ▸ rest⟩, early⟩

/-- When the stream ends, the wait is decided by what it has not read. -/
theorem Waiting.endStream (h : Waiting w s wait others unread own time o)
    (now : w.ending = some w.now) (rest : Upcoming (w.now + 1) s) (quiet : own.instant w.now = []) :
    let last := wait.read w.now (newest w.hub.limit unread) .closed
    Watching w.endStream.settle last others [] ∧ last.outcome = some o ∧ time ≤ w.now ∧
      (w.now ≤ wait.deadline → time = w.now) := by
  obtain ⟨watching, outcome, ⟨_, _, apart⟩, destined⟩ := h
  obtain ⟨after, _, _⟩ := watching.endStream.settle outcome
  rw [now] at destined
  -- nothing is left to be read but what was published up to now
  have nothing (l : Timeline) (here : l.instant w.now = []) (t : Nat) (le : w.now ≤ t) :
      (l.upTo (some w.now)).instant t = [] := by
    rcases Nat.eq_or_lt_of_le le with rfl | beyond
    · exact Timeline.instant_upTo_eq_nil here _
    · exact Timeline.instant_upTo_of_lt beyond l
  exact ⟨after, destined.last (apart _ now)
    (nothing _ (rest.instant_eq_nil (Nat.lt_succ_self _))) (nothing _ quiet)⟩

theorem Open.elapse (h : Open w s wait others own time o) {v : World} {rest : Schedule}
    (waits : v.waits = w.waits) (hub : v.hub = w.hub.publishAll (s.timeline.instant v.now))
    (ending : v.ending = w.ending) (going : ∀ e ∈ w.ending, v.now ≤ e)
    (gap : Gap w.now v.now s.timeline rest.timeline own) :
    Waiting v rest wait others (s.timeline.instant v.now) own time o := by
  obtain ⟨watching, outcome, streams, destined⟩ := h.waiting
  have heard := watching.publishes waits hub
  rw [Hub.heard_eq streams.isOpen, List.nil_append] at heard
  have after := destined.advance h.early (gap.upTo w.ending) going
  rw [Timeline.instant_upTo_of_le going, ← ending] at after
  refine ⟨heard, outcome, ⟨?_, ?_, ?_⟩, ?_⟩
  · rw [hub, Hub.publishAll_isOpen, streams.isOpen]
  · rwa [ending]
  · rw [ending]
    exact streams.apart
  · rw [hub, Hub.publishAll_limit]
    exact after

/-- The wait `id` is bound to have the outcome `o`, decided at `time`, if others publish `s` from
now on and the activity its `own`. -/
def Fated (w : World) (s : Schedule) (id : Nat) (others : List Subscriber) (own : Timeline)
    (time : Nat) (o : Outcome) : Prop :=
  Decided w id others time o ∨
    ∃ wait unread, wait.id = id ∧ Waiting w s wait others unread own time o

/-- The same, after the wait has read all there is to read now. -/
def Settled (w : World) (s : Schedule) (id : Nat) (others : List Subscriber) (own : Timeline)
    (time : Nat) (o : Outcome) : Prop :=
  Decided w id others time o ∨ ∃ wait, wait.id = id ∧ Open w s wait others own time o

/-! Waits that are decided -/

theorem Decided.settle (h : Decided w id others time o) : w.settle = w := by
  obtain ⟨wait, unread, _, watching, outcome, _⟩ := h
  exact watching.settle_decided outcome

theorem Decided.past (h : Decided w id others time o) : time ≤ w.now := by
  obtain ⟨_, _, _, _, _, past⟩ := h
  exact past

theorem Decided.elapse (h : Decided w id others time o) {v : World} {ns : List Notification}
    (waits : v.waits = w.waits) (hub : v.hub = w.hub.publishAll ns) (forward : w.now ≤ v.now) :
    Decided v id others time o := by
  obtain ⟨wait, unread, name, watching, outcome, past⟩ := h
  exact ⟨wait, _, name, watching.publishes waits hub, outcome, Nat.le_trans past forward⟩

theorem Decided.endStream (h : Decided w id others time o) :
    Decided w.endStream id others time o := by
  obtain ⟨wait, unread, name, watching, outcome, past⟩ := h
  exact ⟨wait, unread, name, watching.endStream, outcome, past⟩

/-! One step of time -/

theorem Waiting.withSchedule (h : Waiting w s wait others unread own time o) (k : Schedule) :
    Waiting { w with schedule := k } s wait others unread own time o := by
  obtain ⟨watching, outcome, ⟨isOpen, going, apart⟩, destined⟩ := h
  exact ⟨watching.withSchedule k, outcome, ⟨isOpen, going, apart⟩, destined⟩

theorem Decided.withSchedule (h : Decided w id others time o) (k : Schedule) :
    Decided { w with schedule := k } id others time o := by
  obtain ⟨wait, unread, name, watching, outcome, past⟩ := h
  exact ⟨wait, unread, name, watching.withSchedule k, outcome, past⟩

theorem Fated.withSchedule (h : Fated w s id others own time o) (k : Schedule) :
    Fated { w with schedule := k } s id others own time o := by
  rcases h with decided | ⟨wait, unread, name, waiting⟩
  · exact .inl (decided.withSchedule k)
  · exact .inr ⟨wait, unread, name, waiting.withSchedule k⟩

theorem Fated.settle (h : Fated w s id others own time o) (quiet : own.instant w.now = []) :
    Settled w.settle s id others own time o := by
  rcases h with decided | ⟨wait, unread, name, waiting⟩
  · rw [decided.settle]
    exact .inl decided
  · rcases waiting.settle quiet with ⟨after, found, past, _⟩ | rest
    · exact .inl ⟨_, [], by simpa using name, after, found, past⟩
    · exact .inr ⟨_, by simpa using name, rest⟩

theorem Settled.elapse (h : Settled w s id others own time o) {v : World} {rest : Schedule}
    (waits : v.waits = w.waits) (hub : v.hub = w.hub.publishAll (s.timeline.instant v.now))
    (ending : v.ending = w.ending) (going : ∀ e ∈ w.ending, v.now ≤ e)
    (gap : Gap w.now v.now s.timeline rest.timeline own) :
    Fated v rest id others own time o := by
  rcases h with decided | ⟨wait, name, still⟩
  · exact .inl (decided.elapse waits hub gap.forward)
  · exact .inr ⟨wait, _, name, still.elapse waits hub ending going gap⟩

theorem Fated.endStream (h : Fated w s id others own time o) (now : w.ending = some w.now)
    (rest : Upcoming (w.now + 1) s) (quiet : own.instant w.now = []) :
    Decided w.endStream.settle id others time o := by
  rcases h with decided | ⟨wait, unread, name, waiting⟩
  · rw [decided.endStream.settle]
    exact decided.endStream
  · obtain ⟨after, found, past, _⟩ := waiting.endStream now rest quiet
    exact ⟨_, [], by simpa using name, after, found, past⟩

theorem arrive_now {m : Nat × List Notification} (upcoming : Upcoming w.now (m :: s)) :
    (w.arrive m.1 m.2).now = m.1 :=
  Nat.max_eq_right (upcoming.future m List.mem_cons_self)

theorem arrive_hub {m : Nat × List Notification} (upcoming : Upcoming w.now (m :: s)) :
    (w.arrive m.1 m.2).hub =
      w.hub.publishAll ((Schedule.timeline (m :: s)).instant (w.arrive m.1 m.2).now) := by
  rw [arrive_now upcoming, upcoming.instant_first]
  rfl

theorem wake_gap {limit : Nat} (rest : Upcoming (limit + 1) s) (before : w.now ≤ limit)
    (quiet : ∀ t, t < limit → own.instant t = []) (start : w.now = limit → own.instant w.now = []) :
    let v := { w with now := max w.now limit, schedule := s }
    v.now = limit ∧ v.hub = w.hub.publishAll (s.timeline.instant v.now) ∧
      Gap w.now v.now s.timeline s.timeline own := by
  have now : max w.now limit = limit := Nat.max_eq_right before
  have silent : s.timeline.instant limit = [] := rest.instant_eq_nil (Nat.lt_succ_self limit)
  simp only [now, silent]
  exact ⟨trivial, rfl, rest.gap_of_future before quiet start⟩

theorem passFrom_ending (enough : World → Bool) (limit : Nat) (s : Schedule) (w : World) :
    (w.passFrom enough limit s).ending = w.ending := by
  induction s generalizing w with
  | nil => rfl
  | cons m s ih =>
    simp only [passFrom]
    split
    · split
      · rfl
      · exact ih (w.arrive m.1 m.2).settle
    · split <;> rfl

/-- Time passes up to `limit`, which is not after the end of the stream. -/
theorem Settled.passFrom {limit : Nat} (h : Settled w s id others own time o)
    (upcoming : Upcoming w.now s) (before : w.now ≤ limit) (going : ∀ e ∈ w.ending, limit ≤ e)
    (quiet : ∀ t, t < limit → own.instant t = []) (start : w.now = limit → own.instant w.now = []) :
    let v := World.passFrom (fun _ => false) limit s w
    Fated v v.schedule id others own time o ∧ Upcoming (limit + 1) v.schedule := by
  have wake {w : World} {s : Schedule} (h : Settled w s id others own time o)
      (before : w.now ≤ limit) (going : ∀ e ∈ w.ending, limit ≤ e)
      (start : w.now = limit → own.instant w.now = []) (rest : Upcoming (limit + 1) s) :
      Fated { w with now := max w.now limit, schedule := s } s id others own time o ∧
        Upcoming (limit + 1) s := by
    obtain ⟨now, hub, gap⟩ := wake_gap rest before quiet start
    exact ⟨h.elapse rfl hub rfl (by rwa [now]) gap, rest⟩
  -- one instant of the schedule after the other, as far as the pause reaches
  induction s generalizing w with
  | nil => exact wake h before going start ⟨.nil, by simp⟩
  | cons m s ih =>
    have now := arrive_now upcoming
    have future := upcoming.future m List.mem_cons_self
    simp only [World.passFrom]
    split
    · rename_i first
      have silent : own.instant (w.arrive m.1 m.2).now = [] := by
        rw [now]
        exact quiet _ first
      have gap := upcoming.gap (fun t ht => quiet t (by omega)) (fun _ => quiet _ (by omega))
      have fated := h.elapse (v := w.arrive m.1 m.2) rfl (arrive_hub upcoming) rfl
        (fun e he => by have := going e he; omega) (by rwa [now])
      have tail : Upcoming (w.arrive m.1 m.2).settle.now s := by
        rw [settle_now, now]
        exact upcoming.tail.mono (Nat.le_succ _)
      apply ih (fated.settle silent) tail
      · rw [settle_now, now]
        exact Nat.le_of_lt first
      · exact going
      · intro last
        exact silent
    · split
      · rename_i last
        subst last
        have gap := upcoming.gap quiet start
        have fated := h.elapse (v := w.arrive m.1 m.2) rfl (arrive_hub upcoming) rfl
          (by rwa [now]) (by rwa [now])
        exact ⟨fated.withSchedule s, upcoming.tail⟩
      · exact wake h before going start (upcoming.cons (by omega))

/-- Neither what others will publish nor the end of the stream is past. -/
structure Ahead (w : World) : Prop where
  upcoming : Upcoming w.now w.schedule
  ending : ∀ e ∈ w.ending, w.now ≤ e

theorem Ahead.settle (h : Ahead w) : Ahead w.settle := ⟨h.upcoming, h.ending⟩

theorem Ahead.answer (h : Ahead w) {r : Request} (plain : ¬ r.Listens) : Ahead (w.answer r).2 := by
  obtain ⟨sink, recorder, device, changes⟩ := answer_changes (w := w) plain
  rw [changes]
  exact ⟨h.upcoming, h.ending⟩

/-- Up to the end of the stream, and the wait is decided. -/
theorem Settled.passEnding {ending : Nat} (h : Settled w w.schedule id others own time o)
    (ahead : Ahead w) (ends : w.ending = some ending)
    (quiet : ∀ t, t ≤ ending → own.instant t = []) :
    let v := w.passEnding (fun _ => false) ending
    Decided v id others time o ∧ v.now = ending ∧ Ahead v ∧ v.ending = none := by
  have before : w.now ≤ ending := ahead.ending ending ends
  obtain ⟨fated, rest⟩ := h.passFrom ahead.upcoming before (by simp [ends])
    (fun t ht => quiet t (Nat.le_of_lt ht)) (fun _ => quiet _ before)
  have now : (World.passFrom (fun _ => false) ending w.schedule w).now = ending :=
    passFrom_now before
  simp only [World.passEnding, Bool.false_eq_true, if_false]
  refine ⟨?_, now, ⟨?_, by simp [settle, World.endStream]⟩, rfl⟩
  · apply fated.endStream
    · rw [passFrom_ending, ends, now]
    · rwa [now]
    · rw [now]
      exact quiet _ (Nat.le_refl _)
  · change Upcoming (World.passFrom _ _ _ w).now _
    rw [now]
    exact rest.mono (Nat.le_succ _)

theorem Settled.pass {limit : Nat} (h : Settled w w.schedule id others own time o) (ahead : Ahead w)
    (before : w.now < limit) (quiet : ∀ t, t < limit → own.instant t = []) :
    let v := w.pass (fun _ => false) limit
    Fated v v.schedule id others own time o ∧ Ahead v := by
  have arrives {w : World} (h : Settled w w.schedule id others own time o) (ahead : Ahead w)
      (before : w.now < limit) (going : ∀ e ∈ w.ending, limit ≤ e) :
      let v := World.passFrom (fun _ => false) limit w.schedule w
      Fated v v.schedule id others own time o ∧ Ahead v := by
    intro v
    obtain ⟨fated, rest⟩ :=
      h.passFrom ahead.upcoming (Nat.le_of_lt before) going quiet fun _ => quiet _ before
    have now : v.now = limit := passFrom_now (Nat.le_of_lt before)
    refine ⟨fated, ?_, ?_⟩
    · rw [now]
      exact rest.mono (Nat.le_succ _)
    · rw [passFrom_ending, now]
      exact going
  unfold World.pass
  split
  · rename_i endless
    exact arrives h ahead before (by simp [endless])
  · rename_i ending ends
    split
    · rename_i later
      exact arrives h ahead before (by simpa [ends] using later)
    · rename_i early
      obtain ⟨decided, now, ahead, endless⟩ :=
        h.passEnding ahead ends fun t ht => quiet t (by omega)
      simp only [Bool.false_eq_true, if_false]
      exact arrives (.inl decided) ahead (by omega) (by simp [endless])

theorem Fated.sleep {milliseconds : Nat} (h : Fated w w.schedule id others own time o)
    (ahead : Ahead w) (quiet : ∀ t, t < w.now + milliseconds → own.instant t = []) :
    Fated (w.sleep milliseconds) (w.sleep milliseconds).schedule id others own time o ∧
      Ahead (w.sleep milliseconds) := by
  unfold World.sleep
  split
  · exact ⟨h, ahead⟩
  · have before : w.now < w.now + milliseconds := by omega
    exact (h.settle (quiet _ before)).pass ahead.settle before quiet

theorem Fated.answer {r : Request} {own : Timeline} (plain : ¬ r.Listens)
    (h : Fated w w.schedule id others (Timeline.moment w.now (w.announced r) ++ own) time o) :
    Fated (w.answer r).2 (w.answer r).2.schedule id others own time o := by
  obtain ⟨sink, recorder, device, changes⟩ := answer_changes (w := w) plain
  rw [changes]
  rcases h with decided | ⟨wait, unread, name, watching, outcome, streams, destined⟩
  · exact .inl (decided.elapse rfl rfl (Nat.le_refl _))
  · have heard := watching.publishes (v := { w with
        sink, recorder, device, hub := w.hub.publishAll (w.announced r) }) rfl rfl
    rw [Hub.heard_eq streams.isOpen] at heard
    rw [Timeline.upTo_moment_append streams.going] at destined
    refine .inr ⟨wait, _, name, heard, outcome, ⟨?_, streams.going, streams.apart⟩, ?_⟩
    · simpa using streams.isOpen
    · rw [Hub.publishAll_limit]
      exact destined.publish

theorem Decided.closeAll (h : Decided w id others time o) :
    w.closeAll.hub.subscribers = others := by
  obtain ⟨wait, unread, _, watching, _, _⟩ := h
  exact watching.closeAll

theorem Fated.closeAll (h : Fated w s id others own time o) :
    w.closeAll.hub.subscribers = others := by
  rcases h with decided | ⟨wait, unread, _, waiting⟩
  · exact decided.closeAll
  · exact waiting.watching.closeAll

/-- An activity that never waits leaves what is bound to happen to a wait as it is; one that stops
takes the wait with it. -/
theorem Fated.run {α : Type} {a : Activity α} (script : a.IsScript) {w : World}
    (h : Fated w w.schedule id others (w.emits a) time o) (ahead : Ahead w) :
    match w.run a with
    | (.ok _, v) => Fated v v.schedule id others [] time o ∧ Ahead v
    | (.error _, v) => v.waits = [] ∧ v.hub.subscribers = others := by
  induction a generalizing w with
  | done => exact ⟨h, ahead⟩
  | stop => exact ⟨rfl, h.closeAll⟩
  | ask request next ih =>
    exact ih _ (script.2 _) (h.answer script.1) (ahead.answer script.1)
  | sleep milliseconds next ih =>
    obtain ⟨fated, later⟩ := Fated.sleep h ahead (emits_asleep (a := next) script)
    exact ih script fated later
  | await wait next => exact script.elim

end World

end CorrelatedInput
