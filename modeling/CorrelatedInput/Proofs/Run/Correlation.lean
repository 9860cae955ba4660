import CorrelatedInput.Proofs.Run.Destiny
import CorrelatedInput.Proofs.Run.Rest
/-!
What a correlated wait brings, and when it ends. A wait on a stream that has ended brings nothing,
whatever goes on beside it.
-/
namespace CorrelatedInput

namespace World

variable {w : World} {s : Schedule} {wait : Wait} {unread : List Notification}
  {id time deadline : Nat} {others : List Subscriber} {own : Timeline} {o : Outcome}

theorem Watching.outcome? (h : Watching w wait others unread) :
    w.outcome? wait.id = wait.outcome := by
  simp [World.outcome?, h.alone]

theorem Watching.deadline? (h : Watching w wait others unread) :
    w.deadline? wait.id = some wait.deadline := by
  simp [World.deadline?, h.alone]

theorem Watching.close (h : Watching w wait others unread) :
    (w.close wait.id).waits = [] ∧ (w.close wait.id).hub.subscribers = others := by
  obtain ⟨id, next, subscribed, place, apart, _, _⟩ := h.listens
  constructor
  · simp [World.close, h.alone]
  · simpa [World.close, h.alone, unsubscribe, subscribed] using Hub.unsubscribe_last place apart

theorem Decided.outcome? (h : Decided w id others time o) : w.outcome? id = some o := by
  obtain ⟨wait, unread, rfl, watching, outcome, _⟩ := h
  rw [watching.outcome?, outcome]

theorem Waiting.outcome? (h : Waiting w s wait others unread own time o) (name : wait.id = id) :
    w.outcome? id = none := by
  rw [← name, h.watching.outcome?, h.outcome]

/-! What time brings to somebody who does nothing but wait -/

/-- At its deadline a wait is decided. -/
theorem Waiting.expire (h : Waiting w s wait others unread [] time o)
    (now : w.now = wait.deadline) :
    Decided w.settle wait.id others time o ∧ w.now = time := by
  rcases h.settle rfl with ⟨after, found, past, exactly⟩ | still
  · exact ⟨⟨_, [], by simp, after, found, past⟩, (exactly (Nat.le_of_eq now)).symm⟩
  · have early := still.early
    rw [settle_now, Wait.read_deadline, now] at early
    exact absurd early (Nat.lt_irrefl _)

/-- Time passes until the wait is decided, or else up to `limit`, which is neither after its
deadline nor after the end of its stream. -/
theorem Open.passFrom {limit : Nat} (h : Open w s wait others [] time o) (name : wait.id = id)
    (due : wait.deadline = deadline) (upcoming : Upcoming w.now s) (before : w.now ≤ limit)
    (within : limit ≤ deadline) (going : ∀ e ∈ w.ending, limit ≤ e) :
    let v := World.passFrom (fun w => (w.outcome? id).isSome) limit s w
    (Decided v id others time o ∧ v.now = time) ∨
      ∃ next unread, next.id = id ∧ next.deadline = deadline ∧
        Waiting v v.schedule next others unread [] time o ∧ v.now = limit ∧
        Upcoming (limit + 1) v.schedule := by
  have quiet (t : Nat) : Timeline.instant t [] = [] := rfl
  have wake {w : World} {s : Schedule} {wait : Wait} (h : Open w s wait others [] time o)
      (before : w.now ≤ limit) (going : ∀ e ∈ w.ending, limit ≤ e) (rest : Upcoming (limit + 1) s) :
      let v := { w with now := max w.now limit, schedule := s }
      Waiting v s wait others (s.timeline.instant v.now) [] time o ∧ v.now = limit := by
    obtain ⟨now, hub, gap⟩ := wake_gap rest before (fun t _ => quiet t) fun _ => quiet _
    exact ⟨h.elapse rfl hub rfl (by rwa [now]) gap, now⟩
  -- one instant of the schedule after the other, until the wait is decided or time is up
  induction s generalizing w wait with
  | nil =>
    have rest : Upcoming (limit + 1) [] := ⟨.nil, by simp⟩
    obtain ⟨waiting, now⟩ := wake h before going rest
    exact .inr ⟨wait, _, name, due, waiting, now, rest⟩
  | cons m s ih =>
    have now := arrive_now upcoming
    have gap := upcoming.gap (fun t _ => quiet t) (fun _ => quiet _)
    rw [← now] at gap
    have arrived (here : m.1 ≤ limit) := h.elapse (v := w.arrive m.1 m.2) rfl
      (arrive_hub upcoming) rfl (fun e he => by have := going e he; omega) gap
    simp only [World.passFrom]
    split
    · rename_i first
      rcases (arrived (Nat.le_of_lt first)).settle (quiet _) with
        ⟨after, found, past, exactly⟩ | still
      · have decided : Decided (w.arrive m.1 m.2).settle id others time o :=
          ⟨_, [], by simpa using name, after, found, past⟩
        simp only [decided.outcome?, Option.isSome_some, if_true]
        exact .inl ⟨decided.withSchedule s, (exactly (by omega)).symm⟩
      · have missing := still.waiting.outcome? ((Wait.read_id _ _ _ _).trans name)
        simp only [missing, Option.isSome_none, Bool.false_eq_true, if_false]
        have rest : Upcoming (w.arrive m.1 m.2).settle.now s := by
          rw [settle_now, now]
          exact upcoming.tail.mono (Nat.le_succ _)
        apply ih still (by simpa using name) (by simpa using due) rest _ going
        rw [settle_now, now]
        exact Nat.le_of_lt first
    · split
      · rename_i last
        subst last
        exact .inr ⟨wait, _, name, due, (arrived (Nat.le_refl _)).withSchedule s, now,
          upcoming.tail⟩
      · have rest : Upcoming (limit + 1) (m :: s) := upcoming.cons (by omega)
        obtain ⟨waiting, now⟩ := wake h before going rest
        exact .inr ⟨wait, _, name, due, waiting, now, rest⟩

/-- Whoever awaits a wait goes on when it is decided. -/
theorem Open.await (h : Open w w.schedule wait others [] time o) (ahead : Ahead w)
    (name : wait.id = id) :
    let v := (w.pass (fun w => (w.outcome? id).isSome) wait.deadline).settle
    Decided v id others time o ∧ v.now = time := by
  have decided {v : World} (h : Decided v id others time o ∧ v.now = time) :
      Decided v.settle id others time o ∧ v.settle.now = time := by
    rw [h.1.settle]
    exact h
  have undisturbed (going : ∀ e ∈ w.ending, wait.deadline ≤ e) :
      let v := (World.passFrom (fun w => (w.outcome? id).isSome) wait.deadline w.schedule w).settle
      Decided v id others time o ∧ v.now = time := by
    rcases h.passFrom name rfl ahead.upcoming (Nat.le_of_lt h.early) (Nat.le_refl _) going with
      found | ⟨next, unread, rfl, due, waiting, now, _⟩
    · exact decided found
    · exact waiting.expire (now.trans due.symm)
  unfold World.pass
  split
  · rename_i endless
    exact undisturbed (by simp [endless])
  · rename_i ending ends
    split
    · rename_i later
      exact undisturbed (by simpa [ends] using later)
    · rename_i early
      -- the stream ends before the deadline, unless the wait is decided even before that
      have upToEnding : Decided (w.passEnding (fun w => (w.outcome? id).isSome) ending) id others
          time o ∧ (w.passEnding (fun w => (w.outcome? id).isSome) ending).now = time := by
        unfold World.passEnding
        rcases h.passFrom name rfl ahead.upcoming (ahead.ending ending ends) (by omega)
          (by simp [ends]) with found | ⟨next, unread, rfl, due, waiting, now, rest⟩
        · simp only [found.1.outcome?, Option.isSome_some, if_true]
          exact found
        · simp only [waiting.outcome? rfl, Option.isSome_none, Bool.false_eq_true, if_false]
          obtain ⟨after, found, past, exactly⟩ :=
            waiting.endStream (by rw [passFrom_ending, ends, now]) (by rwa [now]) rfl
          exact ⟨⟨_, [], by simp, after, found, past⟩, (exactly (by omega)).symm⟩
      simp only [upToEnding.1.outcome?, Option.isSome_some, if_true]
      exact decided upToEnding

theorem Fated.await (h : Fated w w.schedule id others [] time o) (ahead : Ahead w) :
    (w.await id).1 = o ∧ (w.await id).2.now = max w.now time ∧ (w.await id).2.waits = [] ∧
      (w.await id).2.hub.subscribers = others := by
  have finish {v : World} (decided : Decided v id others time o) :
      (v.outcome? id).getD (.error .streamClosed) = o ∧ (v.close id).waits = [] ∧
        (v.close id).hub.subscribers = others := by
    rw [decided.outcome?]
    obtain ⟨wait, unread, rfl, watching, _, _⟩ := decided
    exact ⟨rfl, watching.close⟩
  rcases h.settle rfl with decided | ⟨wait, name, still⟩
  · have close := finish decided
    have past : time ≤ w.now := decided.past
    simp only [World.await, decided.outcome?] at close ⊢
    exact ⟨close.1, (Nat.max_eq_left past).symm, close.2⟩
  · have due : w.settle.deadline? id = some wait.deadline := by
      rw [← name, still.waiting.watching.deadline?]
    obtain ⟨decided, now⟩ := still.await ahead.settle name
    have forward : w.now ≤ time := by
      rw [← now]
      exact pass_forward _ _ w.settle
    have close := finish decided
    simp only [World.await, still.waiting.outcome? name, due]
    exact ⟨close.1, now.trans (Nat.max_eq_right forward).symm, close.2⟩

/-- A wait with so much time may begin: nobody else waits, the hub is open, and its stream does not
end just when that time is over. -/
structure Ready (room timeout : Nat) (w : World) : Prop where
  idle : w.waits = []
  sound : w.hub.Sound room
  ending : ∀ e ∈ w.ending, w.now ≤ e ∧ e ≠ w.now + timeout

/-- A wait that begins to listen is bound to bring what its condition makes of what lies ahead. -/
theorem listen_fated {room timeout : Nat} {w : World} (ready : w.Ready room timeout)
    (condition : Condition) (own : Timeline) :
    let d := condition.verdict (expiry w.ending (w.now + timeout) timeout)
      (Timeline.ahead room w.now (w.now + timeout) [] (w.schedule.timeline.upTo w.ending)
        (own.upTo w.ending))
    let v := (w.listen .hub condition timeout).2
    Fated v v.schedule w.opened w.hub.subscribers own d.1 d.2 := by
  refine .inr ⟨⟨w.opened, some w.hub.nextId, condition, timeout, w.now + timeout, none⟩, [], rfl,
    ⟨?_, w.hub.nextId, w.hub.published.size, rfl, rfl, ?_, Nat.le_refl _, ?_⟩, rfl,
    ⟨ready.sound.isOpen, fun e he => (ready.ending e he).1, fun e he => (ready.ending e he).2⟩,
    .ahead (Nat.le_add_right _ _) ?_⟩
  · simp [listen, ready.idle, Hub.subscribe]
  · intro s hs
    exact Nat.ne_of_lt (ready.sound.known s hs)
  · simp [listen, Hub.subscribe]
  · rw [← ready.sound.room]
    rfl

theorem run_correlate {α : Type} (w : World) (source : Source) (action : Activity α)
    (condition : Condition) (timeout : Nat) :
    w.run (Activity.correlate source action condition timeout) =
      match (w.listen source condition timeout).2.run action with
      | (.ok a, u) => (.ok (a, (u.await w.opened).1), (u.await w.opened).2)
      | (.error cause, u) => (.error cause, u) := by
  change (w.listen source condition timeout).2.run
    (action >>= fun a => Activity.await w.opened Activity.done >>= fun o => pure (a, o)) = _
  rw [run_bind]
  obtain ⟨r, u⟩ := (w.listen source condition timeout).2.run action
  cases r <;> rfl

theorem runAndWait_eq {α : Type} {source : Source} {action : Activity α} {timeout : Nat}
    {mode : WaitMode} {kinds : KindSet} {condition : Condition}
    (made : Condition.make mode kinds = .ok condition) :
    Activity.runAndWait source action timeout mode kinds =
      (fun p => .ok (p.1, p.2.toOption)) <$>
        Activity.correlate source action condition timeout := by
  simp only [Activity.runAndWait, made]
  rfl

/-- A wait that brings nothing is no failure, whatever the cause. -/
theorem run_runAndWait {α : Type} (w : World) (source : Source) (action : Activity α)
    (timeout : Nat) {mode : WaitMode} {kinds : KindSet} {condition : Condition}
    (made : Condition.make mode kinds = .ok condition) :
    w.run (Activity.runAndWait source action timeout mode kinds) =
      match (w.listen source condition timeout).2.run action with
      | (.ok a, u) => (.ok (.ok (a, (u.await w.opened).1.toOption)), (u.await w.opened).2)
      | (.error cause, u) => (.error cause, u) := by
  rw [runAndWait_eq made, run_map, run_correlate]
  obtain ⟨r, u⟩ := (w.listen source condition timeout).2.run action
  cases r <;> rfl

/-! Streams that have ended -/

/-- Whoever waits under this name listens to a stream that has ended, and has found out nothing
else. The name is never given to another wait. -/
def Deaf (w : World) (id : Nat) : Prop :=
  id < w.opened ∧ ∀ wait ∈ w.waits, wait.id = id →
    wait.subscription = none ∧ ∀ o, wait.outcome = some o → o = .error .streamClosed

theorem listen_deaf (known : ∀ wait ∈ w.waits, wait.id < w.opened) (condition : Condition)
    (timeout : Nat) : Deaf (w.listen .ended condition timeout).2 w.opened := by
  constructor
  · exact Nat.lt_succ_self _
  · intro wait member name
    rcases List.mem_append.mp member with before | new
    · exact absurd name (Nat.ne_of_lt (known wait before))
    · rw [List.mem_singleton.mp new]
      simp

theorem mem_settleAll {now : Nat} {after : Wait} {waits : List Wait} {hub : Hub}
    (member : after ∈ (settleAll now waits hub).1) :
    ∃ wait ∈ waits, ∃ hub, (wait.settle now hub).1 = after := by
  induction waits generalizing hub with
  | nil => cases member
  | cons wait rest ih =>
    rcases List.mem_cons.mp member with rfl | later
    · exact ⟨wait, List.mem_cons_self, hub, rfl⟩
    · obtain ⟨found, here, settled⟩ := ih later
      exact ⟨found, List.mem_cons_of_mem _ here, settled⟩

theorem Deaf.settle (h : Deaf w id) :
    Deaf w.settle id ∧
      ∀ wait ∈ w.settle.waits, wait.id = id → wait.outcome = some (.error .streamClosed) := by
  have closed : ∀ wait ∈ w.settle.waits, wait.id = id →
      wait.subscription = none ∧ wait.outcome = some (.error .streamClosed) := by
    intro after member name
    obtain ⟨wait, before, hub, rfl⟩ := mem_settleAll member
    rw [Wait.settle_id] at name
    obtain ⟨subscription, only⟩ := h.2 wait before name
    cases outcome : wait.outcome with
    | some o => simp [Wait.settle, outcome, subscription, only o outcome]
    | none => simp [Wait.settle, outcome, subscription]
  refine ⟨⟨h.1, ?_⟩, fun wait member name => (closed wait member name).2⟩
  intro wait member name
  obtain ⟨subscription, outcome⟩ := closed wait member name
  refine ⟨subscription, ?_⟩
  intro o found
  rw [outcome] at found
  exact (Option.some.inj found).symm

theorem Deaf.passFrom (h : Deaf w id) (enough : World → Bool) (limit : Nat) (s : Schedule) :
    Deaf (World.passFrom enough limit s w) id := by
  induction s generalizing w with
  | nil => exact h
  | cons m s ih =>
    have arrived : Deaf (w.arrive m.1 m.2) id := h
    simp only [World.passFrom]
    split
    · split
      · exact arrived.settle.1
      · exact ih arrived.settle.1
    · split <;> exact h

theorem Deaf.pass (h : Deaf w id) (enough : World → Bool) (limit : Nat) :
    Deaf (w.pass enough limit) id :=
  pass_preserves (fun w => Deaf w id) (fun _ _ _ h => h.passFrom _ _ _) (fun _ h => h)
    (fun _ h => h.settle.1) limit h

theorem Deaf.sleep (h : Deaf w id) (milliseconds : Nat) : Deaf (w.sleep milliseconds) id := by
  unfold World.sleep
  split
  · exact h
  · exact h.settle.1.pass _ _

theorem Deaf.answer (h : Deaf w id) (r : Request) : Deaf (w.answer r).2 id := by
  by_cases listens : r.Listens
  · cases r with
    | listen source condition timeout =>
      refine ⟨Nat.lt_succ_of_lt h.1, ?_⟩
      intro wait member name
      rcases List.mem_append.mp member with before | new
      · exact h.2 wait before name
      · rw [List.mem_singleton.mp new] at name
        exact absurd name.symm (Nat.ne_of_lt h.1)
    | _ => exact listens.elim
  · obtain ⟨sink, recorder, device, changes⟩ := answer_changes (w := w) listens
    rw [changes]
    exact h

theorem Deaf.close (h : Deaf w id) (other : Nat) : Deaf (w.close other) id := by
  refine ⟨h.1, ?_⟩
  intro wait member
  exact h.2 wait (List.mem_filter.mp member).1

theorem Deaf.awaited (h : Deaf w id) (other : Nat) : Deaf (w.await other).2 id := by
  simp only [World.await]
  split
  · exact (h.settle.1.pass _ _).settle.1.close other
  · exact h.settle.1.close other

theorem Deaf.closeAll (h : Deaf w id) : Deaf w.closeAll id :=
  ⟨h.1, fun _ member => absurd member List.not_mem_nil⟩

/-- A stream that has ended stays so, whatever goes on beside the wait. -/
theorem Deaf.run {α : Type} (a : Activity α) {w : World} (h : Deaf w id) :
    Deaf (w.run a).2 id := by
  induction a generalizing w with
  | done => exact h
  | stop => exact h.closeAll
  | ask request next ih => exact ih _ (h.answer request)
  | sleep milliseconds next ih => exact ih (h.sleep milliseconds)
  | await wait next ih => exact ih _ (h.awaited wait)

theorem Deaf.await (h : Deaf w id) : (w.await id).1 = .error .streamClosed := by
  obtain ⟨_, closed⟩ := h.settle
  cases found : w.settle.waits.find? fun wait => wait.id = id with
  | none =>
    have unknown : w.settle.outcome? id = none ∧ w.settle.deadline? id = none := by
      simp [World.outcome?, World.deadline?, found]
    simp [World.await, unknown]
  | some wait =>
    have name : wait.id = id := by simpa using List.find?_some found
    have known : w.settle.outcome? id = some (.error .streamClosed) := by
      simp [World.outcome?, found, closed wait (List.mem_of_find?_eq_some found) name]
    simp [World.await, known]

/-! Correlated waits -/

/-- The world in which an activity starts once a wait listens, while others publish what arrives a
delay after that moment. -/
def awaiting (arrivals : List (Nat × Notification)) (source : Source) (condition : Condition)
    (timeout : Nat) (w : World) : World :=
  ({ w with schedule := Schedule.ofDelays w.now arrivals }.listen source condition timeout).2

theorem upcoming_ofDelays (start : Nat) (arrivals : List (Nat × Notification)) :
    Upcoming start (Schedule.ofDelays start arrivals) := by
  constructor
  · exact Schedule.ofDelays_ordered start arrivals
  · exact Schedule.ofDelays_after start arrivals

end World

/-- What a wait sees that has not begun to read is what it may see, and what is published at its
deadline if it has any time. -/
theorem Timeline.ahead_eq_seen (room start timeout : Nat) (others own : Timeline) :
    ahead room start (start + timeout) [] others own =
      seen room start timeout others own ++
        if timeout = 0 then [] else instants room others own (start + timeout) 1 := by
  cases timeout with
  | zero => simp [ahead, seen, instants]
  | succ span =>
    have place : start + 1 + span = start + (span + 1) := by omega
    simp [ahead, seen, instants_add, place]

theorem Timeline.ahead_eq_seen_of_quiet {room start timeout : Nat} {others own : Timeline}
    (ho : others.instant (start + timeout) = [])
    (hw : 0 < timeout → own.instant (start + timeout) = []) :
    ahead room start (start + timeout) [] others own = seen room start timeout others own := by
  rw [ahead_eq_seen]
  split
  · simp
  · rw [instants_eq_nil, List.append_nil]
    · intro t low high
      rwa [show t = start + timeout by omega]
    · intro t low high
      rw [show t = start + timeout by omega]
      exact hw (by omega)

namespace World

open Activity

section Correlate

variable {α : Type} {capacity timeout : Nat} {w : World}

theorem run_correlate_awaiting (arrivals : List (Nat × Notification)) (source : Source)
    (action : Activity α) (condition : Condition) (timeout : Nat) :
    World.run { w with schedule := Schedule.ofDelays w.now arrivals }
        (correlate source action condition timeout) =
      match (w.awaiting arrivals source condition timeout).run action with
      | (.ok a, u) => (.ok (a, (u.await w.opened).1), (u.await w.opened).2)
      | (.error cause, u) => (.error cause, u) := run_correlate _ _ _ _ _

theorem AtRest.ready (rest : w.AtRest capacity) (timeout : Nat) :
    w.Ready (max capacity 1).nextPowerOfTwo timeout :=
  ⟨rest.idle, rest.sound, by simp [rest.endless]⟩

/-- The stream of the hub ends so long after this moment. -/
def lasting (lasts : Nat) (w : World) : World := { w with ending := some (w.now + lasts) }

theorem AtRest.ready_lasting (rest : w.AtRest capacity) {lasts timeout : Nat}
    (apart : lasts ≠ timeout) :
    (w.lasting lasts).Ready (max capacity 1).nextPowerOfTwo timeout where
  idle := rest.idle
  sound := rest.sound
  ending := by simpa [lasting] using apart

/-- What a wait may see beside an action, from its start up to its deadline. -/
def horizon (w : World) (room : Nat) (arrivals : List (Nat × Notification)) (action : Activity α)
    (condition : Condition) (timeout : Nat) : Timeline :=
  Timeline.ahead room w.now (w.now + timeout) [] ((Schedule.due w.now arrivals).upTo w.ending)
    (((w.awaiting arrivals .hub condition timeout).emits action).upTo w.ending)

/-- A wait that listens beside an action is bound to bring what its condition makes of what it may
see. -/
theorem awaiting_fated {room : Nat} (ready : w.Ready room timeout)
    (arrivals : List (Nat × Notification)) (action : Activity α) (condition : Condition) :
    let started := w.awaiting arrivals .hub condition timeout
    let d := condition.verdict (expiry w.ending (w.now + timeout) timeout)
      (w.horizon room arrivals action condition timeout)
    Fated started started.schedule w.opened w.hub.subscribers (started.emits action) d.1 d.2 ∧
      Ahead started := by
  intro started d
  have cut (t : Nat) : ((Schedule.ofDelays w.now arrivals).timeline.upTo w.ending).instant t =
      ((Schedule.due w.now arrivals).upTo w.ending).instant t := by
    rw [Timeline.instant_upTo, Timeline.instant_upTo, Schedule.ofDelays_instant]
  have same := @Timeline.ahead_congr room _ _ ((started.emits action).upTo w.ending) cut w.now
    (w.now + timeout) []
  have fated := listen_fated (w := { w with schedule := Schedule.ofDelays w.now arrivals })
    ⟨ready.idle, ready.sound, ready.ending⟩ condition (started.emits action)
  simp only [same] at fated
  exact ⟨fated, upcoming_ofDelays w.now arrivals, fun e he => (ready.ending e he).1⟩

/-- A correlated wait runs its action to the end as it runs while the wait listens, and then brings
what the wait is bound to bring. It ends when both have ended, and leaves the hub to those who
subscribed before. -/
theorem perform_correlate {room : Nat} (ready : w.Ready room timeout)
    (arrivals : List (Nat × Notification)) {action : Activity α} (script : action.IsScript)
    (condition : Condition) :
    let started := w.awaiting arrivals .hub condition timeout
    let d := condition.verdict (expiry w.ending (w.now + timeout) timeout)
      (w.horizon room arrivals action condition timeout)
    let waiting := correlate .hub action condition timeout
    let left := (World.run { w with schedule := Schedule.ofDelays w.now arrivals } waiting).2
    let ended := w.perform arrivals waiting
    ended.1 = (started.run action).1.map (fun a => (a, d.2)) ∧
      left.waits = [] ∧ left.hub.subscribers = w.hub.subscribers ∧
      (ended.1.isOk → ended.2.now = max (started.run action).2.now d.1) := by
  intro started d waiting left ended
  obtain ⟨fated, future⟩ := awaiting_fated ready arrivals action condition
  have after := Fated.run script fated future
  simp only [ended, left, waiting, perform_result, perform_world, run_correlate_awaiting]
  change match started.run action with
    | (.ok _, v) => Fated v v.schedule w.opened w.hub.subscribers [] d.1 d.2 ∧ Ahead v
    | (.error _, v) => v.waits = [] ∧ v.hub.subscribers = w.hub.subscribers at after
  generalize started.run action = result at after ⊢
  obtain ⟨r, u⟩ := result
  cases r with
  | ok a =>
    obtain ⟨brings, now, closed, subscribers⟩ := after.1.await after.2
    exact ⟨congrArg (fun o => Except.ok (a, o)) brings, closed, subscribers, fun _ => now⟩
  | error cause =>
    refine ⟨rfl, after.1, after.2, ?_⟩
    intro finished
    cases finished

/-- The same, by what the wait sees up to its deadline and how it expires. -/
theorem correlate_brings {room : Nat} (ready : w.Ready room timeout)
    (arrivals : List (Nat × Notification)) {action : Activity α} (script : action.IsScript)
    {condition : Condition} {l : Timeline} {e : WaitFailure}
    (sees : w.horizon room arrivals action condition timeout = l)
    (expires : (expiry w.ending (w.now + timeout) timeout).2 = .error e) :
    (w.perform arrivals (correlate .hub action condition timeout)).1 =
      ((w.awaiting arrivals .hub condition timeout).run action).1.map fun a =>
        (a, match condition.satisfaction? l with
          | some (_, n) => .ok n
          | none => .error e) := by
  rw [(perform_correlate ready arrivals script condition).1, sees, Condition.verdict]
  cases condition.satisfaction? l with
  | some found => rfl
  | none => rw [← expires]

/-- A wait on a stream that has ended brings nothing. -/
theorem correlate_ended (rest : w.AtRest capacity) (arrivals : List (Nat × Notification))
    (action : Activity α) (condition : Condition) (timeout : Nat) :
    (w.perform arrivals (correlate .ended action condition timeout)).1 =
      ((w.awaiting arrivals .ended condition timeout).run action).1.map fun a =>
        (a, .error .streamClosed) := by
  have start : Deaf (w.awaiting arrivals .ended condition timeout) w.opened :=
    listen_deaf (by simp [rest.idle]) condition timeout
  have after := start.run action
  rw [perform_result, run_correlate_awaiting]
  generalize (w.awaiting arrivals .ended condition timeout).run action = result at after ⊢
  obtain ⟨r, u⟩ := result
  cases r with
  | ok a => exact congrArg (fun o => Except.ok (a, o)) after.await
  | error cause => rfl

/-- What a correlated wait brings. While nothing is published at the very millisecond of its
deadline, it brings the first notification, of those it sees, at which its condition holds, and
times out if there is none. It sees what is published from its start on and before its deadline,
and all that the action publishes at once, of each moment the newest that the hub keeps; what the
action publishes at once is read before others publish. If the stream ends before the deadline, the
wait sees what is published up to then, and finds the stream closed if its condition has not held.
A stream that has ended before the start brings nothing. -/
theorem correlate_outcome (rest : w.AtRest capacity) (arrivals : List (Nat × Notification))
    {action : Activity α} (script : action.IsScript) (condition : Condition) (timeout : Nat) :
    (let started := w.awaiting arrivals .hub condition timeout
      let others := Schedule.due w.now arrivals
      let own := started.emits action
      let room := (max capacity 1).nextPowerOfTwo
      others.instant (w.now + timeout) = [] →
      (0 < timeout → own.instant (w.now + timeout) = []) →
      (w.perform arrivals (correlate .hub action condition timeout)).1 =
        (started.run action).1.map fun a =>
          (a, match condition.satisfaction? (Timeline.seen room w.now timeout others own) with
            | some (_, n) => .ok n
            | none => .error (.timedOut timeout))) ∧
    (∀ lasts, lasts ≠ timeout →
      let started := (w.lasting lasts).awaiting arrivals .hub condition timeout
      let others := Schedule.due w.now arrivals
      let own := started.emits action
      let room := (max capacity 1).nextPowerOfTwo
      let span := min timeout (lasts + 1)
      others.instant (w.now + timeout) = [] →
      (0 < timeout → own.instant (w.now + timeout) = []) →
      ((w.lasting lasts).perform arrivals (correlate .hub action condition timeout)).1 =
        (started.run action).1.map fun a =>
          (a, match condition.satisfaction? (Timeline.seen room w.now span others own) with
            | some (_, n) => .ok n
            | none => .error (if lasts < timeout then .streamClosed else .timedOut timeout))) ∧
    (w.perform arrivals (correlate .ended action condition timeout)).1 =
      ((w.awaiting arrivals .ended condition timeout).run action).1.map fun a =>
        (a, .error .streamClosed) := by
  refine ⟨?_, ?_, ?_⟩
  · intro started others own room ho hw
    apply correlate_brings (rest.ready timeout) arrivals script
    · rw [horizon, rest.endless, Timeline.upTo_none, Timeline.upTo_none]
      exact Timeline.ahead_eq_seen_of_quiet ho hw
    · rw [expiry_of_le (by simp [rest.endless])]
  · intro lasts apart started others own room span ho hw
    apply correlate_brings (rest.ready_lasting apart) arrivals script
    · by_cases early : lasts < timeout
      · have full : span = lasts + 1 := by omega
        rw [full]
        exact Timeline.ahead_upTo_of_lt (by omega)
      · have full : span = timeout := by omega
        have late : ∀ e ∈ (w.lasting lasts).ending, w.now + timeout ≤ e := by
          simpa [lasting] using early
        rw [full]
        exact (Timeline.ahead_upTo_of_le (Nat.le_add_right _ _) late []).trans
          (Timeline.ahead_eq_seen_of_quiet ho hw)
    · split
      · rename_i early
        exact congrArg Prod.snd (expiry_of_lt (Nat.add_lt_add_left early w.now) timeout)
      · rename_i late
        rw [expiry_of_le (by simpa [lasting] using late)]
  · exact correlate_ended rest arrivals action condition timeout

end Correlate

/-- Where the hub keeps one notification, the window change of the fifth millisecond is lost to the
focus after it, and the one of the twentieth completes the condition if the stream lasts so long. -/
theorem correlate_outcome_past_loss :
    let w := fresh 1 (.rejecting []) [] (.fresh Device.defaultLongPress)
    let arrivals : List (Nat × Notification) := [(5, ⟨.windowStateChanged, 1, .unreported⟩),
      (5, Kind.viewFocused.notification), (20, ⟨.windowStateChanged, 2, .unreported⟩)]
    let action := request (.publish Kind.viewClicked.notification) >>= fun _ => pause 10
    let kinds : KindSet := .ofList [.viewClicked, .windowStateChanged]
    let brings (w : World) (o : Outcome) :=
      (w.perform arrivals (correlate .hub action (.all kinds kinds) 100)).1 = .ok ((), o)
    brings w (.ok ⟨.windowStateChanged, 2, .unreported⟩) ∧
      brings (w.lasting 20) (.ok ⟨.windowStateChanged, 2, .unreported⟩) ∧
      brings (w.lasting 19) (.error .streamClosed) := by
  intro w arrivals action kinds brings
  have rest : w.AtRest 1 := fresh_atRest 1 _ _ _
  have script : action.IsScript := by
    apply asks_bind
    · exact asks_request fun h => h
    · intro _
      exact asks_pause 10
  obtain ⟨forever, ending, _⟩ := correlate_outcome rest arrivals script (.all kinds kinds) 100
  refine ⟨?_, ?_, ?_⟩
  · exact (forever (by decide) (by decide +kernel)).trans (by decide +kernel)
  · exact (ending 20 (by decide) (by decide) (by decide +kernel)).trans (by decide +kernel)
  · exact (ending 19 (by decide) (by decide) (by decide +kernel)).trans (by decide +kernel)

/-- What the action publishes at once and what others publish at the same moment do not compete for
the place that the hub has: if only the last notification of that moment counted, the wait would
find nothing. -/
theorem start_burst_is_read_apart :
    let w := fresh 1 (.rejecting []) [] (.fresh Device.defaultLongPress)
    let arrivals := [(0, Kind.viewFocused.notification)]
    let action := request (.publish Kind.viewClicked.notification) >>= fun _ => pause 10
    let condition : Condition := .any (.singleton .viewClicked)
    let others := Schedule.due w.now arrivals
    let own := (w.awaiting arrivals .hub condition 100).emits action
    (w.perform arrivals (correlate .hub action condition 100)).1 =
        .ok ((), .ok Kind.viewClicked.notification) ∧
      condition.satisfaction?
        (Timeline.moment w.now (newest 1 (own.instant w.now ++ others.instant w.now)) ++
          Timeline.instants 1 others own (w.now + 1) 99) = none := by
  decide +kernel

end World

end CorrelatedInput
