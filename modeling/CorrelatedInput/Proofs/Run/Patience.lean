import CorrelatedInput.Proofs.Run.Abreast
import CorrelatedInput.Proofs.Run.Decision
import CorrelatedInput.Proofs.Signals.Condition
/-!
Waits that ask for less, or that have more time. Beside the same action, with the same publications
of others, a wait with more time brings what one with less time brings, and a wait that asks for
less is satisfied no later. The action is a script: it publishes, injects and sleeps as it likes, and
leaves all waiting to the wait beside it.
-/
namespace CorrelatedInput.World

open Activity

section Satisfied

variable {α : Type} {capacity : Nat} {w : World} {arrivals : List (Nat × Notification)}
  {action : Activity α} {c d : Condition} {timeout patience time : Nat} {n : Notification}

/-- Beside an action that ends, a wait brings a notification, and of all the moments at which it
reads this instant is that of the first at which it has an outcome. -/
structure SatisfiedAt (w : World) (arrivals : List (Nat × Notification)) (action : Activity α)
    (condition : Condition) (timeout time : Nat) (n : Notification) : Prop where
  brings : ∃ a, (w.perform arrivals (correlate .hub action condition timeout)).1 = .ok (a, .ok n)
  first : decision? w.opened (readings { w with schedule := Schedule.ofDelays w.now arrivals }
    (correlate .hub action condition timeout)) = some (time, .ok n)

/-- What a wait with so much time may see beside an action. -/
def prospect (w : World) (capacity : Nat) (arrivals : List (Nat × Notification))
    (action : Activity α) (condition : Condition) (timeout : Nat) : Timeline :=
  Timeline.ahead (max capacity 1).nextPowerOfTwo w.now (w.now + timeout) []
    (Schedule.due w.now arrivals) ((w.awaiting arrivals .hub condition timeout).emits action)

/-- While the stream never ends, a wait brings what its condition makes of all that, or it has timed
out. -/
theorem verdict_prospect (rest : w.AtRest capacity) (c : Condition) (timeout : Nat) :
    c.verdict (expiry w.ending (w.now + timeout) timeout)
        (w.horizon (max capacity 1).nextPowerOfTwo arrivals action c timeout) =
      c.verdict (w.now + timeout, .error (.timedOut timeout))
        (w.prospect capacity arrivals action c timeout) := by
  rw [expiry_of_le (by simp [rest.endless]), horizon, rest.endless, Timeline.upTo_none,
    Timeline.upTo_none, prospect]

theorem awaiting_abreast (w : World) (arrivals : List (Nat × Notification)) (c d : Condition)
    (timeout patience : Nat) :
    Abreast (w.awaiting arrivals .hub c timeout) (w.awaiting arrivals .hub d patience) :=
  listen_abreast _ c d timeout patience

theorem prospect_extend (script : action.IsScript) (le : timeout ≤ patience) :
    ∃ more, w.prospect capacity arrivals action d patience =
      w.prospect capacity arrivals action c timeout ++ more := by
  obtain ⟨_, _, emits⟩ := (w.awaiting_abreast arrivals c d timeout patience).run script
  unfold prospect
  rw [emits]
  exact Timeline.ahead_extend w.now le

theorem readings_correlate (w : World) (source : Source) (action : Activity α)
    (condition : Condition) (timeout : Nat) :
    let started := (w.listen source condition timeout).2
    w.readings (correlate source action condition timeout) = started.readings action ++
      match started.run action with
      | (.ok _, u) => u.awaitReadings w.opened
      | (.error _, _) => [] := by
  intro started
  change started.readings
    (action >>= fun a => Activity.await w.opened Activity.done >>= fun o => pure (a, o)) = _
  rw [readings_bind]
  obtain ⟨r, u⟩ := started.run action
  cases r with
  | ok a => exact congrArg _ (List.append_nil _)
  | error cause => rfl

theorem brings_iff (rest : w.AtRest capacity) (script : action.IsScript) {a : α} :
    (w.perform arrivals (correlate .hub action c timeout)).1 = .ok (a, .ok n) ↔
      ((w.awaiting arrivals .hub c timeout).run action).1 = .ok a ∧
        ∃ time, c.satisfaction? (w.prospect capacity arrivals action c timeout) =
          some (time, n) := by
  rw [(perform_correlate (rest.ready timeout) arrivals script c).1, verdict_prospect rest]
  cases ((w.awaiting arrivals .hub c timeout).run action).1 with
  | error cause => simp [Except.map]
  | ok b =>
    unfold Condition.verdict
    cases c.satisfaction? (w.prospect capacity arrivals action c timeout) with
    | none => simp [Except.map]
    | some found => simp [Except.map, Prod.ext_iff]

theorem decision?_correlate (rest : w.AtRest capacity) (script : action.IsScript) {a : α}
    (ends : ((w.awaiting arrivals .hub c timeout).run action).1 = .ok a)
    (found : c.satisfaction? (w.prospect capacity arrivals action c timeout) = some (time, n)) :
    decision? w.opened (readings { w with schedule := Schedule.ofDelays w.now arrivals }
      (correlate .hub action c timeout)) = some (time, .ok n) := by
  have verdict : c.verdict (w.now + timeout, .error (.timedOut timeout))
      (w.prospect capacity arrivals action c timeout) = (time, .ok n) := by
    simp [Condition.verdict, found]
  obtain ⟨fated, ahead⟩ := awaiting_fated (rest.ready timeout) arrivals action c
  rw [verdict_prospect rest, verdict] at fated
  have undecided : (w.awaiting arrivals .hub c timeout).outcome? w.opened = none := by
    simp [awaiting, listen, rest.idle, outcome?]
  have steady : (w.awaiting arrivals .hub c timeout).Steady (max capacity 1).nextPowerOfTwo :=
    ⟨rest.sound.subscribe, rest.endless⟩
  have still := (steady.run action).endless
  have after := Fated.run script fated ahead
  have pending := Fated.run_decision script fated steady undecided ahead
  rw [readings_correlate, decision?_append]
  change (decision? _ ((w.awaiting arrivals .hub c timeout).readings action)).or
    (decision? _ (match (w.awaiting arrivals .hub c timeout).run action with
      | (.ok _, u) => u.awaitReadings w.opened
      | (.error _, _) => [])) = _
  generalize (w.awaiting arrivals .hub c timeout).run action = result at ends still after pending ⊢
  obtain ⟨r, u⟩ := result
  obtain rfl : r = .ok a := ends
  -- the wait finds out while the action runs, or when nothing is left but to await it
  rcases pending with decided | ⟨missing, unknown⟩
  · rw [decided, Option.some_or]
  · rw [missing, Option.none_or]
    exact Fated.await_decision after.1 still unknown after.2

theorem satisfiedAt_iff (rest : w.AtRest capacity) (script : action.IsScript) :
    w.SatisfiedAt arrivals action c timeout time n ↔
      (∃ a, ((w.awaiting arrivals .hub c timeout).run action).1 = .ok a) ∧
        c.satisfaction? (w.prospect capacity arrivals action c timeout) = some (time, n) := by
  constructor
  · rintro ⟨⟨a, brings⟩, first⟩
    obtain ⟨ends, exactly, found⟩ := (brings_iff rest script).mp brings
    have here := first.symm.trans (decision?_correlate rest script ends found)
    obtain ⟨rfl, _⟩ := Prod.mk.inj (Option.some.inj here)
    exact ⟨⟨a, ends⟩, found⟩
  · rintro ⟨⟨a, ends⟩, found⟩
    exact ⟨⟨a, (brings_iff rest script).mpr ⟨ends, time, found⟩⟩,
      decision?_correlate rest script ends found⟩

/-- Whenever the wait for `c` is satisfied, the wait for `d` with so much patience is satisfied at
the latest at that instant, and what it runs beside is over no later. -/
def NoLater (w : World) (arrivals : List (Nat × Notification)) (action : Activity α)
    (d : Condition) (patience : Nat) (c : Condition) (timeout : Nat) : Prop :=
  ∀ time n, w.SatisfiedAt arrivals action c timeout time n → ∃ early m, early ≤ time ∧
    w.SatisfiedAt arrivals action d patience early m ∧
    (w.perform arrivals (correlate .hub action d patience)).2.now ≤
      (w.perform arrivals (correlate .hub action c timeout)).2.now

theorem SatisfiedAt.ends (h : w.SatisfiedAt arrivals action c timeout time n)
    (rest : w.AtRest capacity) (script : action.IsScript) :
    (w.perform arrivals (correlate .hub action c timeout)).2.now =
      max ((w.awaiting arrivals .hub c timeout).run action).2.now time := by
  obtain ⟨a, brings⟩ := h.brings
  obtain ⟨_, found⟩ := (satisfiedAt_iff rest script).mp h
  obtain ⟨_, _, _, now⟩ := perform_correlate (rest.ready timeout) arrivals script c
  rw [now (by rw [brings]; rfl), verdict_prospect rest, Condition.verdict, found]

theorem noLater_of_sooner (rest : w.AtRest capacity) (script : action.IsScript)
    (less : Condition.Sooner d c) (le : timeout ≤ patience) :
    w.NoLater arrivals action d patience c timeout := by
  intro time n h
  obtain ⟨⟨a, ends⟩, found⟩ := (satisfiedAt_iff rest script).mp h
  obtain ⟨early, m, sooner, no_later⟩ := less.satisfaction? (Timeline.ahead_sorted _ _ _) found
  obtain ⟨more, extend⟩ := @prospect_extend _ capacity w arrivals action c d timeout patience
    script le
  obtain ⟨result, now, _⟩ := (w.awaiting_abreast arrivals c d timeout patience).run script
  have satisfied : w.SatisfiedAt arrivals action d patience early m := by
    refine (satisfiedAt_iff rest script).mpr ⟨⟨a, result.trans ends⟩, ?_⟩
    rw [extend]
    exact Condition.satisfaction?_append sooner more
  refine ⟨early, m, no_later, satisfied, ?_⟩
  rw [satisfied.ends rest script, h.ends rest script, now]
  omega

/-- Waits are monotone. With more time the same wait brings the same notification, found at the same
instant. A wait for any of more kinds, a wait for all of fewer kinds, though of some, and a wait for
any instead of all of the same kinds are satisfied no later, even if they have more time. -/
theorem waiting_is_monotone (rest : w.AtRest capacity) (arrivals : List (Nat × Notification))
    {action : Activity α} (script : action.IsScript) {timeout patience : Nat}
    (le : timeout ≤ patience) :
    (∀ c a n, (w.perform arrivals (correlate .hub action c timeout)).1 = .ok (a, .ok n) →
      (w.perform arrivals (correlate .hub action c patience)).1 = .ok (a, .ok n) ∧
        ∃ time, w.SatisfiedAt arrivals action c timeout time n ∧
          w.SatisfiedAt arrivals action c patience time n) ∧
    (∀ few many : KindSet, many.includes few →
      w.NoLater arrivals action (.any many) patience (.any few) timeout) ∧
    (∀ few many : KindSet, many.includes few → few.isEmpty = false →
      w.NoLater arrivals action (.all few few) patience (.all many many) timeout) ∧
    ∀ kinds : KindSet,
      w.NoLater arrivals action (.any kinds) patience (.all kinds kinds) timeout := by
  have self (s : KindSet) : s.includes s := KindSet.includes_iff.mpr fun _ h => h
  refine ⟨?_, ?_, ?_, ?_⟩
  · intro c a n brings
    obtain ⟨ends, time, found⟩ := (brings_iff rest script).mp brings
    obtain ⟨more, extend⟩ := @prospect_extend _ capacity w arrivals action c c timeout patience
      script le
    obtain ⟨result, _, _⟩ := (w.awaiting_abreast arrivals c c timeout patience).run script
    have later : c.satisfaction? (w.prospect capacity arrivals action c patience) =
        some (time, n) := by
      rw [extend]
      exact Condition.satisfaction?_append found more
    have stays := result.trans ends
    exact ⟨(brings_iff rest script).mpr ⟨stays, time, later⟩, time,
      (satisfiedAt_iff rest script).mpr ⟨⟨a, ends⟩, found⟩,
      (satisfiedAt_iff rest script).mpr ⟨⟨a, stays⟩, later⟩⟩
  · intro few many sub
    exact noLater_of_sooner rest script (.any sub) le
  · intro few many sub some
    exact noLater_of_sooner rest script (.all sub (self few) sub some (self many)) le
  · intro kinds
    exact noLater_of_sooner rest script .anyOfAll le

/-- Where the hub keeps one notification, the wait for both kinds is satisfied by what comes after a
loss, and with more time as well; one that misses only the window change, and one that waits for
either kind, are satisfied by then. -/
theorem waiting_is_monotone_past_loss :
    let w := fresh 1 (.rejecting []) [] (.fresh Device.defaultLongPress)
    let arrivals : List (Nat × Notification) := [(5, ⟨.windowStateChanged, 1, .unreported⟩),
      (5, Kind.viewFocused.notification), (20, ⟨.windowStateChanged, 2, .unreported⟩)]
    let action := request (.publish Kind.viewClicked.notification) >>= fun _ => pause 10
    let both : KindSet := .ofList [.viewClicked, .windowStateChanged]
    let n : Notification := ⟨.windowStateChanged, 2, .unreported⟩
    (w.perform arrivals (correlate .hub action (.all both both) 100)).1 = .ok ((), .ok n) ∧
      (w.perform arrivals (correlate .hub action (.all both both) 250)).1 = .ok ((), .ok n) ∧
      w.SatisfiedAt arrivals action (.all both both) 100 20 n ∧
      ∀ d ∈ [Condition.all (.singleton .windowStateChanged) (.singleton .windowStateChanged),
          .any both],
        ∃ early m, early ≤ 20 ∧ w.SatisfiedAt arrivals action d 250 early m := by
  intro w arrivals action both n
  have rest : w.AtRest 1 := fresh_atRest 1 _ _ _
  have script : action.IsScript := by
    apply asks_bind
    · exact asks_request fun h => h
    · intro _
      exact asks_pause 10
  have brings : (w.perform arrivals (correlate .hub action (.all both both) 100)).1 =
      .ok ((), .ok n) := by decide +kernel
  have satisfied : w.SatisfiedAt arrivals action (.all both both) 100 20 n :=
    ⟨⟨(), brings⟩, by decide +kernel⟩
  obtain ⟨more, _, all, any⟩ :=
    waiting_is_monotone rest arrivals script (show 100 ≤ 250 by decide)
  refine ⟨brings, (more _ _ _ brings).1, satisfied, ?_⟩
  intro d hd
  rcases List.mem_pair.mp hd with rfl | rfl
  · obtain ⟨early, m, le, satisfied, _⟩ := all (.singleton .windowStateChanged) both (by decide)
      (by decide) _ _ satisfied
    exact ⟨early, m, le, satisfied⟩
  · obtain ⟨early, m, le, satisfied, _⟩ := any both _ _ satisfied
    exact ⟨early, m, le, satisfied⟩

end Satisfied

end CorrelatedInput.World
