import CorrelatedInput.Proofs.Gesture.Correlated
import CorrelatedInput.Proofs.Gesture.Touch
import CorrelatedInput.Proofs.Signals.Kind
/-!
A swipe that scrolls. It is made to its end like any swipe, and its result is up to the first scroll
that the wait beside it sees: whatever else is published, and whatever the sink rejects, the result
stays the same.
-/
namespace CorrelatedInput.World

open Controller

/-- What a wait sees that listens beside an activity for so long. -/
def sightings {α : Type} (w : World) (arrivals : List (Nat × Notification)) (plain : Activity α)
    (timeout : Nat) : Timeline :=
  Timeline.seen w.hub.limit w.now timeout (Schedule.due w.now arrivals)
    (emits { w with schedule := Schedule.ofDelays w.now arrivals } plain)

/-- Nothing is published at this time, neither by the activity nor by others. -/
structure Quiet {α : Type} (w : World) (arrivals : List (Nat × Notification)) (plain : Activity α)
    (time : Nat) : Prop where
  others : (Schedule.due w.now arrivals).instant time = []
  own : (emits { w with schedule := Schedule.ofDelays w.now arrivals } plain).instant time = []

/-! Activities to which nothing reacts -/

section Calm

variable {α : Type} {w : World} {arrivals : List (Nat × Notification)} {plain : Activity α}
  (silent : plain.IsSilent) (calm : w.reactions = [])
include silent calm

theorem emits_eq_nil_of_calm :
    emits { w with schedule := Schedule.ofDelays w.now arrivals } plain = [] :=
  emits_eq_nil silent calm

theorem Quiet.of_calm {time : Nat} (others : (Schedule.due w.now arrivals).instant time = []) :
    w.Quiet arrivals plain time where
  others := others
  own := by
    rw [emits_eq_nil_of_calm silent calm]
    rfl

theorem sightings_of_calm (timeout : Nat) : w.sightings arrivals plain timeout =
    Timeline.instants w.hub.limit (Schedule.due w.now arrivals) [] w.now timeout := by
  rw [sightings, emits_eq_nil_of_calm silent calm, Timeline.seen_of_silence]

end Calm

/-- The first scroll, with its instant. -/
def scroll? (l : Timeline) : Option (Nat × Notification) :=
  l.find? fun p => p.2.kind = .viewScrolled

theorem satisfaction?_scrolled (l : Timeline) :
    (Condition.any (.singleton .viewScrolled)).satisfaction? l = scroll? l := by
  simp only [Condition.satisfaction?_any, KindSet.contains_singleton, scroll?, eq_comm]

theorem scroll?_eq_none {l : Timeline} (none : ∀ p ∈ l, p.2.kind ≠ .viewScrolled) :
    scroll? l = .none := by
  simpa [scroll?] using none

section Swipe

variable {capacity : Nat} {w : World} {arrivals : List (Nat × Notification)} {c : Controller}
  {start finish : Coordinate} {steps : UInt32}

theorem perform_swipe (arrivals : List (Nat × Notification)) (c : Controller)
    (fits : Motion.LegFits start finish) (steps : UInt32) :
    ∃ places accepted, Motion.swipeMoves start finish steps = .ok places ∧
      (w.perform arrivals (c.swipe start finish steps)).1 = .ok accepted ∧
      (w.perform arrivals (c.swipe start finish steps)).2.sink =
        w.sink.offer (c.dragged w.now start finish places) := by
  obtain ⟨places, moves, _⟩ := Motion.swipeMoves_ok fits steps
  let v := { w with schedule := Schedule.ofDelays w.now arrivals }
  obtain ⟨value, reached⟩ := c.drag_drives v.bench start finish places v rfl
  rw [← moves] at value reached
  refine ⟨places, _, moves, value, ?_⟩
  rw [perform_world]
  exact congrArg Bench.sink reached

/-- The result is what the first scroll says of the content, if there is one. -/
theorem scrollSwipe_result (rest : w.AtRest capacity) (fits : Motion.LegFits start finish)
    (quiet : w.Quiet arrivals (c.swipe start finish steps)
      (w.now + c.timing.scrollTimeout.toNat)) :
    (w.perform arrivals (c.scrollSwipe start finish steps)).1 =
      .ok (((scroll? (w.sightings arrivals (c.swipe start finish steps)
        c.timing.scrollTimeout.toNat)).map Prod.snd).elim false
          fun n => n.scroll.hasMore start finish) := by
  obtain ⟨_, accepted, _, done, _⟩ := perform_swipe (w := w) arrivals c fits steps
  obtain ⟨result, _⟩ :=
    (scrollSwipe_accompanies rest arrivals c start finish steps).ends accepted done
  rw [result, Timeline.ahead_eq_seen_of_quiet quiet.others fun _ => quiet.own,
    satisfaction?_scrolled, sightings]

end Swipe

/-! Schedules of which nothing is lost -/

/-- Of the scrolls that arrive, this is the one that arrives first: those in front of it arrive
later, and those behind it no sooner. -/
def FirstScroll (arrivals : List (Nat × Notification)) (a : Nat × Notification) : Prop :=
  ∃ front back, arrivals = front ++ a :: back ∧ a.2.kind = .viewScrolled ∧
    (∀ b ∈ front, b.2.kind = .viewScrolled → a.1 < b.1) ∧
    ∀ b ∈ back, b.2.kind = .viewScrolled → a.1 ≤ b.1

section FirstScroll

variable {arrivals : List (Nat × Notification)} {a : Nat × Notification} {room start timeout : Nat}

theorem FirstScroll.le (h : FirstScroll arrivals a) :
    ∀ b ∈ arrivals, b.2.kind = .viewScrolled → a.1 ≤ b.1 := by
  obtain ⟨front, back, rfl, _, before, after⟩ := h
  intro b hb scrolled
  rcases List.mem_append.mp hb with hb | hb
  · exact Nat.le_of_lt (before b hb scrolled)
  · rcases List.mem_cons.mp hb with rfl | hb
    · exact Nat.le_refl _
    · exact after b hb scrolled

theorem exists_firstScroll (some : ∃ b ∈ arrivals, b.2.kind = .viewScrolled) :
    ∃ a, FirstScroll arrivals a := by
  induction arrivals with
  | nil => simp at some
  | cons x arrivals ih =>
    by_cases later : ∃ b ∈ arrivals, b.2.kind = .viewScrolled
    · obtain ⟨a, first⟩ := ih later
      by_cases overtakes : x.2.kind = .viewScrolled ∧ x.1 ≤ a.1
      · refine ⟨x, [], arrivals, rfl, overtakes.1, by simp, ?_⟩
        intro b hb scrolled
        exact Nat.le_trans overtakes.2 (first.le b hb scrolled)
      · obtain ⟨front, back, rfl, scrolled, before, after⟩ := first
        refine ⟨a, x :: front, back, rfl, scrolled, ?_, after⟩
        refine List.forall_mem_cons.mpr ⟨?_, before⟩
        intro scrolled
        exact Nat.lt_of_not_le fun le => overtakes ⟨scrolled, le⟩
    · obtain ⟨b, hb, scrolled⟩ := some
      rcases List.mem_cons.mp hb with rfl | hb
      · refine ⟨b, [], arrivals, rfl, scrolled, by simp, ?_⟩
        exact fun d hd again => absurd ⟨d, hd, again⟩ later
      · exact absurd ⟨b, hb, scrolled⟩ later

theorem scroll?_instants_eq_none
    (late : ∀ b ∈ arrivals, b.2.kind = .viewScrolled → timeout ≤ b.1) :
    scroll? (Timeline.instants room (Schedule.due start arrivals) [] start timeout) = none := by
  apply scroll?_eq_none
  intro p hp scrolled
  obtain ⟨early, here⟩ := Timeline.mem_of_mem_instants hp
  obtain ⟨b, hb, rfl⟩ := List.mem_map.mp (here.resolve_right List.not_mem_nil)
  have := late b hb scrolled
  omega

variable (kept : ∀ time, ((Schedule.due start arrivals).instant time).length ≤ room)
include kept

/-- The scroll that arrives first is the first at its moment. -/
theorem FirstScroll.scroll?_moment (h : FirstScroll arrivals a) :
    scroll? (Timeline.instants room (Schedule.due start arrivals) [] (start + a.1) 1) =
      some (start + a.1, a.2) := by
  have whole : Timeline.instants room (Schedule.due start arrivals) [] (start + a.1) 1 =
      Timeline.moment (start + a.1) ((Schedule.due start arrivals).instant (start + a.1)) := by
    simp [Timeline.instants, Timeline.newest_eq_self (kept _)]
  obtain ⟨front, back, rfl, scrolled, before, _⟩ := h
  have split : (Schedule.due start (front ++ a :: back)).instant (start + a.1) =
      (Schedule.due start front).instant (start + a.1) ++
        a.2 :: (Schedule.due start back).instant (start + a.1) := by
    simp [Schedule.due, Timeline.instant]
  have none : scroll? (Timeline.moment (start + a.1)
      ((Schedule.due start front).instant (start + a.1))) = none := by
    apply scroll?_eq_none
    intro p hp again
    obtain ⟨n, hn, rfl⟩ := List.mem_map.mp hp
    obtain ⟨b, hb, same⟩ := List.mem_map.mp (Timeline.mem_instant.mp hn)
    obtain ⟨time, rfl⟩ := Prod.mk.inj same
    have later := before b hb again
    omega
  rw [whole, split, scroll?, Timeline.moment, List.map_append, List.find?_append]
  rw [scroll?, Timeline.moment] at none
  simp [none, scrolled]

theorem FirstScroll.scroll?_instants (h : FirstScroll arrivals a) (early : a.1 < timeout) :
    scroll? (Timeline.instants room (Schedule.due start arrivals) [] start timeout) =
      some (start + a.1, a.2) := by
  have span : timeout = a.1 + (1 + (timeout - a.1 - 1)) := by omega
  have here := h.scroll?_moment kept
  have sooner : scroll? (Timeline.instants room (Schedule.due start arrivals) [] start a.1) =
      none := scroll?_instants_eq_none h.le
  rw [scroll?] at here sooner ⊢
  rw [span, Timeline.instants_add, Timeline.instants_add, List.find?_append, sooner,
    List.find?_append, here]
  rfl

theorem scroll?_instants_eq_some_iff {p : Nat × Notification} :
    scroll? (Timeline.instants room (Schedule.due start arrivals) [] start timeout) = some p ↔
      ∃ a, FirstScroll arrivals a ∧ a.1 < timeout ∧ p = (start + a.1, a.2) := by
  constructor
  · intro found
    by_cases some : ∃ b ∈ arrivals, b.2.kind = .viewScrolled ∧ b.1 < timeout
    · obtain ⟨b, hb, scrolled, early⟩ := some
      obtain ⟨a, first⟩ := exists_firstScroll ⟨b, hb, scrolled⟩
      have early := Nat.lt_of_le_of_lt (first.le b hb scrolled) early
      rw [first.scroll?_instants kept early] at found
      exact ⟨a, first, early, (Option.some.inj found).symm⟩
    · rw [scroll?_instants_eq_none] at found
      · cases found
      · intro b hb scrolled
        exact Nat.le_of_not_lt fun early => some ⟨b, hb, scrolled, early⟩
  · rintro ⟨a, first, early, rfl⟩
    exact first.scroll?_instants kept early

end FirstScroll

section Decides

variable {capacity : Nat} {w : World} {start finish : Coordinate}

theorem elim_snd_eq_true_iff {α β : Type} {o : Option (α × β)} {holds : β → Bool} :
    (o.map Prod.snd).elim false holds = true ↔ ∃ a b, o = some (a, b) ∧ holds b = true := by
  cases o <;> simp [Prod.ext_iff]

/-- A swipe that scrolls is made to its end, whatever becomes of it. While nothing is published at
the very millisecond at which the time for scrolling is over, the result is true exactly if a scroll
is seen before, and the first one leaves more to scroll in the direction of the swipe. Nothing else
that is published, and no verdict of the sink, makes a difference to it. Where nothing reacts to the
input and nothing of what others publish is lost, that scroll is the first to arrive. -/
theorem scrollSwipe_decided_by_first (rest : w.AtRest capacity)
    (arrivals : List (Nat × Notification)) (c : Controller) (fits : Motion.LegFits start finish)
    (steps : UInt32) :
    let timeout := c.timing.scrollTimeout.toNat
    let plain := c.swipe start finish steps
    let first := scroll? (w.sightings arrivals plain timeout)
    let others := Schedule.due w.now arrivals
    let ended := w.perform arrivals (c.scrollSwipe start finish steps)
    (∃ places, Motion.swipeMoves start finish steps = .ok places ∧
      ended.2.sink = w.sink.offer (c.dragged w.now start finish places)) ∧
    (w.Quiet arrivals plain (w.now + timeout) →
      (∃ more, ended.1 = .ok more ∧ (more = true ↔ ∃ time n, first = some (time, n) ∧
        time < w.now + timeout ∧ n.scroll.hasMore start finish = true)) ∧
      ∀ (space : Nat) (v : World) (arrivals' : List (Nat × Notification)), v.AtRest space →
        v.Quiet arrivals' plain (v.now + timeout) →
        (scroll? (v.sightings arrivals' plain timeout)).map Prod.snd = first.map Prod.snd →
        (v.perform arrivals' (c.scrollSwipe start finish steps)).1 = ended.1) ∧
    (w.reactions = [] → others.instant (w.now + timeout) = [] →
      (∀ time, (others.instant time).length ≤ w.hub.limit) →
      ∃ more, ended.1 = .ok more ∧ (more = true ↔ ∃ a, FirstScroll arrivals a ∧ a.1 < timeout ∧
        a.2.scroll.hasMore start finish = true)) := by
  intro timeout plain first others ended
  refine ⟨?_, ?_, ?_⟩
  · obtain ⟨places, _, moves, _, sink⟩ := perform_swipe (w := w) arrivals c fits steps
    have same := (scrollSwipe_accompanies rest arrivals c start finish steps).sink
    exact ⟨places, moves, same.trans sink⟩
  · intro quiet
    have result : ended.1 = _ := scrollSwipe_result rest fits quiet
    refine ⟨⟨_, result, ?_⟩, ?_⟩
    · rw [elim_snd_eq_true_iff]
      constructor
      · rintro ⟨time, n, found, more⟩
        have seen := List.mem_of_find?_eq_some found
        exact ⟨time, n, found, Timeline.lt_of_mem_seen quiet.own seen, more⟩
      · rintro ⟨time, n, found, _, more⟩
        exact ⟨time, n, found, more⟩
    · intro space v arrivals' rest' quiet' same
      rw [result, scrollSwipe_result rest' fits quiet', same]
  · intro calm free kept
    have silent : plain.IsSilent := (IsGesture.swipe start finish steps).silent
    refine ⟨_, scrollSwipe_result rest fits (.of_calm silent calm free), ?_⟩
    have seen : w.sightings arrivals plain timeout = _ := sightings_of_calm silent calm timeout
    rw [elim_snd_eq_true_iff, seen]
    constructor
    · rintro ⟨time, n, found, more⟩
      obtain ⟨a, arrives, early, same⟩ := (scroll?_instants_eq_some_iff kept).mp found
      cases same
      exact ⟨a, arrives, early, more⟩
    · rintro ⟨a, arrives, early, more⟩
      exact ⟨_, _, (scroll?_instants_eq_some_iff kept).mpr ⟨a, arrives, early, rfl⟩, more⟩

end Decides

/-- The time for scrolling is over in mid-swipe, and one of the moves is rejected. The list moves
before and is not at its end, whatever takes the focus first and wherever the list stops later; so
the result is the same if it only moves, and at another time. -/
theorem scrollSwipe_decided_by_first_in_time :
    let w := fresh 4 (.rejecting [2]) [] (.fresh Device.defaultLongPress)
    let v := fresh 1 (.rejecting []) [] (.fresh Device.defaultLongPress)
    let c := (Controller.fresh ⟨0, 0⟩).withTiming { scrollTimeout := 12 }
    let moving : Notification := ⟨.viewScrolled, 1, .indexed 2 6 20⟩
    let arrivals : List (Nat × Notification) := [(9, ⟨.viewScrolled, 2, .indexed 0 4 20⟩),
      (3, Kind.viewFocused.notification), (7, moving)]
    let ended := w.perform arrivals (c.scrollSwipe ⟨10, 90⟩ ⟨10, 10⟩ 4)
    ended.2.sink.log.toList.map (fun entry => entry.accepted) = [true, true, false, true, true] ∧
      ended.1 = .ok true ∧
      (v.perform [(11, moving)] (c.scrollSwipe ⟨10, 90⟩ ⟨10, 10⟩ 4)).1 = .ok true := by
  intro w v c moving arrivals ended
  have rest : w.AtRest 4 := fresh_atRest 4 _ _ _
  have fits : Motion.LegFits ⟨10, 90⟩ ⟨10, 10⟩ := by decide
  obtain ⟨⟨places, moves, sink⟩, alike, unlost⟩ :=
    scrollSwipe_decided_by_first rest arrivals c fits 4
  have known : Motion.swipeMoves ⟨10, 90⟩ ⟨10, 10⟩ 4 =
      .ok [⟨10, 70⟩, ⟨10, 50⟩, ⟨10, 30⟩] := by decide +kernel
  rw [known] at moves
  cases moves
  have kept : ∀ time, ((Schedule.due w.now arrivals).instant time).length ≤ w.hub.limit := by
    intro time
    refine Nat.le_trans (m := 3) ?_ (by decide +kernel)
    rw [Timeline.instant, List.length_map]
    exact List.length_filter_le _ _
  have first : FirstScroll arrivals (7, moving) :=
    ⟨arrivals.take 2, [], rfl, rfl, by decide, by decide⟩
  obtain ⟨more, value, arrived⟩ := unlost rfl (by decide) kept
  have yes : ended.1 = .ok true := by
    rw [value, arrived.mpr ⟨_, first, by decide, by decide⟩]
  refine ⟨by rw [sink]; decide, yes, ?_⟩
  exact ((alike ⟨by decide, by decide +kernel⟩).2 1 v [(11, moving)] (fresh_atRest 1 _ _ _)
    ⟨by decide, by decide +kernel⟩ (by decide +kernel)).trans yes

end CorrelatedInput.World
