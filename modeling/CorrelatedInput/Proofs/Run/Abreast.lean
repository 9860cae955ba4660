import CorrelatedInput.Proofs.Run.Activity
/-!
What a script depends on that may publish as well. It is told how many subscribers a notification
reaches, and learns nothing of what they have read or of what anybody waits for. So two worlds that
differ in nothing else run it alike, and at every moment they differ in nothing else.
-/
namespace CorrelatedInput.World

/-- Two worlds that differ at most in what the subscribers of the hub have read, and in who waits
for what. -/
def Abreast (w v : World) : Prop :=
  ∃ subscribers waits opened, subscribers.length = w.hub.count ∧
    v = { w with hub := { w.hub with subscribers }, waits, opened }

section Abreast

variable {u v w : World}

theorem Abreast.symm (h : Abreast w v) : Abreast v w := by
  obtain ⟨subscribers, waits, opened, count, rfl⟩ := h
  exact ⟨_, _, _, count.symm, rfl⟩

theorem Abreast.now (h : Abreast w v) : v.now = w.now := by
  obtain ⟨_, _, _, _, rfl⟩ := h
  rfl

theorem Abreast.trans (h : Abreast u v) (k : Abreast v w) : Abreast u w := by
  obtain ⟨first, _, _, count, rfl⟩ := h
  obtain ⟨second, waits, opened, same, rfl⟩ := k
  exact ⟨second, waits, opened, same.trans count, rfl⟩

theorem listen_abreast (w : World) (c d : Condition) (timeout patience : Nat) :
    Abreast (w.listen .hub c timeout).2 (w.listen .hub d patience).2 := ⟨_, _, _, rfl, rfl⟩

/-- To read moves subscribers on, and changes nothing else. -/
theorem receive_hub (h : Hub) (id : Nat) : ∃ subscribers, subscribers.length = h.count ∧
    (h.receive id).2 = { h with subscribers } := by
  unfold Hub.receive
  split
  · exact ⟨_, rfl, rfl⟩
  · split
    · exact ⟨_, List.length_map _, rfl⟩
    · split
      · exact ⟨_, List.length_map _, rfl⟩
      · exact ⟨_, rfl, rfl⟩

theorem drain_receive_hub (h : Hub) (id : Nat) : ∃ subscribers, subscribers.length = h.count ∧
    ((h.drain id).2.receive id).2 = { h with subscribers } := by
  obtain ⟨subscribers, count, received⟩ := receive_hub (h.drain id).2 id
  refine ⟨subscribers, count.trans (List.length_map _), received⟩

theorem settleAll_hub (now : Nat) (waits : List Wait) (h : Hub) :
    ∃ subscribers, subscribers.length = h.count ∧
      (settleAll now waits h).2 = { h with subscribers } := by
  induction waits generalizing h with
  | nil => exact ⟨_, rfl, rfl⟩
  | cons wait waits ih =>
    have read : ∃ subscribers, subscribers.length = h.count ∧
        (wait.settle now h).2 = { h with subscribers } := by
      unfold Wait.settle
      split
      · exact ⟨_, rfl, rfl⟩
      · exact ⟨_, rfl, rfl⟩
      · exact drain_receive_hub h _
    obtain ⟨first, count, here⟩ := read
    obtain ⟨second, same, rest⟩ := ih (wait.settle now h).2
    rw [here] at same rest
    refine ⟨second, same.trans count, ?_⟩
    simp only [settleAll, here, rest]

theorem settle_abreast (w : World) : Abreast w w.settle := by
  obtain ⟨subscribers, count, hub⟩ := settleAll_hub w.now w.waits w.hub
  refine ⟨subscribers, (settleAll w.now w.waits w.hub).1, w.opened, count, ?_⟩
  simp only [settle, hub]

theorem Abreast.settle (h : Abreast w v) : Abreast w.settle v.settle :=
  (settle_abreast w).symm.trans (h.trans (settle_abreast v))

theorem Abreast.arrive (h : Abreast w v) (time : Nat) (ns : List Notification) :
    Abreast (w.arrive time ns) (v.arrive time ns) := by
  obtain ⟨subscribers, waits, opened, count, rfl⟩ := h
  refine ⟨subscribers, waits, opened, ?_, ?_⟩
  · simpa [World.arrive, Hub.count] using count
  · simp [World.arrive, Hub.publishAll_eq, Hub.heard]

theorem publish_abreast {h : Hub} {subscribers : List Subscriber}
    (count : subscribers.length = h.count) (n : Notification) :
    (Hub.publish n { h with subscribers }).1 = (h.publish n).1 ∧
      (Hub.publish n { h with subscribers }).2 = { (h.publish n).2 with subscribers } := by
  have same : Hub.count { h with subscribers } = h.count := count
  unfold Hub.publish
  rw [same]
  split <;> exact ⟨rfl, rfl⟩

theorem Abreast.withSchedule (h : Abreast w v) (s : Schedule) :
    Abreast { w with schedule := s } { v with schedule := s } := by
  obtain ⟨subscribers, waits, opened, count, rfl⟩ := h
  exact ⟨subscribers, waits, opened, count, rfl⟩

theorem Abreast.passFrom (h : Abreast w v) (limit : Nat) (s : Schedule) :
    Abreast (w.passFrom (fun _ => false) limit s) (v.passFrom (fun _ => false) limit s) := by
  have waited {w v : World} (h : Abreast w v) (s : Schedule) :
      Abreast { w with now := max w.now limit, schedule := s }
        { v with now := max v.now limit, schedule := s } := by
    obtain ⟨subscribers, waits, opened, count, rfl⟩ := h
    exact ⟨subscribers, waits, opened, count, rfl⟩
  induction s generalizing w v with
  | nil => exact waited h []
  | cons m s ih =>
    simp only [World.passFrom]
    split
    · exact ih (h.arrive m.1 m.2).settle
    · split
      · exact (h.arrive m.1 m.2).withSchedule s
      · exact waited h (m :: s)

theorem Abreast.endStream (h : Abreast w v) : Abreast w.endStream v.endStream := by
  obtain ⟨subscribers, waits, opened, count, rfl⟩ := h
  exact ⟨subscribers, waits, opened, count, rfl⟩

theorem Abreast.schedule (h : Abreast w v) : v.schedule = w.schedule := by
  obtain ⟨_, _, _, _, rfl⟩ := h
  rfl

theorem Abreast.pass (h : Abreast w v) (limit : Nat) :
    Abreast (w.pass (fun _ => false) limit) (v.pass (fun _ => false) limit) := by
  have passed {w v : World} (h : Abreast w v) (limit : Nat) :
      Abreast (w.passFrom (fun _ => false) limit w.schedule)
        (v.passFrom (fun _ => false) limit v.schedule) := by
    rw [h.schedule]
    exact h.passFrom limit _
  have ending : v.ending = w.ending := by
    obtain ⟨_, _, _, _, rfl⟩ := h
    rfl
  unfold World.pass
  rw [ending]
  split
  · exact passed h limit
  · split
    · exact passed h limit
    · simp only [passEnding, Bool.false_eq_true, if_false]
      exact passed (passed h _).endStream.settle limit

theorem Abreast.sleep (h : Abreast w v) (milliseconds : Nat) :
    Abreast (w.sleep milliseconds) (v.sleep milliseconds) := by
  unfold World.sleep
  split
  · exact h
  · rw [h.now]
    exact h.settle.pass _

theorem Abreast.answer (h : Abreast w v) {r : Request} (plain : ¬ r.Listens) :
    (v.answer r).1 = (w.answer r).1 ∧ Abreast (w.answer r).2 (v.answer r).2 ∧
      v.announced r = w.announced r := by
  obtain ⟨subscribers, waits, opened, count, rfl⟩ := h
  cases r with
  | inject event =>
    refine ⟨rfl, ⟨subscribers, waits, opened, ?_, ?_⟩, rfl⟩
    · simpa [World.answer, inject, Hub.count] using count
    · simp [World.answer, inject, Hub.publishAll_eq, Hub.heard, reactionsTo]
  | publish n =>
    obtain ⟨reached, published⟩ := publish_abreast count n
    refine ⟨reached, ⟨subscribers, waits, opened, ?_, ?_⟩, rfl⟩
    · simpa [World.answer, World.publish, Hub.publish_eq, Hub.count] using count
    · simp only [World.answer, World.publish, published]
  | rotate command =>
    simp only [World.answer, rotate]
    split <;> exact ⟨rfl, ⟨subscribers, waits, opened, count, rfl⟩, rfl⟩
  | listen => exact absurd trivial plain
  | _ => exact ⟨rfl, ⟨subscribers, waits, opened, count, rfl⟩, rfl⟩

/-- A script does the same in worlds that are abreast, takes the same time and publishes the same at
the same times. -/
theorem Abreast.run {α : Type} {a : Activity α} (script : a.IsScript) (h : Abreast w v) :
    (v.run a).1 = (w.run a).1 ∧ (v.run a).2.now = (w.run a).2.now ∧ v.emits a = w.emits a := by
  induction a generalizing w v with
  | done | stop => exact ⟨rfl, h.now, rfl⟩
  | ask request next ih =>
    obtain ⟨answer, after, announced⟩ := h.answer script.1
    obtain ⟨result, ends, emits⟩ := ih (w.answer request).1 (script.2 _) after
    simp only [World.run, World.emits, answer, announced, h.now, emits]
    exact ⟨result, ends, trivial⟩
  | sleep milliseconds next ih => exact ih script (h.sleep milliseconds)
  | await wait next => exact script.elim

end Abreast

end CorrelatedInput.World
