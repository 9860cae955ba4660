import CorrelatedInput.Proofs.Run.Activity
/-!
Worlds between two operations. Nobody waits there, the hub is open and will stay so, it keeps what
its capacity allows, and the subscriptions it hands out next are new ones. Every operation leads
from such a world to another, whatever it runs and whatever others publish meanwhile.
-/
namespace CorrelatedInput

/-- The hub is open, keeps `room` notifications for each subscriber, and has handed out the id of
every subscriber before the next one. -/
structure Hub.Sound (room : Nat) (h : Hub) : Prop where
  room : h.limit = room
  known : ∀ s ∈ h.subscribers, s.id < h.nextId
  isOpen : h.isOpen = true

namespace Hub

variable {room : Nat} {h : Hub}

theorem ofCapacity_sound (capacity : Nat) :
    (ofCapacity capacity).Sound (max capacity 1).nextPowerOfTwo :=
  ⟨rfl, by simp [ofCapacity], rfl⟩

theorem Sound.publishAll (hs : h.Sound room) (ns : List Notification) :
    (h.publishAll ns).Sound room := by
  rw [publishAll_eq]
  exact ⟨hs.room, hs.known, hs.isOpen⟩

theorem Sound.subscribe (hs : h.Sound room) : h.subscribe.2.Sound room := by
  refine ⟨hs.room, ?_, hs.isOpen⟩
  intro s hm
  rcases List.mem_append.mp hm with hm | hm
  · exact Nat.lt_succ_of_lt (hs.known s hm)
  · cases List.mem_singleton.mp hm
    exact Nat.lt_succ_self _

theorem Sound.unsubscribe (hs : h.Sound room) (id : Nat) : (h.unsubscribe id).Sound room := by
  refine ⟨hs.room, ?_, hs.isOpen⟩
  intro s hm
  exact hs.known s (List.mem_filter.mp hm).1

theorem Sound.advance (hs : h.Sound room) (id next : Nat) : (h.advance id next).Sound room := by
  refine ⟨hs.room, ?_, hs.isOpen⟩
  intro s hm
  obtain ⟨k, hk, rfl⟩ := List.mem_map.mp hm
  have known := hs.known k hk
  split <;> exact known

theorem Sound.receive (hs : h.Sound room) (id : Nat) : (h.receive id).2.Sound room := by
  unfold Hub.receive
  split
  · exact hs
  · split
    · exact hs.advance _ _
    · split
      · exact hs.advance _ _
      · exact hs

end Hub

namespace World

/-- The hub is open, whoever subscribes to it, and its stream never ends: there is always somebody
who may publish. -/
structure Steady (room : Nat) (w : World) : Prop where
  sound : w.hub.Sound room
  endless : w.ending = none

/-- Nobody waits, and the hub is an open one of a capacity, whoever subscribes to it. -/
structure AtRest (capacity : Nat) (w : World) : Prop extends
    Steady (max capacity 1).nextPowerOfTwo w where
  idle : w.waits = []

theorem fresh_atRest (capacity : Nat) (sink : Sink) (reactions : List Reaction) (device : Device) :
    (fresh capacity sink reactions device).AtRest capacity :=
  ⟨⟨Hub.ofCapacity_sound capacity, rfl⟩, rfl⟩

section Steady

variable {room : Nat} {w : World}

theorem unsubscribe_sound (waits : List Wait) {h : Hub} (hs : h.Sound room) :
    (unsubscribe waits h).Sound room := by
  unfold unsubscribe
  induction waits.filterMap Wait.subscription generalizing h with
  | nil => exact hs
  | cons id ids ih => exact ih (hs.unsubscribe id)

theorem settleAll_sound (now : Nat) (waits : List Wait) {h : Hub} (hs : h.Sound room) :
    (settleAll now waits h).2.Sound room := by
  induction waits generalizing h with
  | nil => exact hs
  | cons wait waits ih =>
    apply ih
    split
    · exact hs
    · exact hs
    · exact (hs.advance _ _).receive _

theorem Steady.settle (hs : w.Steady room) : w.settle.Steady room :=
  ⟨settleAll_sound _ _ hs.sound, hs.endless⟩

theorem Steady.passFrom (hs : w.Steady room) (enough : World → Bool) (limit : Nat) (s : Schedule) :
    (w.passFrom enough limit s).Steady room := by
  induction s generalizing w with
  | nil => exact ⟨hs.sound, hs.endless⟩
  | cons m s ih =>
    have arrived : (w.arrive m.1 m.2).Steady room := ⟨hs.sound.publishAll m.2, hs.endless⟩
    simp only [World.passFrom]
    split
    · split
      · exact ⟨arrived.settle.sound, hs.endless⟩
      · exact ih arrived.settle
    · split
      · exact ⟨arrived.sound, hs.endless⟩
      · exact ⟨hs.sound, hs.endless⟩

/-- While the stream goes on, it makes no difference to the time that passes. -/
theorem pass_eq_passFrom (endless : w.ending = none) (enough : World → Bool) (limit : Nat) :
    w.pass enough limit = w.passFrom enough limit w.schedule := by
  rw [pass, endless]

theorem Steady.pass (hs : w.Steady room) (enough : World → Bool) (limit : Nat) :
    (w.pass enough limit).Steady room := by
  rw [pass_eq_passFrom hs.endless]
  exact hs.passFrom enough limit _

theorem Steady.answer (hs : w.Steady room) (r : Request) : (w.answer r).2.Steady room := by
  refine ⟨?_, ?_⟩
  · cases r with
    | inject event => exact hs.sound.publishAll _
    | publish n => exact hs.sound.publishAll [n]
    | rotate command =>
      simp only [World.answer, rotate]
      split <;> exact hs.sound
    | listen source condition timeout =>
      cases source with
      | hub => exact hs.sound.subscribe
      | ended => exact hs.sound
    | _ => exact hs.sound
  · cases r with
    | rotate command =>
      simp only [World.answer, rotate]
      split <;> exact hs.endless
    | _ => exact hs.endless

theorem Steady.sleep (hs : w.Steady room) (milliseconds : Nat) :
    (w.sleep milliseconds).Steady room := by
  unfold World.sleep
  split
  · exact hs
  · exact hs.settle.pass _ _

theorem Steady.close (hs : w.Steady room) (id : Nat) : (w.close id).Steady room :=
  ⟨unsubscribe_sound _ hs.sound, hs.endless⟩

theorem Steady.closeAll (hs : w.Steady room) : w.closeAll.Steady room :=
  ⟨unsubscribe_sound _ hs.sound, hs.endless⟩

theorem Steady.await (hs : w.Steady room) (id : Nat) : (w.await id).2.Steady room := by
  simp only [World.await]
  split
  · exact (hs.settle.pass _ _).settle.close id
  · exact hs.settle.close id

theorem Steady.run {α : Type} (a : Activity α) {w : World} (hs : w.Steady room) :
    (w.run a).2.Steady room := by
  induction a generalizing w with
  | done => exact hs
  | stop => exact hs.closeAll
  | ask request next ih => exact ih _ (hs.answer request)
  | sleep milliseconds next ih => exact ih (hs.sleep milliseconds)
  | await wait next ih => exact ih _ (hs.await wait)

end Steady

/-- Whatever is performed, and whatever others publish meanwhile, the world is at rest again. -/
theorem perform_atRest {α : Type} {capacity : Nat} {w : World} (rest : w.AtRest capacity)
    (arrivals : List (Nat × Notification)) (a : Activity α) :
    (w.perform arrivals a).2.AtRest capacity := by
  have start : Steady (max capacity 1).nextPowerOfTwo
      { w with schedule := Schedule.ofDelays w.now arrivals } := ⟨rest.sound, rest.endless⟩
  have after := (start.run a).closeAll
  exact ⟨⟨after.sound, after.endless⟩, rfl⟩

end World

end CorrelatedInput
