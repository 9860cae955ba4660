import CorrelatedInput.Proofs.Run.Activity
/-!
What a silent activity depends on. It learns nothing of the hub, of those who wait and of what
others publish, so two worlds that differ in nothing else run it alike. Time passes for it by what
it sleeps, and whoever waits meanwhile neither hurries nor delays it.
-/
namespace CorrelatedInput.World

/-- Two worlds that differ at most in the hub, in who waits, in what others will publish and in the
end of the stream. -/
def Alike (w v : World) : Prop :=
  ∃ hub schedule ending waits opened, v = { w with hub, schedule, ending, waits, opened }

section Alike

variable {u v w : World}

theorem Alike.refl (w : World) : Alike w w := ⟨_, _, _, _, _, rfl⟩

theorem Alike.symm (h : Alike w v) : Alike v w := by
  obtain ⟨hub, schedule, ending, waits, opened, rfl⟩ := h
  exact ⟨_, _, _, _, _, rfl⟩

theorem Alike.trans (h : Alike u v) (k : Alike v w) : Alike u w := by
  obtain ⟨_, _, _, _, _, rfl⟩ := h
  obtain ⟨hub, schedule, ending, waits, opened, rfl⟩ := k
  exact ⟨hub, schedule, ending, waits, opened, rfl⟩

theorem Alike.later (h : Alike w v) (now : Nat) :
    Alike { w with now := now } { v with now := now } := by
  obtain ⟨hub, schedule, ending, waits, opened, rfl⟩ := h
  exact ⟨hub, schedule, ending, waits, opened, rfl⟩

theorem Alike.now (h : Alike w v) : v.now = w.now := by
  obtain ⟨_, _, _, _, _, rfl⟩ := h
  rfl

theorem Alike.sink (h : Alike w v) : v.sink = w.sink := by
  obtain ⟨_, _, _, _, _, rfl⟩ := h
  rfl

theorem Alike.device (h : Alike w v) : v.device = w.device := by
  obtain ⟨_, _, _, _, _, rfl⟩ := h
  rfl

end Alike

/-! What others do -/

theorem settle_alike (w : World) : Alike w w.settle := ⟨_, _, _, _, _, rfl⟩

theorem listen_alike (w : World) (source : Source) (condition : Condition) (timeout : Nat) :
    Alike w (w.listen source condition timeout).2 := ⟨_, _, _, _, _, rfl⟩

theorem closeAll_alike (w : World) : Alike w w.closeAll := ⟨_, _, _, _, _, rfl⟩

theorem passFrom_alike (enough : World → Bool) (limit : Nat) (s : Schedule) (w : World) :
    Alike { w with now := (w.passFrom enough limit s).now } (w.passFrom enough limit s) := by
  induction s generalizing w with
  | nil => exact ⟨_, _, _, _, _, rfl⟩
  | cons m s ih =>
    have arrived (now : Nat) :
        Alike { w with now := now } { (w.arrive m.1 m.2).settle with now := now } :=
      ⟨_, _, _, _, _, rfl⟩
    simp only [passFrom]
    split
    · split
      · exact ⟨_, _, _, _, _, rfl⟩
      · exact (arrived _).trans (ih _)
    · split <;> exact ⟨_, _, _, _, _, rfl⟩

/-- While time passes, nothing but the time changes. -/
theorem pass_alike (enough : World → Bool) (limit : Nat) (w : World) :
    Alike { w with now := (w.pass enough limit).now } (w.pass enough limit) :=
  pass_preserves (fun v => Alike { w with now := v.now } v)
    (fun _ _ v h => (h.later _).trans (passFrom_alike _ _ _ v))
    (fun _ h => h.trans ⟨_, _, _, _, _, rfl⟩) (fun v h => h.trans (settle_alike v)) limit (.refl w)

theorem sleep_alike (w : World) (milliseconds : Nat) :
    Alike { w with now := w.now + milliseconds } (w.sleep milliseconds) := by
  unfold sleep
  split
  · rename_i none
    rw [none]
    exact .refl w
  · have passed := ((settle_alike w).later _).trans
      (pass_alike (fun _ => false) (w.now + milliseconds) w.settle)
    have now : w.settle.now ≤ w.now + milliseconds := Nat.le_add_right _ _
    rwa [pass_now now] at passed

theorem await_alike (w : World) (id : Nat) :
    Alike { w with now := (w.await id).2.now } (w.await id).2 := by
  have closed (v : World) : Alike v (v.close id) := ⟨_, _, _, _, _, rfl⟩
  simp only [await]
  -- the wait may end after some time or at once, and is closed either way
  split
  · refine .trans ?_ (closed _)
    exact ((settle_alike w).later _).trans ((pass_alike _ _ _).trans (settle_alike _))
  · exact (settle_alike w).trans (closed _)

/-! What a silent activity does -/

section Silent

variable {w v : World}

theorem Alike.answer (h : Alike w v) {r : Request} (silent : ¬ r.Listens ∧ ¬ r.Publishes) :
    (v.answer r).1 = (w.answer r).1 ∧ Alike (w.answer r).2 (v.answer r).2 ∧
      v.announced r = w.announced r := by
  obtain ⟨hub, schedule, ending, waits, opened, rfl⟩ := h
  cases r with
  | publish n => exact absurd trivial silent.2
  | listen => exact absurd trivial silent.1
  | rotate command =>
    simp only [World.answer, rotate]
    split <;> exact ⟨rfl, ⟨_, _, _, _, _, rfl⟩, rfl⟩
  | _ => exact ⟨rfl, ⟨_, _, _, _, _, rfl⟩, rfl⟩

theorem Alike.sleep (h : Alike w v) (milliseconds : Nat) :
    Alike (w.sleep milliseconds) (v.sleep milliseconds) := by
  have slept := sleep_alike v milliseconds
  rw [h.now] at slept
  exact (sleep_alike w milliseconds).symm.trans ((h.later _).trans slept)

/-- A silent activity does the same in worlds that are alike, at the same times. -/
theorem Alike.run {α : Type} {a : Activity α} (silent : a.IsSilent) (h : Alike w v) :
    (v.run a).1 = (w.run a).1 ∧ Alike (w.run a).2 (v.run a).2 ∧ v.emits a = w.emits a := by
  induction a generalizing w v with
  | done => exact ⟨rfl, h, rfl⟩
  | stop => exact ⟨rfl, (closeAll_alike w).symm.trans (h.trans (closeAll_alike v)), rfl⟩
  | ask request next ih =>
    obtain ⟨answer, after, announced⟩ := h.answer silent.1
    obtain ⟨result, ended, emits⟩ := ih (w.answer request).1 (silent.2 _) after
    simp only [World.run, World.emits, answer, announced, h.now, emits]
    exact ⟨result, ended, trivial⟩
  | sleep milliseconds next ih => exact ih silent (h.sleep milliseconds)
  | await wait next => exact silent.elim

/-- What drives input publishes nothing, unless something reacts to it. -/
theorem emits_eq_nil {α : Type} {a : Activity α} (silent : a.IsSilent)
    (calm : w.reactions = []) : w.emits a = [] := by
  induction a generalizing w with
  | done | stop => rfl
  | ask request next ih =>
    obtain ⟨sink, recorder, device, same⟩ := answer_changes (w := w) silent.1.1
    have nothing : w.announced request = [] := by
      cases request with
      | publish n => exact absurd trivial silent.1.2
      | inject event => simp [announced, reactionsTo, calm]
      | _ => rfl
    rw [emits, nothing, ih _ (silent.2 _) (by rw [same]; exact calm)]
    rfl
  | sleep milliseconds next ih =>
    obtain ⟨hub, schedule, ending, waits, opened, slept⟩ := sleep_alike w milliseconds
    rw [emits]
    exact ih silent (by rw [slept]; exact calm)
  | await wait next => exact silent.elim

end Silent

end CorrelatedInput.World
