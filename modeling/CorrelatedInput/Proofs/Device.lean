import CorrelatedInput.Device
import Mathlib.Data.List.Basic
/-!
How a device stands after all that happened to it. A freeze holds the rotation that there is, or the
one that it asks for. The device does not know how it is turned while it is frozen: when it is
unfrozen it stays as it was held, until it is turned again.
-/
namespace CorrelatedInput

namespace RotationCommand

def freezes : RotationCommand → Bool
  | .unfreeze => false
  | .freezeCurrent => true
  | .freeze _ => true

/-- The rotation that the command holds, where the device stood `before` it. -/
def held (before : Rotation) : RotationCommand → Rotation
  | .freeze r => r
  | _ => before

end RotationCommand

namespace Device

/-- What may happen to the rotation of a device: it is commanded, or turned by hand. -/
inductive Change where
  | command (c : RotationCommand)
  | turn (r : Rotation)
deriving DecidableEq

namespace Change

def freezes : Change → Bool
  | command c => c.freezes
  | turn _ => false

def turn? : Change → Option Rotation
  | command _ => none
  | turn r => some r

/-- The orientation that was last given by hand, where the device stood `before`. -/
def lastTurn (before : Rotation) (changes : List Change) : Rotation :=
  (changes.filterMap turn?).getLast?.getD before

theorem lastTurn_command (before : Rotation) (c : RotationCommand) (changes : List Change) :
    lastTurn before (command c :: changes) = lastTurn before changes := rfl

theorem lastTurn_append (before : Rotation) (first second : List Change) :
    lastTurn before (first ++ second) = lastTurn (lastTurn before first) second := by
  rw [lastTurn, List.filterMap_append, List.getLast?_append, Option.getD_or]
  rfl

/-- Where the device stood before matters only if it was not turned. -/
theorem lastTurn_eq_iff {before other : Rotation} {changes : List Change} :
    lastTurn before changes = lastTurn other changes ↔
      (∃ r, turn r ∈ changes) ∨ before = other := by
  have turned : (∃ r, turn r ∈ changes) ↔ changes.filterMap turn? ≠ [] := by
    constructor
    · rintro ⟨r, here⟩
      exact List.ne_nil_of_mem (List.mem_filterMap.mpr ⟨turn r, here, rfl⟩)
    · intro some
      obtain ⟨r, among⟩ := List.exists_mem_of_ne_nil _ some
      obtain ⟨step, here, told⟩ := List.mem_filterMap.mp among
      cases step with
      | command => cases told
      | turn => exact ⟨_, here⟩
  rw [turned, lastTurn, lastTurn]
  cases found : changes.filterMap turn? with
  | nil => simp
  | cons r rest => simp [List.getLast?_cons]

end Change

open Change (lastTurn)

def change (d : Device) : Change → Device
  | .command c => d.command c
  | .turn r => d.turn r

def after (d : Device) (changes : List Change) : Device := changes.foldl change d

section After

variable {d : Device} {c : RotationCommand} {changes first second : List Change}

theorem after_append : (d.after (first ++ second)) = (d.after first).after second := by
  simp [after]

theorem after_cons (step : Change) : d.after (step :: changes) = (d.change step).after changes :=
  rfl

/-- A device that stays free follows the hand. -/
theorem after_free (free : d.frozen = false) (none : ∀ step ∈ changes, step.freezes = false) :
    (d.after changes).frozen = false ∧ (d.after changes).rotation = lastTurn d.rotation changes := by
  induction changes generalizing d with
  | nil => exact ⟨free, rfl⟩
  | cons step changes ih =>
    obtain ⟨here, later⟩ := List.forall_mem_cons.mp none
    rw [after_cons, ← List.singleton_append, Change.lastTurn_append]
    cases step with
    | command c =>
      cases c with
      | unfreeze => exact ih rfl later
      | freezeCurrent | freeze => cases here
    | turn r =>
      have turned : d.turn r = { d with rotation := r } := by simp [turn, free]
      rw [change, turned]
      exact ih free later

/-- A device that stays frozen stays as it is. -/
theorem after_frozen (frozen : d.frozen = true) (none : ∀ step ∈ changes, step.freezes = false)
    (still : .command .unfreeze ∉ changes) : d.after changes = d := by
  induction changes with
  | nil => rfl
  | cons step changes ih =>
    obtain ⟨here, later⟩ := List.forall_mem_cons.mp none
    obtain ⟨apart, still⟩ := not_or.mp (mt List.mem_cons.mpr still)
    have same : d.change step = d := by
      cases step with
      | command c =>
        cases c with
        | unfreeze => exact absurd rfl apart
        | freezeCurrent | freeze => cases here
      | turn r => simp [change, turn, frozen]
    rw [after_cons, same, ih later still]

theorem command_freezes (freezes : c.freezes = true) :
    (d.command c).frozen = true ∧ (d.command c).rotation = c.held d.rotation := by
  cases c with
  | unfreeze => cases freezes
  | freezeCurrent | freeze => exact ⟨rfl, rfl⟩

/-- After a freeze and the next command to unfreeze, the device follows the hand from where it was
held. -/
theorem after_unfrozen (freezes : c.freezes = true)
    (none : ∀ step ∈ first ++ .command .unfreeze :: second, step.freezes = false)
    (still : .command .unfreeze ∉ first) :
    let d' := (d.command c).after (first ++ .command .unfreeze :: second)
    d'.frozen = false ∧ d'.rotation = lastTurn (c.held d.rotation) second := by
  obtain ⟨frozen, held⟩ := command_freezes (d := d) freezes
  obtain ⟨quiet, onward⟩ := List.forall_mem_append.mp none
  rw [after_append, after_frozen frozen quiet still, after_cons, ← held]
  exact after_free (d := (d.command c).command .unfreeze) rfl (List.forall_mem_cons.mp onward).2

end After

/-- How a new device stands after any commands and turns. While none of the commands was to freeze
it, it stands as it was last turned. After the last freeze it is frozen until the next command to
unfreeze it, and stands as that freeze holds it; from there on it stands as it was turned since, and
still as it was held if it was not. So it stands as it was last turned if it was turned since then,
or was held just so; turns that came while it was frozen are lost. -/
theorem rotation_by_history (longPress : Nat) :
    (∀ changes, (∀ step ∈ changes, step.freezes = false) →
      let d := (fresh longPress).after changes
      d.frozen = false ∧ d.rotation = lastTurn .natural changes) ∧
    ∀ before c later, c.freezes = true → (∀ step ∈ later, step.freezes = false) →
      let changes := before ++ .command c :: later
      let held := c.held ((fresh longPress).after before).rotation
      let d := (fresh longPress).after changes
      (.command .unfreeze ∉ later → d.frozen = true ∧ d.rotation = held) ∧
      ∀ meanwhile since, later = meanwhile ++ .command .unfreeze :: since →
        .command .unfreeze ∉ meanwhile →
          d.frozen = false ∧ d.rotation = lastTurn held since ∧
          (d.rotation = lastTurn .natural changes ↔
            (∃ r, .turn r ∈ since) ∨ held = lastTurn .natural (before ++ meanwhile)) := by
  refine ⟨fun changes none => after_free rfl none, ?_⟩
  intro before c later freezes none changes held d
  have reached : d = (((fresh longPress).after before).command c).after later := after_append
  constructor
  · intro still
    obtain ⟨frozen, holds⟩ := command_freezes (d := (fresh longPress).after before) freezes
    rw [reached, after_frozen frozen none still]
    exact ⟨frozen, holds⟩
  · rintro meanwhile since rfl still
    obtain ⟨free, follows⟩ :=
      after_unfrozen (d := (fresh longPress).after before) freezes none still
    rw [← reached] at free follows
    have turned : lastTurn .natural changes =
        lastTurn (lastTurn .natural (before ++ meanwhile)) since := by
      simp only [changes, Change.lastTurn_append, Change.lastTurn_command]
    refine ⟨free, follows, ?_⟩
    rw [follows, turned, Change.lastTurn_eq_iff]

/-- A device is turned, frozen, turned and unfrozen: the second turn is lost until a third one. -/
theorem rotation_by_history_lost_turn :
    let before : List Change := [.turn .left]
    let later : List Change := [.turn .upsideDown, .command .unfreeze]
    let reached (changes : List Change) := (fresh defaultLongPress).after changes
    let d := reached (before ++ .command .freezeCurrent :: later)
    let e := reached (before ++ .command .freezeCurrent :: (later ++ [.turn .right]))
    (reached before).rotation = .left ∧ (d.frozen = false ∧ d.rotation = .left) ∧
      e.frozen = false ∧ e.rotation = .right := by
  intro before later reached d e
  obtain ⟨free, freezes⟩ := rotation_by_history defaultLongPress
  have lost := (freezes before .freezeCurrent later rfl (by decide)).2 [.turn .upsideDown] [] rfl
    (by decide)
  have seen := (freezes before .freezeCurrent (later ++ [.turn .right]) rfl (by decide)).2
    [.turn .upsideDown] [.turn .right] rfl (by decide)
  exact ⟨(free before (by decide)).2, ⟨lost.1, lost.2.1⟩, seen.1, seen.2.1⟩

/-- So a device that is not frozen need not stand as it was last turned. -/
theorem turn_while_frozen_is_lost :
    let changes : List Change :=
      [.command .freezeCurrent, .turn .left, .command .unfreeze]
    let d := (fresh defaultLongPress).after changes
    ¬ (d.frozen = false → d.rotation = lastTurn .natural changes) ∧
      d.rotation = .natural ∧ lastTurn .natural changes = .left := by
  decide

end Device

end CorrelatedInput
