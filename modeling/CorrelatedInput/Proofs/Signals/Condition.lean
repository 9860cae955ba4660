import CorrelatedInput.Proofs.Signals.Kind
import CorrelatedInput.Proofs.Signals.Timeline
/-!
What a condition makes of a stream, by the kinds that have come. How often they came and in which
order makes no difference. A condition that asks for less, or for any kind instead of all, holds no
later than one that asks for more.
-/
namespace CorrelatedInput

namespace Condition

open KindSet (ofList)

/-- A condition that has taken note of some kinds, whether or not it held in between. -/
def after (c : Condition) (seen : List Kind) : Condition :=
  seen.foldl (fun c k => (c.observe k).1) c

theorem after_concat (c : Condition) (seen : List Kind) (k : Kind) :
    c.after (seen ++ [k]) = ((c.after seen).observe k).1 := by simp [after]

section History

variable {kinds left : KindSet} {k : Kind}

theorem observe_all (sub : kinds.includes left) :
    (all kinds left).observe k =
      (all kinds (left.erase k), kinds.contains k && (left.erase k).isEmpty) := by
  cases asked : kinds.contains k with
  | true => simp [observe, asked]
  | false =>
    have absent : left.contains k = false := by
      rw [← Bool.not_eq_true] at asked ⊢
      exact fun found => asked (KindSet.contains_of_includes sub found)
    simp [observe, asked, KindSet.erase_of_not_contains absent]

theorem includes_diff (kinds seen : KindSet) : kinds.includes (kinds.diff seen) := by
  rw [KindSet.includes_iff]
  intro i
  simp only [KindSet.bit_diff, Bool.and_eq_true]
  exact And.left

theorem after_all (kinds : KindSet) (seen : List Kind) :
    (all kinds kinds).after seen = all kinds (kinds.diff (ofList seen)) := by
  induction seen using List.reverseRecOn with
  | nil =>
    have same : kinds.diff (ofList []) = kinds := KindSet.ext_bit fun i => by simp
    rw [same]
    rfl
  | append_singleton seen k ih =>
    rw [after_concat, ih, observe_all (includes_diff _ _), KindSet.ofList_concat,
      KindSet.diff_insert]

theorem after_any (kinds : KindSet) (seen : List Kind) : (any kinds).after seen = any kinds := by
  induction seen using List.reverseRecOn with
  | nil => rfl
  | append_singleton seen k ih =>
    rw [after_concat, ih]
    rfl

/-- What names no kind is never taken out of what is missing. -/
theorem missing_of_unknown (unknown : (kinds.diff .every).isEmpty = false) (seen : List Kind) :
    (kinds.diff (ofList seen)).isEmpty = false := by
  obtain ⟨i, here⟩ := KindSet.isEmpty_eq_false_iff.mp unknown
  rw [KindSet.isEmpty_eq_false_iff]
  refine ⟨i, ?_⟩
  simp only [KindSet.bit_diff, KindSet.every, KindSet.bit_ofList, Bool.and_eq_true,
    Bool.not_eq_true', List.any_eq_false] at here ⊢
  constructor
  · exact here.1
  · intro k _
    exact here.2 k k.mem_all

end History

/-- A condition takes note of which kinds have come and of nothing else. In the mode `all` it is
left with the kinds that have not come yet; in the mode `any` it stays as it is. It holds at a kind
that it asks for, if nothing is left then or any kind is enough; a kind that it does not ask for
changes nothing. What names no kind never comes. -/
theorem observation_by_history (mode : WaitMode) (kinds : KindSet) :
    (kinds.isEmpty → make mode kinds = .error (.invalidArgument .noKinds)) ∧
    (kinds.isEmpty = false → ∃ c, make mode kinds = .ok c ∧ ∀ seen : List Kind,
      let now := c.after seen
      (now.mode = mode ∧ now.kinds = kinds) ∧
      now.remaining = (match mode with
        | .any => kinds
        | .all => kinds.diff (ofList seen)) ∧
      (∀ other : List Kind, (∀ k, k ∈ other ↔ k ∈ seen) → c.after other = now) ∧
      ∀ k : Kind,
        ((now.observe k).2 = true ↔ kinds.contains k ∧
          (mode = .all → (kinds.diff (ofList (seen ++ [k]))).isEmpty)) ∧
        (kinds.contains k = false → now.observe k = (now, false)) ∧
        (mode = .all → (kinds.diff .every).isEmpty = false → (now.observe k).2 = false)) := by
  constructor
  · intro none
    simp [make, none]
  · intro some
    cases mode with
    | any =>
      refine ⟨any kinds, by simp [make, some], ?_⟩
      intro seen
      simp only [after_any]
      refine ⟨⟨rfl, rfl⟩, rfl, fun _ _ => trivial, ?_⟩
      intro k
      refine ⟨by simp [observe], ?_, nofun⟩
      intro absent
      simp [observe, absent]
    | all =>
      refine ⟨all kinds kinds, by simp [make, some], ?_⟩
      intro seen
      simp only [after_all]
      refine ⟨⟨rfl, rfl⟩, rfl, ?_, ?_⟩
      · intro other same
        rw [KindSet.ofList_congr same]
      · intro k
        rw [observe_all (includes_diff _ _), KindSet.ofList_concat, KindSet.diff_insert]
        refine ⟨by simp, ?_, ?_⟩
        · intro absent
          have missing : (kinds.diff (ofList seen)).contains k = false := by
            rw [KindSet.contains_eq_bit] at absent ⊢
            simp [absent]
          rw [KindSet.erase_of_not_contains missing, absent]
          rfl
        · intro _ unknown
          have left := missing_of_unknown unknown (seen ++ [k])
          rw [KindSet.ofList_concat, KindSet.diff_insert] at left
          simp [left]

/-- A window change and a click, after the click has come twice and an announcement in between. -/
theorem observation_by_history_click :
    let kinds : KindSet := .ofList [.viewClicked, .windowStateChanged]
    let seen : List Kind := [.viewClicked, .announcement, .viewClicked]
    kinds.isEmpty = false ∧
      ∃ c, make .all kinds = .ok c ∧ (c.after seen).remaining = .singleton .windowStateChanged ∧
        ((c.after seen).observe .windowStateChanged).2 = true := by
  intro kinds seen
  have some : kinds.isEmpty = false := by decide
  obtain ⟨c, made, history⟩ := (observation_by_history .all kinds).2 some
  obtain ⟨_, left, _, each⟩ := history seen
  refine ⟨some, c, made, left.trans (by decide), ?_⟩
  exact (each .windowStateChanged).1.mpr (by decide)

/-! Conditions that ask for less -/

/-- The first condition holds at the latest when the second one does: it asks for one of more kinds,
for all of fewer kinds, or for one kind instead of all. -/
inductive Sooner : Condition → Condition → Prop
  | any {few many : KindSet} (sub : many.includes few) : Sooner (any many) (any few)
  | all {few many left rest : KindSet} (sub : many.includes few) (missing : few.includes left)
      (fewer : rest.includes left) (unmet : left.isEmpty = false) (room : many.includes rest) :
      Sooner (all few left) (all many rest)
  | anyOfAll {kinds left : KindSet} : Sooner (any kinds) (all kinds left)

section Sooner

variable {c d : Condition} {k : Kind}

theorem Sooner.observe (h : Sooner d c) (holds : (c.observe k).2 = true) :
    (d.observe k).2 = true := by
  cases h with
  | any sub => exact KindSet.contains_of_includes sub holds
  | @all few many left rest sub missing fewer unmet room =>
    rw [observe_all room, Bool.and_eq_true, KindSet.isEmpty_iff] at holds
    obtain ⟨i, missed⟩ := KindSet.isEmpty_eq_false_iff.mp unmet
    -- nothing but `k` is left of the larger set, so `k` is what is left of the smaller one
    have only : ∀ j, left.bit j = true → k.place = j := by
      intro j here
      have gone := holds.2 j
      simpa [KindSet.includes_iff.mp fewer j here] using gone
    have asked : few.contains k = true := by
      rw [KindSet.contains_eq_bit, only i missed]
      exact KindSet.includes_iff.mp missing i missed
    have done : (left.erase k).isEmpty = true := by
      rw [KindSet.isEmpty_iff]
      intro j
      cases here : left.bit j with
      | false => simp [here]
      | true => simp [only j here]
    rw [observe_all missing, asked, done]
    rfl
  | anyOfAll =>
    simp only [Condition.observe] at holds ⊢
    split at holds
    · assumption
    · cases holds

theorem Sooner.next (h : Sooner d c) (waits : (d.observe k).2 = false) :
    Sooner (d.observe k).1 (c.observe k).1 := by
  cases h with
  | any sub => exact .any sub
  | @all few many left rest sub missing fewer unmet room =>
    have erased {s t : KindSet} (h : s.includes t) : s.includes (t.erase k) := by
      rw [KindSet.includes_iff] at h ⊢
      intro i here
      apply h i
      simp only [KindSet.bit_erase, Bool.and_eq_true] at here
      exact here.1
    rw [observe_all missing] at waits ⊢
    rw [observe_all room]
    refine .all sub (erased missing) ?_ ?_ (erased room)
    · rw [KindSet.includes_iff] at fewer ⊢
      intro i here
      simp only [KindSet.bit_erase, Bool.and_eq_true] at here ⊢
      exact ⟨fewer i here.1, here.2⟩
    · cases asked : few.contains k with
      | true => simpa [asked] using waits
      | false =>
        have absent : left.contains k = false := by
          rw [← Bool.not_eq_true] at asked ⊢
          exact fun found => asked (KindSet.contains_of_includes missing found)
        rwa [KindSet.erase_of_not_contains absent]
  | @anyOfAll kinds left =>
    have absent : kinds.contains k = false := waits
    simp only [Condition.observe, absent]
    exact .anyOfAll

theorem satisfaction?_cons (c : Condition) (p : Nat × Notification) (l : Timeline) :
    c.satisfaction? (p :: l) =
      if (c.observe p.2.kind).2 then some p else (c.observe p.2.kind).1.satisfaction? l := by
  obtain ⟨time, n⟩ := p
  simp only [satisfaction?]
  cases c.observe n.kind with
  | mk next holds => cases holds <;> rfl

theorem mem_of_satisfaction? {l : Timeline} {p : Nat × Notification}
    (found : c.satisfaction? l = some p) : p ∈ l := by
  induction l generalizing c with
  | nil => cases found
  | cons q l ih =>
    rw [satisfaction?_cons] at found
    split at found
    · exact Option.some.inj found ▸ List.mem_cons_self
    · exact List.mem_cons_of_mem _ (ih found)

/-- In a stream in order, the condition that asks for less holds no later. -/
theorem Sooner.satisfaction? (h : Sooner d c) {l : Timeline}
    (sorted : l.Pairwise fun p q => p.1 ≤ q.1) {time : Nat} {n : Notification}
    (found : c.satisfaction? l = some (time, n)) :
    ∃ early m, d.satisfaction? l = some (early, m) ∧ early ≤ time := by
  induction l generalizing c d with
  | nil => cases found
  | cons p l ih =>
    obtain ⟨first, rest⟩ := List.pairwise_cons.mp sorted
    cases holds : (d.observe p.2.kind).2 with
    | true =>
      refine ⟨p.1, p.2, by simp [satisfaction?_cons, holds], ?_⟩
      rcases List.mem_cons.mp (mem_of_satisfaction? found) with same | later
      · exact Nat.le_of_eq (congrArg Prod.fst same).symm
      · exact first _ later
    | false =>
      have waits : (c.observe p.2.kind).2 = false := by
        rw [← Bool.not_eq_true] at holds ⊢
        exact fun there => holds (h.observe there)
      have found : (c.observe p.2.kind).1.satisfaction? l = some (time, n) := by
        simpa [satisfaction?_cons, waits] using found
      obtain ⟨early, m, sooner, le⟩ := ih (h.next holds) rest found
      exact ⟨early, m, by simpa [satisfaction?_cons, holds] using sooner, le⟩

end Sooner

/-- What comes after the condition holds makes no difference. -/
theorem satisfaction?_append {c : Condition} {l : Timeline} {p : Nat × Notification}
    (found : c.satisfaction? l = some p) (more : Timeline) :
    c.satisfaction? (l ++ more) = some p := by
  induction l generalizing c with
  | nil => cases found
  | cons q l ih =>
    rw [satisfaction?_cons] at found
    rw [List.cons_append, satisfaction?_cons]
    cases holds : (c.observe q.2.kind).2 with
    | true => simpa [holds] using found
    | false => simpa [holds] using ih (by simpa [holds] using found)

end Condition

end CorrelatedInput
