import Mathlib.Data.List.Forall2
/-!
Steps that may fail. What succeeds as a whole succeeds step by step, and a list is gone through
without a failure if each of its elements is.
-/
namespace CorrelatedInput

section Steps

variable {ε α β : Type}

theorem of_bind_ok {x : Except ε α} {f : α → Except ε β} {y : β}
    (h : (x >>= f) = .ok y) : ∃ a, x = .ok a ∧ f a = .ok y := by
  cases x with
  | error e => cases h
  | ok a => exact ⟨a, rfl, h⟩

theorem bind_eq_ok_iff {x : Except ε α} {f : α → Except ε β} {y : β} :
    (x >>= f) = .ok y ↔ ∃ a, x = .ok a ∧ f a = .ok y := by
  constructor
  · exact of_bind_ok
  · rintro ⟨a, rfl, h⟩
    exact h

theorem mapM_ok {f : α → Except ε β} {related : α → β → Prop} {l : List α}
    (h : ∀ a ∈ l, ∃ b, f a = .ok b ∧ related a b) :
    ∃ bs, l.mapM f = .ok bs ∧ List.Forall₂ related l bs := by
  induction l with
  | nil => exact ⟨[], rfl, .nil⟩
  | cons a l ih =>
    obtain ⟨b, first, here⟩ := h a List.mem_cons_self
    obtain ⟨bs, others, there⟩ := ih fun a ha => h a (List.mem_cons_of_mem _ ha)
    refine ⟨b :: bs, ?_, .cons here there⟩
    rw [List.mapM_cons, first, others]
    rfl

theorem mapM_eq_ok {f : α → Except ε β} {g : α → β} {l : List α}
    (h : ∀ a ∈ l, f a = .ok (g a)) : l.mapM f = .ok (l.map g) := by
  induction l with
  | nil => rfl
  | cons a l ih =>
    rw [List.mapM_cons, h a List.mem_cons_self, ih fun a ha => h a (List.mem_cons_of_mem _ ha)]
    rfl

theorem mapM_eq_error_iff {f : α → Except ε β} {l : List α} {fault : ε} :
    l.mapM f = .error fault ↔ ∃ front a back, l = front ++ a :: back ∧
      (∀ x ∈ front, ∃ y, f x = .ok y) ∧ f a = .error fault := by
  induction l with
  | nil => simp [pure, Except.pure]
  | cons x l ih =>
    rw [List.mapM_cons]
    cases first : f x with
    | error other =>
      constructor
      · rintro ⟨⟩
        exact ⟨[], x, l, rfl, by simp, first⟩
      · rintro ⟨front, a, back, split, fine, failed⟩
        cases front with
        | nil =>
          rw [(List.cons.inj split).1, failed] at first
          cases first
          rfl
        | cons _ front =>
          obtain ⟨y, read⟩ := fine x (by rw [(List.cons.inj split).1]; exact List.mem_cons_self)
          rw [first] at read
          cases read
    | ok y =>
      have later : (do let ys ← l.mapM f; pure (y :: ys)) = .error fault ↔
          l.mapM f = .error fault := by
        cases l.mapM f <;> simp [bind, Except.bind, pure, Except.pure]
      refine Iff.trans later (ih.trans ?_)
      constructor
      · rintro ⟨front, a, back, rfl, fine, failed⟩
        exact ⟨x :: front, a, back, rfl, List.forall_mem_cons.mpr ⟨⟨y, first⟩, fine⟩, failed⟩
      · rintro ⟨front, a, back, split, fine, failed⟩
        cases front with
        | nil =>
          rw [← (List.cons.inj split).1, first] at failed
          cases failed
        | cons _ front =>
          exact ⟨front, a, back, (List.cons.inj split).2, (List.forall_mem_cons.mp fine).2, failed⟩

end Steps

end CorrelatedInput
