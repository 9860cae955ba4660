import CorrelatedInput.Storage.Tree
/-!
What is put into a tree is found there, no directory is lost by it, and away from its place nothing
changes.
-/
namespace CorrelatedInput.Tree

@[simp] theorem entries_directory (es : List (String × Tree)) : (directory es).entries = es := rfl

@[simp] theorem get?_put (new : Tree) (place : Place) (t : Tree) :
    (put new place t).get? place = some new := by
  induction place generalizing t with
  | nil => rfl
  | cons name rest ih => simp [put, get?, ih]

theorem lookup_filter_ne {name other : String} (apart : other ≠ name)
    (entries : List (String × Tree)) :
    (entries.filter fun e => e.1 ≠ name).lookup other = entries.lookup other := by
  induction entries with
  | nil => rfl
  | cons e entries ih =>
    obtain ⟨key, t⟩ := e
    by_cases here : key = name
    · have passed : (other == key) = false := by simpa [here] using apart
      simpa [here, List.lookup_cons, here ▸ passed] using ih
    · by_cases found : other = key <;> simp_all [List.lookup_cons]

/-- What is put where there is no directory leaves every directory a directory. -/
theorem directory_put (new : Tree) {place d : Place} {t : Tree}
    (free : ∀ es, t.get? place ≠ some (.directory es)) {es : List (String × Tree)}
    (there : t.get? d = some (.directory es)) :
    ∃ es, (put new place t).get? d = some (.directory es) := by
  -- down the way to the new place, as long as `d` lies on it
  induction place generalizing t d with
  | nil =>
    cases t with
    | directory es => exact absurd rfl (free es)
    | file bytes =>
      cases d with
      | nil => cases there
      | cons n d => cases there
  | cons name rest ih =>
    cases d with
    | nil => exact ⟨_, rfl⟩
    | cons n d =>
      obtain ⟨inner, found, there⟩ := Option.bind_eq_some_iff.mp there
      by_cases same : n = name
      · subst same
        have free : ∀ es, inner.get? rest ≠ some (.directory es) := by
          intro es
          simpa [get?, found] using free es
        obtain ⟨es, still⟩ := ih free there
        exact ⟨es, by simp [put, get?, found, still]⟩
      · have passed : (n == name) = false := by simpa using same
        refine ⟨es, ?_⟩
        simp only [put, get?, entries_directory, List.lookup_cons, passed, lookup_filter_ne same,
          found, Option.bind_some, there]

theorem get?_append (place d : Place) (t : Tree) :
    t.get? (place ++ d) = (t.get? place).bind (get? d) := by
  induction place generalizing t with
  | nil => rfl
  | cons name rest ih =>
    rw [List.cons_append, get?, get?, Option.bind_assoc]
    exact congrArg _ (funext ih)

theorem get?_put_apart (new : Tree) {place d : Place} {t : Tree} (off : ¬ place <+: d)
    (off' : ¬ d <+: place) : (put new place t).get? d = t.get? d := by
  induction place generalizing t d with
  | nil => exact absurd List.nil_prefix off
  | cons name rest ih =>
    cases d with
    | nil => exact absurd List.nil_prefix off'
    | cons n d =>
      by_cases same : n = name
      · subst same
        simp only [List.cons_prefix_cons, true_and] at off off'
        rw [put, get?, entries_directory, List.lookup_cons_self, Option.bind_some, ih off off', get?]
        -- where the first name led nowhere, neither does the rest of the way
        cases t.entries.lookup n with
        | some inner => rfl
        | none =>
          cases d with
          | nil => exact absurd List.nil_prefix off'
          | cons => rfl
      · have passed : (n == name) = false := by simpa using same
        simp only [put, get?, entries_directory, List.lookup_cons, passed, lookup_filter_ne same]

end CorrelatedInput.Tree
