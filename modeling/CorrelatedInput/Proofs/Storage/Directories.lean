import CorrelatedInput.Proofs.Storage.Store
/-!
Files in directories that have yet to be made. Where no file stands in the way of a directory, the
directories of a path are made, and then a file can be written there.
-/
namespace CorrelatedInput

/-! The directory that a path lies in -/

namespace Path

/-- The parts of a path, with a slash after each, are the path with one more slash. -/
theorem parts_slashed (cs : List Char) : (parts cs).flatMap (· ++ ['/']) = cs ++ ['/'] := by
  fun_induction parts cs with
  | case1 => rfl
  | case2 rest ih =>
    rw [List.flatMap_cons, ih]
    rfl
  | case3 c rest _ none ih => simp [none] at ih
  | case4 c rest _ part others more ih =>
    rw [more] at ih
    rw [List.cons_append, ← ih]
    rfl

/-- A step has ended before the slash that follows it. -/
theorem stepsFrom_stop {offset : Nat} {ps : List (List Char)} {m : Step × Nat}
    (h : m ∈ stepsFrom offset ps) :
    m.2 + 1 ≤ offset + (String.ofList (ps.flatMap (· ++ ['/']))).utf8ByteSize := by
  have sized (cs : List Char) : (cs.map Char.utf8Size).sum = (String.ofList cs).utf8ByteSize := by
    induction cs with
    | nil => rfl
    | cons c cs ih =>
      rw [List.map_cons, List.sum_cons, ih, ← String.utf8ByteSize_singleton,
        String.singleton_eq_ofList, ← String.utf8ByteSize_append, ← String.ofList_append,
        List.singleton_append]
  have slash : (String.ofList ['/']).utf8ByteSize = 1 := rfl
  induction ps generalizing offset with
  | nil => cases h
  | cons part ps ih =>
    rw [List.flatMap_cons, String.ofList_append, String.ofList_append, String.utf8ByteSize_append,
      String.utf8ByteSize_append, slash, ← sized]
    rcases List.mem_append.mp h with here | later
    · simp only [Option.mem_toList, Option.map_eq_some_iff] at here
      obtain ⟨_, _, rfl⟩ := here
      omega
    · have := ih later
      omega

/-- A path of names alone lies in the directory that is named by all but the last one, and that
directory can be looked for if the path can. -/
theorem parentOf_names {path : String} {names : List String} {name : String}
    (steps : (ofText path).steps = (names ++ [name]).map .down)
    (possible : (ofText path).fault? = none) :
    (parentOf path).steps = names.map .down ∧ (parentOf path).fault? = none := by
  have moves : ((stepsFrom 0 (parts path.toList)).filter fun m => m.1 ≠ .here) =
      stepsFrom 0 (parts path.toList) := by
    rw [List.filter_eq_self]
    intro m hm
    have named : m.1 ∈ (ofText path).steps := List.mem_map_of_mem hm
    rw [steps] at named
    obtain ⟨n, _, same⟩ := List.mem_map.mp named
    simp [← same]
  have kept : (parentOf path).steps = names.map .down := by
    have dropped : (parentOf path).steps = (ofText path).steps.dropLast := by
      simp only [parentOf, ofText, moves, List.map_dropLast]
    rw [dropped, steps, List.map_append, List.map_singleton, List.dropLast_concat]
  have short : (parentOf path).size ≤ (ofText path).size := by
    simp only [parentOf, ofText, moves]
    cases last : (stepsFrom 0 (parts path.toList)).dropLast.getLast? with
    | none => exact Nat.zero_le _
    | some m =>
      have stop := stepsFrom_stop (List.dropLast_subset _ (List.mem_of_getLast? last))
      rw [Nat.zero_add, parts_slashed, String.ofList_append, String.ofList_toList,
        String.utf8ByteSize_append] at stop
      exact Nat.le_of_add_le_add_right stop
  refine ⟨kept, ?_⟩
  unfold fault? at possible ⊢
  split at possible
  · cases possible
  rename_i whole
  split at possible
  · cases possible
  rename_i few
  have unbroken : ¬ (parentOf path).steps.any Step.isBroken = true := by
    rw [steps, List.map_append, List.any_append, Bool.or_eq_true, not_or] at whole
    rw [kept]
    exact whole.1
  rw [if_neg unbroken, if_neg (Nat.not_lt_of_le (Nat.le_trans short (Nat.le_of_not_lt few)))]

end Path

namespace Store

section Making

variable {s : Store} {place d : Place}

theorem isGiven_of_append {rest : Place} (given : (place ++ rest).isGiven = true) :
    place.isGiven = true := by
  simp only [Place.isGiven, Bool.or_eq_true, decide_eq_true_eq, List.all_append,
    Bool.and_eq_true] at given ⊢
  rcases given with root | above
  · rcases List.append_eq_singleton_iff.mp root with ⟨rfl, _⟩ | ⟨rfl, _⟩
    · exact .inr rfl
    · exact .inl rfl
  · exact .inr above.1

theorem not_there (free : s.found place = .nothing) : s.root.get? place = none := by
  have given := @not_given s place (by simp [free])
  simp only [found, given, Bool.false_eq_true, if_false] at free
  split at free
  · assumption
  · cases free
  · cases free

/-- A new directory changes nothing but the way to it. -/
theorem found_putDirectory (free : s.found place = .nothing) (off : ¬ d <+: place) :
    (s.putDirectory place).found d = s.found d := by
  by_cases inside : place <+: d
  · obtain ⟨rest, rfl⟩ := inside
    cases rest with
    | nil => exact absurd (by simp) off
    | cons n rest =>
      have given : (place ++ n :: rest).isGiven = false := by
        cases given : (place ++ n :: rest).isGiven with
        | false => rfl
        | true =>
          have above := @not_given s place (by simp [free])
          rw [isGiven_of_append given] at above
          cases above
      have empty : Tree.get? (n :: rest) (.directory []) = none := rfl
      simp [found, putDirectory, given, Tree.get?_append, not_there free, empty]
  · simp only [found, putDirectory, Tree.get?_put_apart (.directory []) inside off]

theorem found_putDirectory_self (s : Store) (place : Place) :
    (s.putDirectory place).found place = .directory := by
  simp [found, putDirectory]

theorem found_empty (d : Place) : empty.found d = if d.isGiven then .directory else .nothing := by
  cases d with
  | nil => rfl
  | cons name d => rfl

end Making

end Store

namespace Access

variable {s : Store} {place : Place}

/-- Directories are made one in the other as long as no file is in the way. -/
theorem makeOnward_names (made : Bool) {names : List String}
    (short : ∀ name ∈ names, name.utf8ByteSize ≤ longestName)
    (clear : ∀ d, place <+: d → d <+: place ++ names → ∀ bytes, s.found d ≠ .file bytes) :
    ∃ t, (makeOnward made place (names.map .down)).perform s = (.ok (), t) ∧
      t.walk place (names.map .down) = .ok (place ++ names) ∧
      (∀ d, s.found d = .directory → t.found d = .directory) ∧
      ∀ d, ¬ d <+: place ++ names → t.found d = s.found d := by
  induction names generalizing made place s with
  | nil =>
    refine ⟨s, rfl, ?_, fun _ there => there, fun _ _ => rfl⟩
    rw [List.append_nil]
    rfl
  | cons name names ih =>
    obtain ⟨first, short⟩ := List.forall_mem_cons.mp short
    have first : ¬ longestName < name.utf8ByteSize := Nat.not_lt_of_le first
    have split : place ++ name :: names = place ++ [name] ++ names := by simp
    have enters (t : Store) :
        t.enter place name = .ok (place ++ [name], t.found (place ++ [name])) := if_neg first
    rw [split] at clear ⊢
    rw [List.map_cons, makeOnward, perform_bind, perform_inspect, enters s]
    have above : place <+: place ++ [name] := List.prefix_append ..
    have clear' : ∀ d, place ++ [name] <+: d → d <+: place ++ [name] ++ names →
        ∀ bytes, s.found d ≠ .file bytes := fun d below => clear d (above.trans below)
    cases inner : s.found (place ++ [name]) with
    | file bytes =>
      exact absurd inner (clear' _ (List.prefix_refl _) (List.prefix_append ..) bytes)
    | directory =>
      obtain ⟨t, made, walked, kept, same⟩ := ih made short clear'
      refine ⟨t, made, ?_, kept, same⟩
      rw [Store.walk, enters t, kept _ inner]
      exact walked
    | nothing =>
      have clear'' : ∀ d, place ++ [name] <+: d → d <+: place ++ [name] ++ names →
          ∀ bytes, (s.putDirectory (place ++ [name])).found d ≠ .file bytes := by
        intro d below within
        by_cases here : d <+: place ++ [name]
        · rw [List.IsPrefix.eq_of_length_le here below.length_le, Store.found_putDirectory_self]
          intro bytes same
          cases same
        · rw [Store.found_putDirectory inner here]
          exact clear' d below within
      obtain ⟨t, made, walked, kept, same⟩ := ih true short clear''
      have there := kept _ (Store.found_putDirectory_self s (place ++ [name]))
      refine ⟨t, made, ?_, ?_, ?_⟩
      · rw [Store.walk, enters t, there]
        exact walked
      · intro d found
        exact kept d (Store.directory_put (by simp [inner]) (.directory []) found)
      · intro d off
        have apart : ¬ d <+: place ++ [name] := fun on => off (on.trans (List.prefix_append ..))
        rw [same d off, Store.found_putDirectory inner apart]

end Access

namespace Store

/-- A path of names alone, with no file where one of its directories has to be and no directory where
its file has to be. -/
structure Vacant (s : Store) (path : String) (names : List String) (name : String) : Prop where
  possible : (Path.ofText path).fault? = none
  steps : (Path.ofText path).steps = (names ++ [name]).map .down
  plain : (Path.ofText path).slashed = false
  short : ∀ n ∈ names ++ [name], n.utf8ByteSize ≤ longestName
  clear : ∀ d, d <+: (Path.ofText path).start ++ names → ∀ bytes, s.found d ≠ .file bytes
  free : s.found ((Path.ofText path).start ++ names ++ [name]) ≠ .directory

section Vacant

variable {s t : Store} {path : String} {place : Place} {names : List String} {name : String}

/-- After its directories were made the path leads to a file or to where one can be. -/
theorem Vacant.createParents (h : s.Vacant path names name) :
    ∃ t, (Access.createParents path).perform s = (.ok (), t) ∧
      t.Leads path ((Path.ofText path).start ++ names ++ [name]) := by
  obtain ⟨steps, possible⟩ := Path.parentOf_names h.steps h.possible
  have clear : ∀ d, (Path.ofText path).start <+: d → d <+: (Path.ofText path).start ++ names →
      ∀ bytes, s.found d ≠ .file bytes := fun d _ => h.clear d
  obtain ⟨t, made, walked, _, same⟩ :=
    Access.makeOnward_names false (fun n hn => h.short n (List.mem_append_left _ hn)) clear
  have last : ((names ++ [name]).map Step.down).getLast? = some (.down name) := by simp
  have above : ((names ++ [name]).map Step.down).dropLast = names.map .down := by simp
  have beyond : ¬ (Path.ofText path).start ++ names ++ [name] <+:
      (Path.ofText path).start ++ names := by
    intro within
    have longer := within.length_le
    simp only [List.length_append, List.length_singleton] at longer
    omega
  refine ⟨t, ?_, h.possible, ?_, h.plain, ⟨_, name, ?_, ?_, h.short name (by simp), rfl⟩, ?_⟩
  · rw [Access.createParents, Access.makeDirectories, possible, steps]
    exact made
  · simp [Path.isEmpty, h.steps]
  · rw [h.steps, last]
  · rw [h.steps, above, walked]
  · rw [same _ beyond]
    exact h.free

theorem Leads.writeText (h : s.Leads path place) (text : String) :
    (Access.writeText path text).perform s = (.ok (), s.putFile place text.toUTF8) := by
  have found := h.find true
  have free := h.free
  rw [Access.perform_writeText, fileAt, found]
  cases here : s.found place with
  | nothing | file => rfl
  | directory => exact absurd here free

end Vacant

end Store

end CorrelatedInput
