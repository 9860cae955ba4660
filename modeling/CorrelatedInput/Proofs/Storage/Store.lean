import CorrelatedInput.Proofs.Except
import CorrelatedInput.Proofs.Storage.Tree
import CorrelatedInput.Storage.Store
/-!
Files that are written. A path leads to the same file after it was written, and the file holds what
was written into it.
-/
namespace CorrelatedInput

@[simp] theorem fromUTF8?_toByteArray (text : String) :
    String.fromUTF8? text.toByteArray = some text := dif_pos text.isValidUTF8

namespace Store

/-- The path leads to a place that is no directory, so a file can be written there. -/
structure Leads (s : Store) (path : String) (place : Place) : Prop where
  possible : (Path.ofText path).fault? = none
  named : (Path.ofText path).isEmpty = false
  plain : (Path.ofText path).slashed = false
  way : ∃ above name, (Path.ofText path).steps.getLast? = some (.down name) ∧
    s.walk (Path.ofText path).start (Path.ofText path).steps.dropLast = .ok above ∧
    name.utf8ByteSize ≤ longestName ∧ place = above ++ [name]
  free : s.found place ≠ .directory

section Leads

variable {s t : Store} {path : String} {place : Place}

theorem leads_of_find {f : Found} (look : s.find (Path.ofText path) true = .ok (place, f))
    (free : f ≠ .directory) : s.Leads path place := by
  unfold find at look
  split at look
  · cases look
  rename_i possible
  split at look
  · cases look
  rename_i some
  split at look
  · rename_i name last
    obtain ⟨above, walk, look⟩ := of_bind_ok look
    split at look
    · cases look
    rename_i behind
    unfold enter at look
    split at look
    · cases look
    rename_i short
    obtain ⟨rfl, rfl⟩ := Prod.mk.inj (Except.ok.inj look)
    have way := Nat.le_of_not_lt short
    exact ⟨possible, by simpa using some, by simpa using behind,
      ⟨above, name, last, walk, way, rfl⟩, free⟩
  · -- a path that ends in dots, or at the root, leads to a directory
    obtain ⟨above, _, look⟩ := of_bind_ok look
    obtain ⟨_, directory⟩ := Prod.mk.inj (Except.ok.inj look)
    exact absurd directory.symm free

theorem leads_of_fileAt {present : Bool} (h : s.fileAt path = .ok (place, present)) :
    s.Leads path place := by
  obtain ⟨⟨q, f⟩, look, told⟩ := of_bind_ok h
  cases f with
  | directory => cases told
  | nothing | file =>
    obtain ⟨rfl, _⟩ := Prod.mk.inj (Except.ok.inj told)
    exact leads_of_find look (by simp)

theorem Leads.find (h : s.Leads path place) (written : Bool) :
    s.find (Path.ofText path) written = .ok (place, s.found place) := by
  obtain ⟨above, name, last, walk, short, rfl⟩ := h.way
  have short : ¬ longestName < name.utf8ByteSize := Nat.not_lt_of_le short
  simp [Store.find, h.possible, h.named, h.plain, last, walk, enter, short, bind, Except.bind]

theorem Leads.readText (h : s.Leads path place) {text : String}
    (holds : s.found place = .file text.toUTF8) : s.readText path = .ok text := by
  have found := h.find false
  simp [Store.readText, look, found, holds, h.plain, bind, Except.bind]

/-! Writing -/

theorem not_given (free : s.found place ≠ .directory) : place.isGiven = false := by
  cases given : place.isGiven with
  | false => rfl
  | true => exact absurd (by simp [found, given]) free

theorem found_putFile (free : s.found place ≠ .directory) (bytes : ByteArray) :
    (s.putFile place bytes).found place = .file bytes := by
  simp [found, putFile, not_given free]

theorem directory_put (free : s.found place ≠ .directory) (new : Tree) {d : Place}
    (there : s.found d = .directory) : found d ⟨Tree.put new place s.root⟩ = .directory := by
  cases given : d.isGiven with
  | true => simp [found, given]
  | false =>
    have spare : ∀ es, s.root.get? place ≠ some (.directory es) := by
      intro es same
      exact free (by simp [found, same])
    simp only [found, given, Bool.false_eq_true, if_false] at there
    split at there
    · cases there
    · rename_i es same
      obtain ⟨es, still⟩ := Tree.directory_put new spare same
      simp [found, given, still]
    · cases there

theorem directory_putFile (free : s.found place ≠ .directory) (bytes : ByteArray) {d : Place}
    (there : s.found d = .directory) : (s.putFile place bytes).found d = .directory :=
  directory_put free (.file bytes) there

theorem walk_mono (more : ∀ d, s.found d = .directory → t.found d = .directory)
    {start above : Place} {steps : List Step} (h : s.walk start steps = .ok above) :
    t.walk start steps = .ok above := by
  induction steps generalizing start with
  | nil => exact h
  | cons step rest ih =>
    cases step with
    | here => exact ih h
    | up => exact ih h
    | down name =>
      by_cases long : longestName < name.utf8ByteSize
      · simp [walk, enter, long, bind, Except.bind] at h
      · cases inner : s.found (start ++ [name]) with
        | nothing | file => simp [walk, enter, long, inner, bind, Except.bind] at h
        | directory =>
          have there := more _ inner
          simp only [walk, enter, long, inner, if_false, bind, Except.bind] at h
          simp only [walk, enter, long, there, if_false, bind, Except.bind]
          exact ih h

theorem Leads.putFile (h : s.Leads path place) (bytes : ByteArray) :
    (s.putFile place bytes).Leads path place ∧
      (s.putFile place bytes).found place = .file bytes := by
  have holds := found_putFile h.free bytes
  constructor
  · obtain ⟨above, name, last, walk, short, same⟩ := h.way
    -- the way is the same, for no directory on it is lost
    have walk := walk_mono (fun d => @directory_putFile s place h.free bytes d) walk
    have free : (s.putFile place bytes).found place ≠ .directory := by simp [holds]
    exact ⟨h.possible, h.named, h.plain, ⟨above, name, last, walk, short, same⟩, free⟩
  · exact holds

end Leads

theorem overwritten_end (text more : String) :
    overwritten text.toUTF8 text.utf8ByteSize more.toUTF8 = (text ++ more).toUTF8 := by
  have whole : text.toByteArray.extract 0 text.utf8ByteSize = text.toByteArray :=
    ByteArray.extract_zero_size
  simp [overwritten, whole, ByteArray.extract_add_left]

/-- The path leads to a file that holds a text. -/
def Holds (s : Store) (path : String) (place : Place) (text : String) : Prop :=
  s.Leads path place ∧ s.found place = .file text.toUTF8

theorem Holds.readText {s : Store} {path : String} {place : Place} {text : String}
    (h : s.Holds path place text) : s.readText path = .ok text := h.1.readText h.2

theorem Holds.append {s : Store} {path : String} {place : Place} {text : String}
    (h : s.Holds path place text) (more : String) :
    (s.writeAt place text.utf8ByteSize more.toUTF8).Holds path place (text ++ more) := by
  have offset := overwritten_end text more
  unfold writeAt
  rw [h.2]
  simp only
  split
  · rename_i none
    have none : more.toByteArray = ByteArray.empty := by simpa [ByteArray.isEmpty] using none
    have same : (text ++ more).toUTF8 = text.toUTF8 := by simp [none]
    constructor
    · exact h.1
    · rw [same]
      exact h.2
  · obtain ⟨leads, found⟩ := h.1.putFile (overwritten text.toUTF8 text.utf8ByteSize more.toUTF8)
    constructor
    · exact leads
    · rw [found, offset]

theorem writeAt_empty (s : Store) (place : Place) (offset : Nat) :
    s.writeAt place offset ByteArray.empty = s := by
  unfold writeAt
  split
  · exact if_pos rfl
  · rfl

end Store

/-! What is done in a store -/

namespace Access

variable {α β : Type} {s t : Store}

theorem of_perform_bind {a : Access α} {f : α → Access β} {y : β}
    (h : (a >>= f).perform s = (.ok y, t)) :
    ∃ x u, a.perform s = (.ok x, u) ∧ (f x).perform u = (.ok y, t) := by
  simp only [perform, bind, ExceptT.bind, ExceptT.run, ExceptT.mk, StateT.run, StateT.bind] at h
  cases first : a s with
  | mk result u =>
    cases result with
    | error fault =>
      rw [first] at h
      cases h
    | ok x =>
      rw [first] at h
      exact ⟨x, u, first, h⟩

theorem perform_bind (a : Access α) (f : α → Access β) (s : Store) :
    (a >>= f).perform s =
      match a.perform s with
      | (.ok x, t) => (f x).perform t
      | (.error fault, t) => (.error fault, t) := by
  simp only [perform, bind, ExceptT.bind, ExceptT.run, ExceptT.mk, StateT.run, StateT.bind]
  cases a s with
  | mk result t => cases result <;> rfl

theorem perform_inspect (look : Store → Except StorageFault α) (s : Store) :
    (inspect look).perform s = (look s, s) := rfl

theorem perform_writeText (path text : String) (s : Store) :
    (writeText path text).perform s =
      match s.fileAt path with
      | .ok (place, _) => (.ok (), s.putFile place text.toUTF8)
      | .error fault => (.error fault, s) := by
  rw [writeText, writeBytes, bind_assoc, perform_bind, perform_inspect]
  cases s.fileAt path <;> rfl

theorem writeBytes_holds {path : String} {place : Place}
    (made : (writeBytes path .empty).perform s = (.ok place, t)) : t.Holds path place "" := by
  obtain ⟨⟨q, present⟩, u, looked, put⟩ := of_perform_bind made
  obtain ⟨found, rfl⟩ := Prod.mk.inj looked
  cases put
  exact (Store.leads_of_fileAt found).putFile ByteArray.empty

end Access

end CorrelatedInput
