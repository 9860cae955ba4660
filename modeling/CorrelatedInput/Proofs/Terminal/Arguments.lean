import CorrelatedInput.Proofs.Except
import CorrelatedInput.Proofs.Text.Numeral
import CorrelatedInput.Terminal.Invocation
/-!
Words on the command line of a command that has no commands within it. They fill its positions one
after the other; but one that begins with a dash is taken for an option, unless two dashes have
passed.
-/
namespace CorrelatedInput.Terminal

def isDashed (word : String) : Bool := word.toList.head? = some '-'

/-- A word that may begin with a dash, but only with one before a digit. -/
def IsNumeric (word : String) : Prop :=
  isDashed word = true → ∃ d ds, Text.isDigit d = true ∧ word.toList = '-' :: d :: ds

/-- A command without commands within it, none of whose options is a digit. -/
structure Command.IsLeaf (c : Command) : Prop where
  commands : c.commands = []
  letters : ∀ s ∈ c.switches, ∀ letter, s.short = some letter → Text.isDigit letter = false

namespace Level

/-- The words fill positions, one after the other. -/
def takeAll (c : Command) (l : Level) (words : List String) : Except Refusal Level :=
  words.foldlM (fun l word => l.takeOperand c word) l

/-- Two dashes have passed. -/
def trail (l : Level) : Level := { l with trailing := true }

section Steps

variable {c : Command} {l next : Level} {word : String}

theorem takeAll_cons (c : Command) (l : Level) (word : String) (words : List String) :
    l.takeAll c (word :: words) = l.takeOperand c word >>= fun l => l.takeAll c words := rfl

theorem takeAll_append (c : Command) (l : Level) (first second : List String) :
    l.takeAll c (first ++ second) = l.takeAll c first >>= fun l => l.takeAll c second :=
  List.foldlM_append

@[simp] theorem trail_pending (l : Level) : l.trail.pending = l.pending := rfl

@[simp] theorem trail_filled (l : Level) : l.trail.filled = l.filled := rfl

@[simp] theorem has_trail (name : String) (l : Level) : l.trail.has name = l.has name := rfl

theorem resolve_trail (l : Level) : l.trail.resolve = l.resolve.map trail := by
  simp only [resolve, trail_pending, has_trail]
  match l.pending with
  | none => rfl
  | some (.switch name form, []) => rfl
  | some (.switch name form, value :: values) =>
    by_cases repeated : l.has name = true
    · simp only [repeated, if_true, Except.map]
    · simp only [repeated, Bool.false_eq_true, if_false]
      cases read : (value :: values).mapM form.read <;> rfl
  | some (.operand o, values) =>
    cases read : values.mapM o.form.read <;> simp only [read] <;> rfl

theorem resolve_trailing (resolved : l.resolve = .ok next) : next.trailing = l.trailing := by
  unfold resolve at resolved
  split at resolved
  · cases resolved
    rfl
  · cases resolved
  · split at resolved
    · cases resolved
    · obtain ⟨_, _, resolved⟩ := of_bind_ok resolved
      cases resolved
      rfl
  · obtain ⟨_, _, resolved⟩ := of_bind_ok resolved
    cases resolved
    rfl

theorem fill_trail (o : Operand) (word : String) (l : Level) :
    l.trail.fill o word = (l.fill o word).map trail := by
  rw [fill, fill, resolve_trail]
  cases l.resolve <;> rfl

theorem takeOperand_trail (leaf : c.IsLeaf) (l : Level) (word : String) :
    l.trail.takeOperand c word = (l.takeOperand c word).map trail := by
  simp only [takeOperand, leaf.commands, fill_trail, trail_filled, trail_pending]
  cases c.operands[l.filled]? with
  | none => rfl
  | some o =>
    match l.pending with
    | none => rfl
    | some (.switch _ _, _) => rfl
    | some (.operand p, values) =>
      simp only
      split <;> rfl

theorem takeAll_trail (leaf : c.IsLeaf) (l : Level) (words : List String) :
    l.trail.takeAll c words = (l.takeAll c words).map trail := by
  induction words generalizing l with
  | nil => rfl
  | cons word words ih =>
    rw [takeAll_cons, takeAll_cons, takeOperand_trail leaf]
    cases l.takeOperand c word with
    | error refusal => rfl
    | ok next => exact ih next

theorem finish_trail (c : Command) (l : Level) : l.trail.finish c = l.finish c := by
  rw [finish, finish, resolve_trail]
  cases l.resolve <;> rfl

theorem fill_closed {o : Operand} (filled : l.fill o word = .ok next) :
    next.awaits = false ∧ next.trailing = l.trailing := by
  obtain ⟨between, resolved, filled⟩ := of_bind_ok filled
  cases filled
  have same : between.trailing = l.trailing := resolve_trailing resolved
  exact ⟨rfl, same⟩

theorem takeOperand_closed (taken : l.takeOperand c word = .ok next) :
    next.awaits = false ∧ next.trailing = l.trailing := by
  unfold takeOperand at taken
  split at taken
  · split at taken
    · cases taken
    · split at taken <;> cases taken
  · split at taken
    · split at taken
      · cases taken
        exact ⟨rfl, rfl⟩
      · exact fill_closed taken
    · exact fill_closed taken

theorem takeAll_closed {words : List String} (closed : l.awaits = false)
    (taken : l.takeAll c words = .ok next) :
    next.awaits = false ∧ next.trailing = l.trailing := by
  induction words generalizing l with
  | nil =>
    cases taken
    exact ⟨closed, rfl⟩
  | cons word words ih =>
    rw [takeAll_cons] at taken
    obtain ⟨middle, here, onward⟩ := of_bind_ok taken
    obtain ⟨shut, same⟩ := takeOperand_closed here
    obtain ⟨ends, still⟩ := ih shut onward
    exact ⟨ends, still.trans same⟩

end Steps

end Level

section Parse

variable {c : Command} {l next : Level} {word : String} {words rest : List String}

theorem Command.IsLeaf.find (leaf : c.IsLeaf) (name : String) : c.find? name = none := by
  rw [Command.find?, leaf.commands, List.find?_nil]

theorem Command.IsLeaf.helpless (leaf : c.IsLeaf) : c.hasHelp = false := by
  rw [Command.hasHelp, leaf.commands]
  rfl

/-- The name of a command within a command leads on to that command. -/
theorem parse_command {inner : Command} (other : word ≠ "help") (found : c.find? word = some inner)
    (rest : List String) :
    parse c .fresh (word :: rest) =
      (fun given => (c.name, []) :: given) <$> parse inner .fresh rest := by
  rw [parse]
  simp only [Level.fresh, Level.awaits, other, found, false_and, if_false, Bool.false_and,
    Bool.false_eq_true]
  cases parse inner .fresh rest <;> rfl

theorem parse_operand (leaf : c.IsLeaf) (closed : l.awaits = false)
    (operand : l.trailing = true ∨ isDashed word = false) :
    parse c l (word :: rest) = l.takeOperand c word >>= fun l => parse c l rest := by
  rw [parse]
  rcases operand with trailing | plain
  · rw [if_pos trailing]
  · have undashed : word.toList.head? ≠ some '-' := by simpa [isDashed] using plain
    have long : asLong? word.toList = none := by
      unfold asLong?
      split
      · rename_i dashes
        rw [dashes] at undashed
        exact absurd rfl undashed
      · rfl
    have short : asShort? word.toList = none := by
      unfold asShort?
      split
      · rename_i dash
        rw [dash] at undashed
        exact absurd rfl undashed
      · rfl
    have two : word ≠ "--" := by
      rintro rfl
      exact absurd plain (by decide)
    simp [closed, leaf.find, leaf.helpless, long, short, two]

theorem parse_dashes (leaf : c.IsLeaf) (closed : l.awaits = false) (before : l.trailing = false) :
    parse c l ("--" :: rest) = parse c l.trail rest := by
  rw [parse]
  simp [closed, before, leaf.find, leaf.helpless, Level.trail]

theorem parse_dashed (leaf : c.IsLeaf) (closed : l.awaits = false) (before : l.trailing = false)
    (numeric : IsNumeric word) (dashed : isDashed word = true) :
    parse c l (word :: rest) = .error .unknownArgument := by
  obtain ⟨d, ds, digit, negative⟩ := numeric dashed
  have unknown : c.switches.find? (fun s => s.short = some d) = none := by
    rw [List.find?_eq_none]
    intro s hs
    have letter := leaf.letters s hs d
    rw [digit] at letter
    simpa using letter
  have other : d ≠ '-' := by
    rintro rfl
    exact absurd digit (by decide)
  have two : word ≠ "--" := by
    rintro rfl
    cases negative
    exact other rfl
  have short : l.takeShort c (d :: ds) = .error .unknownArgument := by
    rw [Level.takeShort, unknown]
  have long : asLong? word.toList = none := by
    rw [negative]
    unfold asLong?
    split
    · rename_i dashes
      cases dashes
      exact absurd rfl other
    · rfl
  have letters : asShort? word.toList = some (d :: ds) := by rw [negative, asShort?]
  rw [parse]
  simp [closed, before, leaf.find, leaf.helpless, two, long, letters, short, bind,
    Except.bind]

/-- Words that are taken one after the other, up to the first one that looks like an option. -/
theorem parse_words (leaf : c.IsLeaf) (closed : l.awaits = false) (before : l.trailing = false)
    (numeric : ∀ word ∈ words, IsNumeric word) (taken : l.takeAll c words = .ok next) :
    parse c l (words ++ rest) =
      if words.any isDashed then .error .unknownArgument else parse c next rest := by
  induction words generalizing l with
  | nil =>
    cases taken
    rfl
  | cons word words ih =>
    obtain ⟨first, others⟩ := List.forall_mem_cons.mp numeric
    rw [List.cons_append, List.any_cons]
    cases dashed : isDashed word with
    | true => rw [parse_dashed leaf closed before first dashed, Bool.true_or, if_pos rfl]
    | false =>
      rw [Level.takeAll_cons] at taken
      obtain ⟨middle, here, onward⟩ := of_bind_ok taken
      obtain ⟨shut, same⟩ := Level.takeOperand_closed here
      rw [parse_operand leaf closed (.inr dashed), here, Bool.false_or]
      exact ih shut (same.trans before) others onward

/-- After two dashes no word looks like an option. -/
theorem parse_trailing (leaf : c.IsLeaf) (closed : l.awaits = false) (after : l.trailing = true)
    (taken : l.takeAll c words = .ok next) : parse c l words = parse c next [] := by
  induction words generalizing l with
  | nil =>
    cases taken
    rfl
  | cons word words ih =>
    rw [Level.takeAll_cons] at taken
    obtain ⟨middle, here, onward⟩ := of_bind_ok taken
    obtain ⟨shut, same⟩ := Level.takeOperand_closed here
    rw [parse_operand leaf closed (.inl after), here]
    exact ih shut (same.trans after) onward

theorem parse_end (c : Command) (l : Level) :
    parse c l [] = (fun given => [(c.name, given)]) <$> l.finish c := by
  rw [parse]
  cases l.finish c <;> rfl

theorem parse_plain (leaf : c.IsLeaf) (numeric : ∀ word ∈ words, IsNumeric word)
    (taken : Level.fresh.takeAll c words = .ok next) :
    parse c .fresh words = if words.any isDashed then .error .unknownArgument
      else (fun given => [(c.name, given)]) <$> next.finish c := by
  rw [← parse_end, ← parse_words leaf rfl rfl numeric taken, List.append_nil]

theorem parse_separated {front back : List String} (leaf : c.IsLeaf)
    (numeric : ∀ word ∈ front, IsNumeric word)
    (taken : Level.fresh.takeAll c (front ++ back) = .ok next) :
    parse c .fresh (front ++ "--" :: back) =
      if front.any isDashed then .error .unknownArgument
      else (fun given => [(c.name, given)]) <$> next.finish c := by
  rw [Level.takeAll_append] at taken
  obtain ⟨middle, early, late⟩ := of_bind_ok taken
  obtain ⟨closed, before⟩ := Level.takeAll_closed rfl early
  -- that the dashes have passed makes no difference to how positions are filled
  have after : middle.trail.takeAll c back = .ok next.trail := by
    rw [Level.takeAll_trail leaf, late]
    rfl
  rw [parse_words leaf rfl rfl numeric early, parse_dashes leaf closed before,
    parse_trailing (l := middle.trail) leaf closed rfl after, parse_end, Level.finish_trail]

end Parse

/-! Positions that are filled -/

namespace Level

section Fill

variable {c : Command}

/-- The position of a number, by its name. -/
def numberOperand (name : String) : Operand := ⟨name, .signed, false⟩

/-- The level at which numbers have filled the first positions; the last of them is not judged
yet. Each is written as a word that can be read. -/
def ofNumbers (spell : Int32 → String) (filled : List (String × Int32)) : Level where
  given := filled.dropLast.map fun (name, n) => (name, [.number n.toInt])
  pending := filled.getLast?.map fun (name, n) => (.operand (numberOperand name), [spell n])
  filled := filled.length
  trailing := false

variable {spell : Int32 → String}

theorem takeOperand_eq_fill {l : Level} {o : Operand} {word : String}
    (next : c.operands[l.filled]? = some o)
    (other : ∀ p values, l.pending = some (.operand p, values) → p ≠ o) :
    l.takeOperand c word = l.fill o word := by
  rw [takeOperand, next]
  simp only
  split
  · rename_i p values pending
    rw [if_neg (other p values pending)]
  · rfl

theorem takeOperand_number (reads : ∀ n, Form.signed.read (spell n) = .ok (.number n.toInt))
    {filled : List (String × Int32)} {name : String} {n : Int32}
    (next : c.operands[filled.length]? = some (numberOperand name))
    (other : name ∉ filled.map Prod.fst) :
    (ofNumbers spell filled).takeOperand c (spell n) =
      .ok (ofNumbers spell (filled ++ [(name, n)])) := by
  rcases filled.eq_nil_or_concat' with rfl | ⟨front, ⟨last, m⟩, rfl⟩
  · rw [takeOperand_eq_fill next (fun _ _ pending => by cases pending)]
    rfl
  · rw [takeOperand_eq_fill next]
    · simp [ofNumbers, fill, resolve, numberOperand, reads]
    · rintro p values pending rfl
      obtain ⟨same, _⟩ : last = name ∧ [spell m] = values := by
        simpa [ofNumbers, numberOperand] using pending
      exact other (by simp [same])

theorem takeAll_numbers (reads : ∀ n, Form.signed.read (spell n) = .ok (.number n.toInt))
    (filled more : List (String × Int32)) (nodup : ((filled ++ more).map Prod.fst).Nodup)
    (operands : c.operands = (filled ++ more).map fun (name, _) => numberOperand name) :
    (ofNumbers spell filled).takeAll c (more.map fun (_, n) => spell n) =
      .ok (ofNumbers spell (filled ++ more)) := by
  induction more generalizing filled with
  | nil =>
    rw [List.append_nil]
    rfl
  | cons next more ih =>
    obtain ⟨name, n⟩ := next
    have here : c.operands[filled.length]? = some (numberOperand name) := by
      rw [operands]
      simp
    have other : name ∉ filled.map Prod.fst := by
      rw [List.map_append, List.map_cons] at nodup
      exact fun early => (List.nodup_append.mp nodup).2.2 name early name List.mem_cons_self rfl
    rw [List.append_cons] at nodup operands ⊢
    rw [List.map_cons, takeAll_cons, takeOperand_number reads here other]
    exact ih _ nodup operands

theorem finish_of_resolve {l resolved : Level} (leaf : c.commands = [])
    (judged : l.resolve = .ok resolved) (complete : ∀ o ∈ c.operands, resolved.has o.name = true) :
    l.finish c = .ok resolved.given := by
  have all : (c.operands.all fun o => resolved.has o.name) = true := List.all_eq_true.mpr complete
  simp only [finish, judged, leaf]
  exact if_pos all

theorem finish_numbers (reads : ∀ n, Form.signed.read (spell n) = .ok (.number n.toInt))
    {filled : List (String × Int32)} (leaf : c.commands = [])
    (operands : c.operands = filled.map fun (name, _) => numberOperand name) :
    (ofNumbers spell filled).finish c =
      .ok (filled.map fun (name, n) => (name, [.number n.toInt])) := by
  have resolved : (ofNumbers spell filled).resolve =
      .ok ⟨filled.map fun (name, n) => (name, [.number n.toInt]), none, filled.length, false⟩ := by
    rcases filled.eq_nil_or_concat' with rfl | ⟨front, ⟨last, m⟩, rfl⟩
    · rfl
    · simp [ofNumbers, resolve, numberOperand, reads]
  apply finish_of_resolve leaf resolved
  intro o ho
  rw [operands] at ho
  obtain ⟨⟨name, n⟩, member, rfl⟩ := List.mem_map.mp ho
  rw [has, List.any_eq_true]
  exact ⟨_, List.mem_map_of_mem member, by simp [numberOperand]⟩

/-- Words that spell a number for every position fill them all. -/
theorem take_numbers (reads : ∀ n, Form.signed.read (spell n) = .ok (.number n.toInt))
    (filled : List (String × Int32)) (leaf : c.commands = []) (nodup : (filled.map Prod.fst).Nodup)
    (operands : c.operands = filled.map fun (name, _) => numberOperand name) :
    ∃ l, fresh.takeAll c (filled.map fun (_, n) => spell n) = .ok l ∧
      l.finish c = .ok (filled.map fun (name, n) => (name, [.number n.toInt])) :=
  ⟨ofNumbers spell filled, takeAll_numbers reads [] filled nodup operands,
    finish_numbers reads leaf operands⟩

/-! Points, any number of them -/

/-- The level at which points have been met, none of them judged yet. -/
def ofPoints (spell : Coordinate → String) (o : Operand) (points : List Coordinate) : Level where
  given := []
  pending := if points = [] then none else some (.operand o, points.map spell)
  filled := 0
  trailing := false

variable {spell : Coordinate → String} {o : Operand}

theorem takeAll_points (many : o.many = true) (operands : c.operands = [o])
    (met more : List Coordinate) :
    (ofPoints spell o met).takeAll c (more.map spell) = .ok (ofPoints spell o (met ++ more)) := by
  induction more generalizing met with
  | nil =>
    rw [List.append_nil]
    rfl
  | cons p more ih =>
    have one : (ofPoints spell o met).takeOperand c (spell p) =
        .ok (ofPoints spell o (met ++ [p])) := by
      have next : c.operands[(ofPoints spell o met).filled]? = some o := by
        rw [operands]
        rfl
      cases met with
      | nil =>
        rw [takeOperand_eq_fill next (fun _ _ pending => by cases pending)]
        simp [ofPoints, fill, resolve, many]
      | cons first rest =>
        rw [takeOperand, next]
        simp [ofPoints]
    have others := ih (met ++ [p])
    rw [List.append_assoc, List.singleton_append] at others
    rw [List.map_cons, takeAll_cons, one]
    exact others

theorem finish_points (leaf : c.commands = []) (operands : c.operands = [o])
    (reads : ∀ p, o.form.read (spell p) = .ok (.point p)) {points : List Coordinate}
    (some : points ≠ []) :
    (ofPoints spell o points).finish c = .ok [(o.name, points.map .point)] := by
  have read : (points.map spell).mapM o.form.read = .ok (points.map .point) := by
    rw [List.mapM_map]
    exact mapM_eq_ok fun p _ => reads p
  have resolved : (ofPoints spell o points).resolve =
      .ok ⟨[(o.name, points.map .point)], none, 0, false⟩ := by
    simp [ofPoints, some, resolve, read]
  apply finish_of_resolve leaf resolved
  intro p hp
  rw [operands, List.mem_singleton] at hp
  simp [has, hp]

end Fill

end Level

end CorrelatedInput.Terminal
