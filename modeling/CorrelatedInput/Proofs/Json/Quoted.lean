import CorrelatedInput.Json.Reader
/-!
Strings in a JSON text. A string may be spelled in many ways, because any character may be escaped,
and is read as the same string however it is spelled. In the spelling in which it is written there
is no control character, so none that ends a line.
-/
namespace CorrelatedInput.Json

/-- Control characters may not stand in a JSON text but as white space. -/
def IsControl (c : Char) : Prop := c.toNat < 32

section Escape

variable {p : Purpose}

theorem hexQuad?_control : ∀ n < 32,
    hexQuad? '0' '0' (hexDigit (n / 16)) (hexDigit (n % 16)) = some n ∧
      isTrailing n = false ∧ isLeading n = false := by decide

theorem readChars_plain {c : Char} (quote : c ≠ '\x22') (slash : c ≠ '\\') (visible : ¬ IsControl c)
    (rest : List Char) : readChars p (c :: rest) = withChar c (readChars p rest) := by
  have apart {cs : List Char} : c :: rest ≠ '\\' :: cs := fun same => slash (List.cons.inj same).1
  rw [readChars.eq_def]
  split
  · rename_i same
    cases same
  iterate 4
    · exact absurd ‹_› apart
  · rename_i same
    obtain ⟨rfl, rfl⟩ := List.cons.inj same
    rw [if_neg quote]
    exact if_neg visible

end Escape

/-! Spellings -/

/-- The characters, read between quotes, stand for the others: each for itself, or escaped by a
letter, by its code, or by the codes of its two halves. -/
inductive Spells : List Char → List Char → Prop
  | done : Spells [] []
  | plain {c : Char} {cs s : List Char} (quote : c ≠ '\x22') (slash : c ≠ '\\')
    (visible : ¬ IsControl c) (rest : Spells cs s) : Spells (c :: cs) (c :: s)
  | letter {c e : Char} {cs s : List Char} (known : escaped? c = some e) (rest : Spells cs s) :
    Spells ('\\' :: c :: cs) (e :: s)
  | code {a b c d : Char} {n : Nat} {cs s : List Char} (hex : hexQuad? a b c d = some n)
    (whole : isLeading n = false ∧ isTrailing n = false) (rest : Spells cs s) :
    Spells ('\\' :: 'u' :: a :: b :: c :: d :: cs) (Char.ofNat n :: s)
  | pair {a b c d a' b' c' d' : Char} {n m : Nat} {cs s : List Char}
    (hex : hexQuad? a b c d = some n) (hex' : hexQuad? a' b' c' d' = some m)
    (halves : isLeading n = true ∧ isTrailing n = false ∧ isTrailing m = true)
    (rest : Spells cs s) :
    Spells ('\\' :: 'u' :: a :: b :: c :: d :: '\\' :: 'u' :: a' :: b' :: c' :: d' :: cs)
      (joinPair n m :: s)

/-- A spelling between quotes. -/
def quoted (cs : List Char) : List Char := '\x22' :: (cs ++ ['\x22'])

theorem quote_eq (s : String) : quote s = quoted (s.toList.flatMap escape) := rfl

theorem quoted_append (cs rest : List Char) :
    quoted cs ++ rest = '\x22' :: (cs ++ '\x22' :: rest) := by simp [quoted]

theorem Spells.escape (c : Char) {cs s : List Char} (rest : Spells cs s) :
    Spells (Json.escape c ++ cs) (c :: s) := by
  unfold Json.escape
  iterate 7
    split
    · subst_vars
      exact .letter rfl rest
  split
  · rename_i control
    obtain ⟨code, trailing, leading⟩ := hexQuad?_control c.toNat control
    have spelled := Spells.code code ⟨leading, trailing⟩ rest
    rwa [Char.ofNat_toNat] at spelled
  · rename_i quote slash _ _ _ _ _ visible
    exact .plain quote slash visible rest

theorem spells_escape (cs : List Char) : Spells (cs.flatMap escape) cs := by
  induction cs with
  | nil => exact .done
  | cons c cs ih =>
    rw [List.flatMap_cons]
    exact ih.escape c

theorem escaped?_cases {c e : Char} (known : escaped? c = some e) :
    c = '\x22' ∨ c = '\\' ∨ c = '/' ∨ c = 'b' ∨ c = 'f' ∨ c = 'n' ∨ c = 'r' ∨ c = 't' := by
  unfold escaped? at known
  grind

/-- Every spelling is read, and one that is kept is read as what it stands for. -/
theorem Spells.readChars {p : Purpose} {cs s : List Char} (h : Spells cs s) (rest : List Char) :
    ∃ t, Json.readChars p (cs ++ '\x22' :: rest) = .ok (t, rest) ∧ (p = .keep → t = s) := by
  induction h with
  | done => exact ⟨[], by simp [Json.readChars], fun _ => rfl⟩
  | plain quote slash visible _ ih =>
    obtain ⟨t, read, kept⟩ := ih
    refine ⟨_ :: t, ?_, fun keep => by rw [kept keep]⟩
    rw [List.cons_append, readChars_plain quote slash visible, read]
    rfl
  | letter known _ ih =>
    obtain ⟨t, read, kept⟩ := ih
    refine ⟨_ :: t, ?_, fun keep => by rw [kept keep]⟩
    rcases escaped?_cases known with rfl | rfl | rfl | rfl | rfl | rfl | rfl | rfl <;>
      simp [Json.readChars, known, read, withChar, Except.map]
  | code hex whole _ ih =>
    obtain ⟨t, read, kept⟩ := ih
    refine ⟨_ :: t, ?_, fun keep => by rw [kept keep]⟩
    simp [Json.readChars, hex, whole, read, withChar, Except.map]
  | @pair a b c d a' b' c' d' n m cs s hex hex' halves _ ih =>
    obtain ⟨t, read, kept⟩ := ih
    cases p with
    | keep =>
      refine ⟨joinPair n m :: t, ?_, fun keep => by rw [kept keep]⟩
      simp [Json.readChars, hex, hex', halves, read, withChar, Except.map]
    | skip =>
      -- each half is passed over by itself
      refine ⟨Char.ofNat n :: Char.ofNat m :: t, ?_, nofun⟩
      simp [Json.readChars, hex, hex', read, withChar, Except.map]

theorem Spells.readString {p : Purpose} {cs : List Char} {s : String} (h : Spells cs s.toList)
    (rest : List Char) :
    ∃ t, Json.readString p (cs ++ '\x22' :: rest) = .ok (t, rest) ∧ (p = .keep → t = s) := by
  obtain ⟨t, read, kept⟩ := h.readChars (p := p) rest
  refine ⟨String.ofList t, ?_, fun keep => by rw [kept keep, String.ofList_toList]⟩
  simp only [Json.readString, read, bind, Except.bind, pure, Except.pure]

theorem Spells.readKept {cs : List Char} {s : String} (h : Spells cs s.toList) (rest : List Char) :
    Json.readString .keep (cs ++ '\x22' :: rest) = .ok (s, rest) := by
  obtain ⟨t, read, kept⟩ := h.readString (p := .keep) rest
  rw [read, kept rfl]

/-! Control characters -/

theorem escape_plain (c : Char) : ∀ d ∈ escape c, ¬ IsControl d := by
  have hex : ∀ n < 16, ¬ IsControl (hexDigit n) := by simp only [IsControl]; decide
  unfold escape
  iterate 7
    split
    · simp [IsControl]
  split
  · rename_i control
    have high := hex (c.toNat / 16) (by omega)
    have low := hex (c.toNat % 16) (by omega)
    simp only [IsControl, Nat.not_lt] at high low ⊢
    simp [high, low]
  · simpa [IsControl] using Nat.le_of_not_lt ‹_›

theorem quote_plain (s : String) : ∀ c ∈ quote s, ¬ IsControl c := by
  have mark : ¬ IsControl '\x22' := by simp [IsControl]
  intro c hc
  simp only [quote, List.mem_cons, List.mem_append, List.mem_flatMap, List.not_mem_nil,
    or_false] at hc
  rcases hc with rfl | ⟨d, _, hd⟩ | rfl
  · exact mark
  · exact escape_plain d c hd
  · exact mark

end CorrelatedInput.Json
