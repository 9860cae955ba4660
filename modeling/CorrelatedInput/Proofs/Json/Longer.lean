import CorrelatedInput.Json.Shape
import CorrelatedInput.Proofs.Except
import CorrelatedInput.Proofs.Json.Layout
/-!
Texts that go on. What is read from the front of a text, with something left behind it, is read
from every longer text too. An object ends with its own bracket, so its text is never the beginning
of a longer one that is read differently.
-/
namespace CorrelatedInput.Json

variable {p : Purpose} {cs rest : List Char}

theorem readWord_longer {word : List Char} (h : readWord word cs = .ok rest) (more : List Char) :
    readWord word (cs ++ more) = .ok (rest ++ more) := by
  fun_induction readWord word cs with
  | case1 cs =>
    cases h
    simp [readWord]
  | case3 w ws cs ih => simp [readWord, ih h]
  | _ => cases h

theorem readColon_longer (h : readColon cs = .ok rest) (more : List Char) :
    readColon (cs ++ more) = .ok (rest ++ more) := by
  unfold readColon at h
  split at h
  · cases h
  · rename_i c t front
    split at h
    · rename_i colon
      cases h
      simp [readColon, skipBlank_append_cons front, colon]
    · cases h

theorem withChar_longer {c : Char} {r r' : Except Fault (List Char × List Char)}
    {s more : List Char}
    (longer : ∀ {rest t : List Char}, r = .ok (t, rest) → r' = .ok (t, rest ++ more))
    (h : withChar c r = .ok (s, rest)) : withChar c r' = .ok (s, rest ++ more) := by
  cases r with
  | error f => cases h
  | ok x =>
    cases h
    rw [longer rfl]
    rfl

theorem readChars_longer {s : List Char} (h : readChars p cs = .ok (s, rest)) (more : List Char) :
    readChars p (cs ++ more) = .ok (s, rest ++ more) := by
  fun_induction readChars p cs generalizing s rest with
  | case3 a b c d cs n code skipped ih =>
    have read := withChar_longer ih h
    simpa [readChars, code, skipped] using read
  | case6 a b c d n code kept first leads a' b' c' d' cs m code' trails ih =>
    have read := withChar_longer ih h
    simpa [readChars, code, kept, first, leads, code', trails] using read
  | case12 a b c d cs n code kept first alone ih =>
    have read := withChar_longer ih h
    simpa [readChars, code, kept, first, alone] using read
  | case16 c cs four other e escaped ih =>
    have read := withChar_longer ih h
    rw [List.cons_append, List.cons_append, readChars]
    · simpa [escaped] using read
    · intro a b c d cs same
      exact absurd same other
    · exact other
  | case17 cs =>
    cases h
    simp [readChars]
  | case19 c cs four _ none some other plain ih =>
    have unescaped : c ≠ '\\' := by
      intro same
      cases cs with
      | nil => exact none same rfl
      | cons d cs => exact some d cs same rfl
    rw [List.cons_append, readChars_plain other unescaped plain]
    exact withChar_longer ih h
  | _ => cases h

theorem readString_longer {s : String} (h : readString p cs = .ok (s, rest)) (more : List Char) :
    readString p (cs ++ more) = .ok (s, rest ++ more) := by
  obtain ⟨x, read, same⟩ := of_bind_ok h
  cases same
  simp only [readString, readChars_longer read more, bind, Except.bind, pure, Except.pure]

/-- Digits that are cut off by something else are the same ones in a longer text. -/
theorem spanDigits_longer (inside : cs.dropWhile Text.isDigit ≠ []) (more : List Char) :
    (cs ++ more).takeWhile Text.isDigit = cs.takeWhile Text.isDigit ∧
      (cs ++ more).dropWhile Text.isDigit = cs.dropWhile Text.isDigit ++ more := by
  have whole := congrArg List.length (List.takeWhile_append_dropWhile (p := Text.isDigit) (l := cs))
  have left := List.length_pos_iff.mpr inside
  rw [List.length_append] at whole
  constructor
  · rw [List.takeWhile_append, if_neg (by omega)]
  · rw [List.dropWhile_append, if_neg (by simpa using inside)]

theorem readDigits_longer {ds : List Char} (h : readDigits p cs = .ok (ds, rest))
    (inside : rest ≠ []) (more : List Char) :
    readDigits p (cs ++ more) = .ok (ds, rest ++ more) := by
  cases cs with
  | nil => cases h
  | cons c cs =>
    simp only [readDigits] at h
    split at h
    · rename_i digit
      cases h
      obtain ⟨taken, left⟩ := spanDigits_longer inside more
      rw [List.cons_append] at taken left ⊢
      simp only [readDigits, digit, if_true, taken, left]
    · cases h

theorem readFraction_longer {ds : List Char} (h : readFraction p cs = .ok (ds, rest))
    (inside : rest ≠ []) (more : List Char) :
    readFraction p (cs ++ more) = .ok (ds, rest ++ more) := by
  unfold readFraction at h
  split at h
  · exact readDigits_longer h inside more
  · rename_i other
    cases h
    obtain ⟨c, t, rfl⟩ := List.exists_cons_of_ne_nil inside
    have other : c ≠ '.' := fun point => other t (by rw [point])
    simp [readFraction, other]

theorem readExponent_longer {e : Option (Bool × List Char)}
    (h : readExponent p cs = .ok (e, rest)) (inside : rest ≠ []) (more : List Char) :
    readExponent p (cs ++ more) = .ok (e, rest ++ more) := by
  have behind {negative : Bool} {cs : List Char}
      (h : (readDigits p cs >>= fun x => pure (some (negative, x.1), x.2)) = .ok (e, rest)) :
      (readDigits p (cs ++ more) >>= fun x => pure (some (negative, x.1), x.2)) =
        .ok (e, rest ++ more) := by
    obtain ⟨⟨ds, left⟩, digits, same⟩ := of_bind_ok h
    cases same
    rw [readDigits_longer digits inside more]
    rfl
  cases cs with
  | nil =>
    cases h
    exact absurd rfl inside
  | cons c cs =>
    by_cases mark : c = 'e' ∨ c = 'E'
    · simp only [readExponent, mark, if_true, List.cons_append] at h ⊢
      -- a sign stays a sign, and where there is none something else stands
      cases cs with
      | nil => cases h
      | cons d cs =>
        by_cases minus : d = '-'
        · subst minus
          exact behind h
        · by_cases plus : d = '+'
          · subst plus
            exact behind h
          · have unsigned := @behind false (d :: cs)
            simpa [minus, plus] using unsigned (by simpa [minus, plus] using h)
    · simp only [readExponent, mark, if_false, List.cons_append] at h ⊢
      cases h
      rfl

/-- What is read of a number behind its sign. -/
def readUnsigned (p : Purpose) (negative : Bool) (cs : List Char) :
    Except Fault (Spelling × List Char) := do
  let (whole, cs) ← readDigits p cs
  if whole.head? = some '0' ∧ 1 < whole.length then throw .malformed
  let (fraction, cs) ← readFraction p cs
  let (exponent, cs) ← readExponent p cs
  return (⟨negative, whole, fraction, exponent⟩, cs)

theorem readUnsigned_longer {negative : Bool} {n : Spelling}
    (h : readUnsigned p negative cs = .ok (n, rest)) (inside : rest ≠ []) (more : List Char) :
    readUnsigned p negative (cs ++ more) = .ok (n, rest ++ more) := by
  obtain ⟨⟨whole, behind⟩, digits, h⟩ := of_bind_ok h
  simp only at h
  split at h
  · cases h
  · rename_i canonical
    obtain ⟨⟨fraction, beyond⟩, point, h⟩ := of_bind_ok h
    obtain ⟨⟨exponent, last⟩, power, h⟩ := of_bind_ok h
    cases h
    have later : beyond ≠ [] := by
      rintro rfl
      cases power
      exact inside rfl
    have sooner : behind ≠ [] := by
      rintro rfl
      cases point
      exact later rfl
    simp only [readUnsigned, readDigits_longer digits sooner, canonical, if_false,
      readFraction_longer point later, readExponent_longer power inside, bind, Except.bind, pure,
      Except.pure]

theorem readSpelling_other {c : Char} (other : c ≠ '-') (cs : List Char) :
    readSpelling p (c :: cs) = readUnsigned p false (c :: cs) := by
  unfold readSpelling
  split
  rename_i sign
  split at sign
  · rename_i same
    exact absurd (List.cons.inj same).1 other
  · cases sign
    rfl

theorem readNumber_longer {v : Value} (h : readNumber p cs = .ok (v, rest)) (inside : rest ≠ [])
    (more : List Char) : readNumber p (cs ++ more) = .ok (v, rest ++ more) := by
  obtain ⟨⟨n, left⟩, spelling, h⟩ := of_bind_ok h
  simp only at h
  split at h
  · cases h
  · rename_i small
    cases h
    have longer : readSpelling p (cs ++ more) = .ok (n, rest ++ more) := by
      cases cs with
      | nil => cases spelling
      | cons c cs =>
        by_cases minus : c = '-'
        · subst minus
          exact readUnsigned_longer spelling inside more
        · rw [readSpelling_other minus] at spelling
          rw [List.cons_append, readSpelling_other minus]
          exact readUnsigned_longer spelling inside more
    simp only [readNumber, longer, small, if_false, bind, Except.bind, pure, Except.pure]

/-! Values -/

/-- What is read in so many steps is read of every longer text in as many steps or more. Only a
value that ends with the text may go on. -/
structure Lasts (p : Purpose) (fuel : Nat) : Prop where
  nested : ∀ ⦃steps depth : Nat⦄ ⦃cs rest : List Char⦄ ⦃v : Value⦄, fuel ≤ steps →
    readNested p fuel depth cs = .ok (v, rest) → rest ≠ [] →
    ∀ more, readNested p steps depth (cs ++ more) = .ok (v, rest ++ more)
  items : ∀ ⦃steps depth : Nat⦄ ⦃first : Bool⦄ ⦃cs rest : List Char⦄ ⦃vs : List Value⦄,
    fuel ≤ steps → readItems p fuel depth first cs = .ok (vs, rest) →
    ∀ more, readItems p steps depth first (cs ++ more) = .ok (vs, rest ++ more)
  members : ∀ ⦃steps depth : Nat⦄ ⦃first : Bool⦄ ⦃cs rest : List Char⦄
    ⦃ms : List (String × Value)⦄, fuel ≤ steps →
    readMembers p fuel depth first cs = .ok (ms, rest) →
    ∀ more, readMembers p steps depth first (cs ++ more) = .ok (ms, rest ++ more)

section Step

variable {fuel steps depth : Nat} {first : Bool}

/-- The text of the next item or member, when the mark in front of it is gone. -/
theorem next_append (first : Bool) (c : Char) (t more : List Char) :
    (if first then c :: t else t) ++ more = if first then c :: (t ++ more) else t ++ more := by
  cases first <;> rfl

theorem readItems_some {x : List Value × List Char}
    (h : readItems p fuel depth first cs = .ok x) : cs ≠ [] := by
  rintro rfl
  cases fuel with
  | zero =>
    simp only [readItems] at h
    cases h
  | succ fuel => cases h

theorem readMembers_some {x : List (String × Value) × List Char}
    (h : readMembers p fuel depth first cs = .ok x) : cs ≠ [] := by
  rintro rfl
  cases fuel with
  | zero =>
    simp only [readMembers] at h
    cases h
  | succ fuel => cases h

theorem Lasts.readNested (ih : Lasts p fuel) {v : Value} (enough : fuel ≤ steps)
    (h : readNested p (fuel + 1) depth cs = .ok (v, rest)) (inside : rest ≠ [])
    (more : List Char) : readNested p (steps + 1) depth (cs ++ more) = .ok (v, rest ++ more) := by
  cases front : skipBlank cs with
  | nil =>
    simp only [Json.readNested, front] at h
    cases h
  | cons c t =>
    simp only [Json.readNested, front, skipBlank_append_cons front] at h ⊢
    by_cases text : c = '\x22'
    · rw [if_pos text] at h ⊢
      obtain ⟨⟨s, left⟩, read, same⟩ := of_bind_ok h
      cases same
      rw [readString_longer read more]
      rfl
    rw [if_neg text] at h ⊢
    by_cases array : c = '['
    · rw [if_pos array] at h ⊢
      by_cases deep : p = .keep ∧ depth = 0
      · rw [if_pos deep] at h
        cases h
      rw [if_neg deep] at h ⊢
      obtain ⟨⟨vs, left⟩, read, same⟩ := of_bind_ok h
      cases same
      rw [ih.items enough read more]
      rfl
    rw [if_neg array] at h ⊢
    by_cases object : c = '\x7b'
    · rw [if_pos object] at h ⊢
      by_cases deep : p = .keep ∧ depth = 0
      · rw [if_pos deep] at h
        cases h
      rw [if_neg deep] at h ⊢
      obtain ⟨⟨ms, left⟩, read, same⟩ := of_bind_ok h
      cases same
      rw [ih.members enough read more]
      rfl
    rw [if_neg object] at h ⊢
    by_cases number : c = '-' ∨ Text.isDigit c
    · rw [if_pos number] at h ⊢
      exact readNumber_longer h inside more
    rw [if_neg number] at h ⊢
    have word {letters : List Char} {u : Value}
        (h : (readWord letters t >>= fun rest => pure (u, rest)) = .ok (v, rest)) :
        (readWord letters (t ++ more) >>= fun rest => pure (u, rest)) = .ok (v, rest ++ more) := by
      obtain ⟨left, read, same⟩ := of_bind_ok h
      cases same
      rw [readWord_longer read more]
      rfl
    iterate 3
      split at h
      · rename_i same
        rw [if_pos same]
        exact word h
      rename_i other
      rw [if_neg other]
    cases h

theorem Lasts.readItems (ih : Lasts p fuel) {vs : List Value} (enough : fuel ≤ steps)
    (h : readItems p (fuel + 1) depth first cs = .ok (vs, rest)) (more : List Char) :
    readItems p (steps + 1) depth first (cs ++ more) = .ok (vs, rest ++ more) := by
  cases front : skipBlank cs with
  | nil =>
    simp only [Json.readItems, front] at h
    cases h
  | cons c t =>
    simp only [Json.readItems, front, skipBlank_append_cons front] at h ⊢
    by_cases ends : c = ']'
    · rw [if_pos ends] at h ⊢
      cases h
      rfl
    rw [if_neg ends] at h ⊢
    split at h
    · cases h
    · rename_i separated
      rw [if_neg separated]
      obtain ⟨⟨v, left⟩, item, h⟩ := of_bind_ok h
      obtain ⟨⟨us, last⟩, others, same⟩ := of_bind_ok h
      cases same
      have inner := ih.nested enough item (readItems_some others) more
      have outer := ih.items enough others more
      rw [next_append] at inner
      simp only [inner, outer, bind, Except.bind]
      rfl

theorem Lasts.readMembers (ih : Lasts p fuel) {ms : List (String × Value)} (enough : fuel ≤ steps)
    (h : readMembers p (fuel + 1) depth first cs = .ok (ms, rest)) (more : List Char) :
    readMembers p (steps + 1) depth first (cs ++ more) = .ok (ms, rest ++ more) := by
  cases front : skipBlank cs with
  | nil =>
    simp only [Json.readMembers, front] at h
    cases h
  | cons c t =>
    simp only [Json.readMembers, front, skipBlank_append_cons front] at h ⊢
    by_cases ends : c = '\x7d'
    · rw [if_pos ends] at h ⊢
      cases h
      rfl
    rw [if_neg ends] at h ⊢
    split at h
    · cases h
    rename_i separated
    rw [if_neg separated]
    rw [← next_append]
    cases begins : skipBlank (if first then c :: t else t) with
    | nil =>
      rw [begins] at h
      cases h
    | cons d u =>
      rw [begins] at h
      rw [skipBlank_append_cons begins]
      simp only at h ⊢
      split at h
      · rename_i quote
        obtain ⟨⟨key, behind⟩, name, h⟩ := of_bind_ok h
        obtain ⟨beyond, colon, h⟩ := of_bind_ok h
        obtain ⟨⟨v, left⟩, value, h⟩ := of_bind_ok h
        obtain ⟨⟨us, last⟩, others, same⟩ := of_bind_ok h
        cases same
        have inner := ih.nested enough value (readMembers_some others) more
        have outer := ih.members enough others more
        rw [if_pos quote]
        simp only [readString_longer name, readColon_longer colon, inner, outer, bind, Except.bind]
        rfl
      · cases h

end Step

theorem lasts (p : Purpose) (fuel : Nat) : Lasts p fuel := by
  have more {fuel steps : Nat} (h : fuel + 1 ≤ steps) : ∃ n, steps = n + 1 ∧ fuel ≤ n :=
    ⟨steps - 1, by omega, by omega⟩
  induction fuel with
  | zero =>
    constructor
    · intro _ _ _ _ _ _ h
      simp only [readNested] at h
      cases h
    · intro _ _ _ _ _ _ _ h
      simp only [readItems] at h
      cases h
    · intro _ _ _ _ _ _ _ h
      simp only [readMembers] at h
      cases h
  | succ fuel ih =>
    constructor
    · intro steps _ _ _ _ enough h
      obtain ⟨n, rfl, less⟩ := more enough
      exact ih.readNested less h
    · intro steps _ _ _ _ _ enough h
      obtain ⟨n, rfl, less⟩ := more enough
      exact ih.readItems less h
    · intro steps _ _ _ _ _ enough h
      obtain ⟨n, rfl, less⟩ := more enough
      exact ih.readMembers less h

theorem skipValue_longer (h : skipValue cs = .ok rest) (inside : rest ≠ []) (more : List Char) :
    skipValue (cs ++ more) = .ok (rest ++ more) := by
  unfold skipValue readValue at h ⊢
  cases value : readNested .skip (enough cs) 0 cs with
  | error f =>
    rw [value] at h
    cases h
  | ok x =>
    rw [value] at h
    cases h
    have steps : enough cs ≤ enough (cs ++ more) := by
      simp only [enough, List.length_append]
      omega
    rw [(lasts .skip _).nested steps value inside more]
    rfl

/-! Records -/

/-- What the reader makes of a text before its end, it makes of every longer text. -/
def Lasting {α : Type} (r : Reader α) : Prop :=
  ∀ ⦃cs rest : List Char⦄ ⦃a : α⦄, r cs = .ok (a, rest) → rest ≠ [] →
    ∀ more, r (cs ++ more) = .ok (a, rest ++ more)

theorem readInteger_lasting (low high : Int) : Lasting (readInteger low high) := by
  intro cs rest v h inside more
  cases front : skipBlank cs with
  | nil =>
    simp only [readInteger, front] at h
    cases h
  | cons c t =>
    simp only [readInteger, front, skipBlank_append_cons front] at h ⊢
    split at h
    · rename_i number
      obtain ⟨⟨v, left⟩, read, h⟩ := of_bind_ok h
      rw [if_pos number]
      cases v with
      | integer n =>
        simp only at h
        split at h
        · rename_i fits
          cases h
          rw [← List.cons_append, readNumber_longer read inside more]
          exact if_pos fits
        · cases h
      | _ => cases h
    · cases h

section Record

variable {fields : List FieldReader} {fuel steps : Nat} {first : Bool}
  {seen : List (String × Value)} {vs : List Value}

theorem readFields_some {x : List Value × List Char}
    (h : readFields fields fuel first seen cs = .ok x) : cs ≠ [] := by
  rintro rfl
  cases fuel <;> cases h

theorem readFields_longer (each : ∀ f ∈ fields, Lasting f.read) (enough : fuel ≤ steps)
    (h : readFields fields fuel first seen cs = .ok (vs, rest)) (more : List Char) :
    readFields fields steps first seen (cs ++ more) = .ok (vs, rest ++ more) := by
  induction fuel generalizing steps first seen cs with
  | zero => cases h
  | succ fuel ih =>
    obtain ⟨steps, rfl⟩ : ∃ n, steps = n + 1 := ⟨steps - 1, by omega⟩
    have less : fuel ≤ steps := by omega
    cases front : skipBlank cs with
    | nil =>
      simp only [readFields, front] at h
      cases h
    | cons c t =>
      simp only [readFields, front, skipBlank_append_cons front] at h ⊢
      by_cases ends : c = '\x7d'
      · rw [if_pos ends] at h ⊢
        obtain ⟨us, settled, same⟩ := of_bind_ok h
        cases same
        rw [settled]
        rfl
      rw [if_neg ends] at h ⊢
      split at h
      · cases h
      rename_i separated
      rw [if_neg separated]
      rw [← next_append]
      cases begins : skipBlank (if first then c :: t else t) with
      | nil =>
        rw [begins] at h
        cases h
      | cons d u =>
        rw [begins] at h
        rw [skipBlank_append_cons begins]
        simp only at h ⊢
        split at h
        · rename_i quote
          rw [if_pos quote]
          obtain ⟨⟨key, behind⟩, name, h⟩ := of_bind_ok h
          cases known : fields.find? (fun f => f.name = key) with
          | some f =>
            simp only [known] at h
            split at h
            · cases h
            · rename_i new
              obtain ⟨beyond, colon, h⟩ := of_bind_ok h
              obtain ⟨⟨v, left⟩, value, h⟩ := of_bind_ok h
              have lasts := each f (List.mem_of_find?_eq_some known)
              simp only [readString_longer name, known, new, readColon_longer colon,
                lasts value (readFields_some h), bind, Except.bind]
              exact ih less h
          | none =>
            simp only [known] at h
            obtain ⟨beyond, colon, h⟩ := of_bind_ok h
            obtain ⟨left, passed, h⟩ := of_bind_ok h
            simp only [readString_longer name, known, readColon_longer colon,
              skipValue_longer passed (readFields_some h), bind, Except.bind]
            exact ih less h
        · cases h

theorem readRecord_object (positional : Bool) (cs : List Char) :
    readRecord positional fields ('\x7b' :: cs) =
      readFields fields (enough cs) true [] cs >>= fun x => pure (.array x.1, x.2) := by
  have mark : isBlank '\x7b' = false := by decide
  simp [readRecord, skipBlank_other mark]

theorem readRecord_longer (each : ∀ f ∈ fields, Lasting f.read) {positional : Bool} {v : Value}
    (h : readRecord positional fields ('\x7b' :: cs) = .ok (v, rest)) (more : List Char) :
    readRecord positional fields ('\x7b' :: (cs ++ more)) = .ok (v, rest ++ more) := by
  rw [readRecord_object] at h ⊢
  obtain ⟨⟨vs, left⟩, read, same⟩ := of_bind_ok h
  cases same
  have steps : enough cs ≤ enough (cs ++ more) := by
    simp only [enough, List.length_append]
    omega
  rw [readFields_longer each steps read more]
  rfl

end Record

end CorrelatedInput.Json
