import CorrelatedInput.Keys.Keyboard
/-!
Typing can be read back. Each printable character of ASCII, the line feed and the tab has a key of
its own, with or without shift, and no other character has one. So whoever watches the keys go down
and up, and sees whether shift is held, reads the text that was typed.
-/
namespace CorrelatedInput.Keys

/-- The characters from the space to the tilde, the line feed and the tab. -/
def IsTypable (c : Char) : Prop := (' ' ≤ c ∧ c ≤ '~') ∨ c = '\n' ∨ c = '\t'

instance (c : Char) : Decidable (IsTypable c) := inferInstanceAs (Decidable (_ ∨ _))

def typable : List Char :=
  (List.range 95).map (fun n => Char.ofNat (' '.toNat + n)) ++ ['\n', '\t']

/-- The character that a key types while shift is held, or while it is not. -/
def character? (key : Int32 × Bool) : Option Char := typable.find? fun c => lookup? c = some key

/-! The table of keys -/

theorem lookup?_ascii : ∀ n < 128, let c := Char.ofNat n
    ((lookup? c).isSome ↔ IsTypable c) ∧
      (lookup? c).all (fun key => character? key = some c ∧ key.1 ≠ leftShift) := by
  decide +kernel

theorem lookup?_beyond {c : Char} (beyond : 128 ≤ c.toNat) : lookup? c = none := by
  have above {d : Char} (low : d.toNat < 128) : ¬ c ≤ d := by
    intro le
    have : c.toNat ≤ d.toNat := le
    omega
  have letter : letter? c = none := by
    simp [letter?, above (d := 'z') (by decide), above (d := 'Z') (by decide)]
  have digit : digit? c = none := by simp [digit?, Text.isDigit, above (d := '9') (by decide)]
  have low : ∀ p ∈ symbols, p.1.toNat < 128 := by decide
  simp only [lookup?, letter, digit, List.lookup_eq_none_iff]
  intro p hp
  have := low p hp
  simp only [bne_iff_ne, ne_eq]
  rintro rfl
  omega

theorem isSome_lookup? (c : Char) : (lookup? c).isSome ↔ IsTypable c := by
  by_cases low : c.toNat < 128
  · simpa using (lookup?_ascii c.toNat low).1
  · have beyond : ¬ c ≤ '~' := by
      intro le
      have : c.toNat ≤ '~'.toNat := le
      have : '~'.toNat = 126 := rfl
      omega
    have high : c ≠ '\n' ∧ c ≠ '\t' := by
      constructor <;> rintro rfl <;> exact low (by decide)
    simp [lookup?_beyond (Nat.le_of_not_lt low), IsTypable, beyond, high]

theorem lookup?_spec {c : Char} {key : Int32 × Bool} (found : lookup? c = some key) :
    character? key = some c ∧ key.1 ≠ leftShift := by
  by_cases low : c.toNat < 128
  · have ascii := (lookup?_ascii c.toNat low).2
    simp only [Char.ofNat_toNat, found, Option.all_some, decide_eq_true_eq] at ascii
    exact ascii
  · rw [lookup?_beyond (Nat.le_of_not_lt low)] at found
    cases found

/-- No two characters share a key. -/
theorem character?_eq_some_iff {key : Int32 × Bool} {c : Char} :
    character? key = some c ↔ lookup? c = some key := by
  constructor
  · intro found
    simpa using List.find?_some found
  · intro found
    exact (lookup?_spec found).1

/-! The events of a text -/

section Typing

variable (time : UInt64)

@[simp] theorem type?_nil : type? time [] = some [] := rfl

theorem type?_cons (c : Char) (text : List Char) :
    type? time (c :: text) =
      (lookup? c).bind fun key => (type? time text).map (strokes time key ++ ·) := by
  simp only [type?, List.mapM_cons]
  cases lookup? c with
  | none => rfl
  | some key => cases text.mapM lookup? <;> rfl

theorem type?_append (before after : List Char) :
    type? time (before ++ after) =
      (type? time before).bind fun first => (type? time after).map (first ++ ·) := by
  induction before with
  | nil => simp
  | cons c before ih =>
    simp only [List.cons_append, type?_cons, ih]
    cases lookup? c with
    | none => rfl
    | some key => cases type? time before <;> cases type? time after <;> simp

theorem isSome_type? (text : List Char) :
    (type? time text).isSome ↔ ∀ c ∈ text, IsTypable c := by
  induction text with
  | nil => simp
  | cons c text ih =>
    rw [List.forall_mem_cons, ← ih, ← isSome_lookup?, type?_cons]
    cases lookup? c <;> simp

variable {time}

theorem downTime_of_type? {text : List Char} {events : List KeyEvent}
    (typing : type? time text = some events) : ∀ e ∈ events, e.downTime = time := by
  obtain ⟨keys, _, rfl⟩ := Option.map_eq_some_iff.mp typing
  intro e typed
  obtain ⟨⟨code, shift⟩, _, stroke⟩ := List.mem_flatMap.mp typed
  cases shift <;> simp only [strokes, List.mem_cons, List.not_mem_nil, or_false] at stroke
  · rcases stroke with rfl | rfl <;> rfl
  · rcases stroke with rfl | rfl | rfl | rfl <;> rfl

end Typing

/-! Watching a keyboard -/

/-- What somebody knows who watches a keyboard: the keys that are held, the last one first, and the
text that they have typed. -/
structure Watched where
  held : List Int32
  typed : List Char
deriving DecidableEq

namespace Watched

def blank : Watched := ⟨[], []⟩

def shifted (w : Watched) : Bool := w.held.contains leftShift

/-- Shift goes down while nothing is held, and up when nothing else is. Another key goes down while
nothing but shift is held, types the character that it stands for then, and goes up when it is held;
both its events bear the marks of shift if, and only if, shift is held. Any other event is out of
place. -/
def notice? (w : Watched) (e : KeyEvent) : Option Watched :=
  if e.keyCode = leftShift then
    match e.action with
    | .down => if w.held = [] then some { w with held := [leftShift] } else none
    | .up => if w.held = [leftShift] then some { w with held := [] } else none
  else if e.metaState &&& shiftMeta = if w.shifted then shiftMeta else noMeta then
    match e.action with
    | .down =>
      if w.held ⊆ [leftShift] then
        (character? (e.keyCode, w.shifted)).map fun c => ⟨e.keyCode :: w.held, w.typed ++ [c]⟩
      else none
    | .up =>
      if e.keyCode ∈ w.held then some { w with held := w.held.erase e.keyCode } else none
  else none

def replay? (w : Watched) (events : List KeyEvent) : Option Watched := events.foldlM notice? w

theorem replay?_append (w : Watched) (first second : List KeyEvent) :
    w.replay? (first ++ second) = (w.replay? first).bind fun v => v.replay? second :=
  List.foldlM_append

/-- One key types one character, and lets go of all that it took. -/
theorem replay?_strokes (time : UInt64) {c : Char} {key : Int32 × Bool}
    (found : lookup? c = some key) (typed : List Char) :
    replay? ⟨[], typed⟩ (strokes time key) = some ⟨[], typed ++ [c]⟩ := by
  obtain ⟨code, shift⟩ := key
  obtain ⟨types, other⟩ := lookup?_spec found
  have other : code ≠ leftShift := other
  cases shift with
  | false =>
    have plain : noMeta &&& shiftMeta = noMeta := by decide
    simp [replay?, strokes, notice?, KeyEvent.stamped, shifted, other, other.symm, types, plain]
  | true =>
    have marked : shiftMeta &&& shiftMeta = shiftMeta := by decide
    simp [replay?, strokes, notice?, KeyEvent.stamped, shifted, other, types, marked]

theorem replay?_type? {time : UInt64} {text : List Char} {events : List KeyEvent}
    (typing : type? time text = some events) (typed : List Char) :
    replay? ⟨[], typed⟩ events = some ⟨[], typed ++ text⟩ := by
  induction text generalizing events typed with
  | nil =>
    cases typing
    simp [replay?]
  | cons c text ih =>
    simp only [type?_cons, Option.bind_eq_some_iff, Option.map_eq_some_iff] at typing
    obtain ⟨key, found, rest, typing, rfl⟩ := typing
    simp [replay?_append, replay?_strokes time found, ih typing]

end Watched

/-- A text is typed exactly if all its characters have keys, and then whoever watches the keyboard
reads it: after each character all keys are up again and what came so far has been read. So no
two texts are typed alike, and a text is typed by typing its parts. -/
theorem typing_reads_back (time : UInt64) :
    (∀ text, (type? time text).isSome ↔ ∀ c ∈ text, IsTypable c) ∧
    (∀ key c, character? key = some c ↔ lookup? c = some key) ∧
    (∀ before after events, type? time (before ++ after) = some events →
      ∃ first second, type? time before = some first ∧ type? time after = some second ∧
        events = first ++ second ∧
        Watched.blank.replay? first = some ⟨[], before⟩ ∧
        Watched.blank.replay? events = some ⟨[], before ++ after⟩) ∧
    (∀ before after, type? time (before ++ after) =
      (type? time before).bind fun first => (type? time after).map (first ++ ·)) ∧
    ∀ one other later events, type? time one = some events → type? later other = some events →
      one = other := by
  refine ⟨isSome_type? time, fun key c => character?_eq_some_iff, ?_, type?_append time, ?_⟩
  · intro before after events typing
    have parts := typing
    simp only [type?_append, Option.bind_eq_some_iff, Option.map_eq_some_iff] at parts
    obtain ⟨first, here, second, there, rfl⟩ := parts
    exact ⟨first, second, here, there, rfl, Watched.replay?_type? here [],
      Watched.replay?_type? typing []⟩
  · intro one other later events here there
    have read := Watched.replay?_type? here []
    rw [Watched.replay?_type? there []] at read
    simpa using read.symm

/-- A capital, a digit and a shifted sign, after a sign that is not. -/
theorem typing_reads_back_signs :
    let text := [';', 'Q', '7', '?']
    ∃ events, type? 40 text = some events ∧ events.length = 12 ∧
      Watched.blank.replay? events = some ⟨[], text⟩ := by
  intro text
  obtain ⟨events, typing⟩ : ∃ events, type? 40 text = some events := ⟨_, rfl⟩
  obtain ⟨first, second, _, _, _, _, read⟩ := (typing_reads_back 40).2.2.1 text [] events typing
  refine ⟨events, typing, ?_, read⟩
  cases typing
  rfl

end CorrelatedInput.Keys
