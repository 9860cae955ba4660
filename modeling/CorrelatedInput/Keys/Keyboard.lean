import CorrelatedInput.Keys.Code
import CorrelatedInput.Input.Event
/-!
The keyboard that types text: which key a character needs, and the events of typing a text. A
text with one character that no key types is not typed at all.
-/
namespace CorrelatedInput.Keys

/-- Keys beside letters and digits, and whether shift is held for them. -/
def symbols : List (Char × Int32 × Bool) :=
  [(' ', 62, false), ('\n', 66, false), ('\t', 61, false), (',', 55, false), ('.', 56, false),
    ('-', 69, false), ('=', 70, false), ('[', 71, false), (']', 72, false), ('\\', 73, false),
    (';', 74, false), ('\x27', 75, false), ('/', 76, false), ('\x60', 68, false),
    ('@', 77, false), ('*', 17, false), ('#', 18, false), ('+', 81, false), ('_', 69, true),
    ('<', 55, true), ('>', 56, true), ('?', 76, true), (':', 74, true), ('\x22', 75, true),
    ('\x7b', 71, true), ('\x7d', 72, true), ('|', 73, true), ('~', 68, true), ('!', 8, true),
    ('$', 11, true), ('%', 12, true), ('^', 13, true), ('&', 14, true), ('(', 16, true),
    (')', 7, true)]

/-- The key that types a character, and whether shift is held for it. -/
def lookup? (c : Char) : Option (Int32 × Bool) :=
  match letter? c with
  | some code => some (code, decide ('A' ≤ c ∧ c ≤ 'Z'))
  | none =>
    match digit? c with
    | some code => some (code, false)
    | none => symbols.lookup c

/-- The events of one key: down and up, between those of shift where it is held. -/
def strokes (time : UInt64) : Int32 × Bool → List KeyEvent
  | (code, false) => [.stamped time .down code noMeta, .stamped time .up code noMeta]
  | (code, true) =>
    [.stamped time .down leftShift shiftMeta,
      .stamped time .down code shiftMeta,
      .stamped time .up code shiftMeta,
      .stamped time .up leftShift noMeta]

/-- The events that type a text, all at one time. -/
def type? (time : UInt64) (text : List Char) : Option (List KeyEvent) :=
  (text.mapM lookup?).map fun keys => keys.flatMap (strokes time)

end CorrelatedInput.Keys
