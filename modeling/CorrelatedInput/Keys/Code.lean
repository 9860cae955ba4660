import CorrelatedInput.Text.Blank
import CorrelatedInput.Text.Line
import CorrelatedInput.Text.Numeral
/-!
Key codes: those of letters and digits, those with a name, and the reading of a key that somebody
names by number, by name or by a single character.
-/
namespace CorrelatedInput.Keys

/-- The code of an ASCII letter, whatever its case. -/
def letter? (c : Char) : Option Int32 :=
  if 'a' ≤ c ∧ c ≤ 'z' then some (Int32.ofInt (29 + (c.toNat - 97)))
  else if 'A' ≤ c ∧ c ≤ 'Z' then some (Int32.ofInt (29 + (c.toNat - 65)))
  else none

/-- The code of an ASCII digit. -/
def digit? (c : Char) : Option Int32 :=
  if Text.isDigit c then some (Int32.ofInt (7 + (c.toNat - 48))) else none

def power : Int32 := 26

def leftShift : Int32 := 59

def noMeta : Int32 := 0

def shiftMeta : Int32 := 0x41

def named : List (String × Int32) :=
  [("HOME", 3), ("BACK", 4), ("DPAD_UP", 19), ("DPAD_DOWN", 20), ("DPAD_LEFT", 21),
    ("DPAD_RIGHT", 22), ("DPAD_CENTER", 23), ("POWER", 26), ("TAB", 61), ("SPACE", 62),
    ("ENTER", 66), ("DEL", 67), ("MENU", 82), ("SEARCH", 84), ("RECENT_APPS", 187)]

/-- ASCII letters in upper case; all other characters as they are. -/
def upper (c : Char) : Char :=
  if 'a' ≤ c ∧ c ≤ 'z' then Char.ofNat (c.toNat - 32) else c

/-- A name that may begin with `KEYCODE_`. -/
def bareName (cs : List Char) : List Char :=
  (Text.after? "KEYCODE_".toList cs).getD cs

/-- The code of a key by its name, or by the one character it types. -/
def ofName? (cs : List Char) : Option Int32 :=
  match named.lookup (String.ofList cs) with
  | some code => some code
  | none =>
    match cs with
    | [c] => (letter? c).or (digit? c)
    | _ => none

/-- The key that a text names. A number is read as it stands; a name may be in any case and have
white space around it. -/
def parse? (cs : List Char) : Option Int32 :=
  match Text.readIntWithin? (-2147483648) 2147483647 cs with
  | some n => some (Int32.ofInt n)
  | none => ofName? (bareName ((Text.trim cs).map upper))

end CorrelatedInput.Keys
