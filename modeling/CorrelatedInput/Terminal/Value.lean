import CorrelatedInput.Keys.Code
import CorrelatedInput.Motion.Interpolation
/-!
The values that stand on a command line, and why a command line is refused.
-/
namespace CorrelatedInput.Terminal

/-- Why a command line is not carried out. That it asks for help is one of the reasons. -/
inductive Refusal where
  /-- An option that there is not, or a value that there is no use for. -/
  | unknownArgument
  /-- A value that has to be given is not. -/
  | missingArgument
  | unknownCommand
  | missingCommand
  /-- An option stands without its value. -/
  | missingValue
  /-- A value is none of those that are possible. -/
  | badValue
  /-- An option is given twice. -/
  | repeated
  /-- An option that takes no value is given one. -/
  | unneededValue
  | help
  /-- A command that needs another one stands alone. -/
  | helpForMissing
  | version
deriving DecidableEq, Repr

def Refusal.message : Refusal → String
  | .unknownArgument => "there is an argument that is not known here"
  | .missingArgument => "a value is missing"
  | .unknownCommand => "there is no such command"
  | .missingCommand => "a command is missing"
  | .missingValue => "an option lacks its value"
  | .badValue => "a value cannot be read"
  | .repeated => "an option is given twice"
  | .unneededValue => "an option takes no value"
  | .help => "help was asked for"
  | .helpForMissing => "a command is missing"
  | .version => "the version was asked for"

inductive Datum where
  | number (n : Int)
  | text (s : String)
  | point (c : Coordinate)
deriving DecidableEq, Repr

inductive Form where
  | signed
  | unsigned
  | text
  /-- The name of a file, which is not empty. -/
  | path
  /-- Two numbers with a comma between them, and white space around either. -/
  | point
  /-- A key, by number or by name. -/
  | key
deriving DecidableEq, Repr

def readSigned? (cs : List Char) : Option Int :=
  Text.readIntWithin? (-2147483648) 2147483647 cs

/-- A point; what follows its first comma is its second number. -/
def readPoint? (cs : List Char) : Option Coordinate := do
  let x ← readSigned? (Text.trim (cs.takeWhile (· ≠ ',')))
  let y ← readSigned? (Text.trim (← (cs.dropWhile (· ≠ ',')).tail?))
  return ⟨Int32.ofInt x, Int32.ofInt y⟩

def Form.read? (form : Form) (s : String) : Option Datum :=
  match form with
  | .signed => .number <$> readSigned? s.toList
  | .unsigned => .number <$> Text.readIntWithin? 0 4294967295 s.toList
  | .text => some (.text s)
  | .path => some (.text s)
  | .point => .point <$> readPoint? s.toList
  | .key => (fun code => .number code.toInt) <$> Keys.parse? s.toList

def Form.read (form : Form) (s : String) : Except Refusal Datum :=
  if form = .path ∧ s = "" then .error .missingValue
  else match form.read? s with
    | some d => .ok d
    | none => .error .badValue

end CorrelatedInput.Terminal
