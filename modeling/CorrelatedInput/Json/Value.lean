import CorrelatedInput.Text.Numeral
/-!
JSON values and their two written forms: compact on one line, and laid out over several lines
with two spaces for each level.

A number is an integer when 64 bits hold it; any other number is kept as it was written, because
nothing here calculates with it.
-/
namespace CorrelatedInput.Json

inductive Value where
  | null
  | bool (b : Bool)
  | integer (n : Int)
  | decimal (written : String)
  | text (s : String)
  | array (items : List Value)
  | object (members : List (String × Value))
deriving Repr, Inhabited

def hexDigit (n : Nat) : Char := Nat.digitChar n

/-- One character inside quotes: quotes, backslashes and control characters are escaped, and
nothing else. -/
def escape (c : Char) : List Char :=
  if c = '\x22' then ['\\', '\x22']
  else if c = '\\' then ['\\', '\\']
  else if c = '\x08' then ['\\', 'b']
  else if c = '\x0c' then ['\\', 'f']
  else if c = '\n' then ['\\', 'n']
  else if c = '\r' then ['\\', 'r']
  else if c = '\t' then ['\\', 't']
  else if c.toNat < 32 then
    ['\\', 'u', '0', '0', hexDigit (c.toNat / 16), hexDigit (c.toNat % 16)]
  else [c]

def quote (s : String) : List Char := '\x22' :: (s.toList.flatMap escape ++ ['\x22'])

mutual

def Value.write : Value → List Char
  | .null => ['n', 'u', 'l', 'l']
  | .bool true => ['t', 'r', 'u', 'e']
  | .bool false => ['f', 'a', 'l', 's', 'e']
  | .integer n => Text.writeInt n
  | .decimal written => written.toList
  | .text s => quote s
  | .array items => '[' :: (writeItems items ++ [']'])
  | .object members => '\x7b' :: (writeMembers members ++ ['\x7d'])

def writeItems : List Value → List Char
  | [] => []
  | [v] => v.write
  | v :: rest => v.write ++ ',' :: writeItems rest

def writeMembers : List (String × Value) → List Char
  | [] => []
  | [(k, v)] => quote k ++ ':' :: v.write
  | (k, v) :: rest => quote k ++ ':' :: (v.write ++ ',' :: writeMembers rest)

end

def newline (level : Nat) : List Char := '\n' :: List.replicate (2 * level) ' '

mutual

/-- The form over several lines; `level` is how deep the value stands. -/
def Value.layOut (level : Nat) : Value → List Char
  | .array [] => ['[', ']']
  | .array items => '[' :: (layOutItems (level + 1) items ++ newline level ++ [']'])
  | .object [] => ['\x7b', '\x7d']
  | .object members =>
    '\x7b' :: (layOutMembers (level + 1) members ++ newline level ++ ['\x7d'])
  | .null => Value.null.write
  | .bool b => (Value.bool b).write
  | .integer n => (Value.integer n).write
  | .decimal written => (Value.decimal written).write
  | .text s => (Value.text s).write

def layOutItems (level : Nat) : List Value → List Char
  | [] => []
  | [v] => newline level ++ v.layOut level
  | v :: rest => newline level ++ (v.layOut level ++ ',' :: layOutItems level rest)

def layOutMembers (level : Nat) : List (String × Value) → List Char
  | [] => []
  | [(k, v)] => newline level ++ (quote k ++ ':' :: ' ' :: v.layOut level)
  | (k, v) :: rest =>
    newline level ++ (quote k ++ ':' :: ' ' :: (v.layOut level ++ ',' :: layOutMembers level rest))

end

def Value.compact (v : Value) : String := String.ofList v.write

def Value.pretty (v : Value) : String := String.ofList (v.layOut 0)

end CorrelatedInput.Json
