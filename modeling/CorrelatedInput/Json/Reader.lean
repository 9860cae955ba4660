import CorrelatedInput.Json.Value
import CorrelatedInput.Rounding
/-!
Reading JSON from the front of a text.

A reader consumes what it understands and hands back the rest. It stops at the first problem from
the left, and the problem is one of three: the text ends too early, the text is no JSON, or the
JSON is not what was asked for. A value that is only passed over is held to the grammar alone:
its nesting, its escaped halves of characters and the size of its numbers do not matter.
-/
namespace CorrelatedInput.Json

/-- Why a text cannot be read. -/
inductive Fault where
  /-- The text ends before the value does. -/
  | truncated
  | malformed
  /-- The text is JSON, but not of the form that was asked for. -/
  | unfit
deriving DecidableEq, Repr

abbrev Reader (α : Type) := List Char → Except Fault (α × List Char)

/-- Whether a value is read to be kept or only to find where it ends. -/
inductive Purpose where
  | keep
  | skip
deriving DecidableEq, Repr

/-- A number that the end of the text cuts off: a reader that skips does not notice the end. -/
def Purpose.cutNumber : Purpose → Fault
  | .keep => .truncated
  | .skip => .malformed

def isBlank (c : Char) : Bool := c = ' ' || c = '\n' || c = '\t' || c = '\r'

def skipBlank (cs : List Char) : List Char := cs.dropWhile isBlank

def readWord : List Char → List Char → Except Fault (List Char)
  | [], cs => .ok cs
  | _ :: _, [] => .error .truncated
  | w :: ws, c :: cs => if w = c then readWord ws cs else .error .malformed

/-! Numbers -/

structure Spelling where
  negative : Bool
  whole : List Char
  fraction : List Char
  exponent : Option (Bool × List Char)

/-- Digits gathered onto `m` while 64 bits hold the result; what is left over comes last. -/
def gather (m taken : Nat) : List Char → Nat × Nat × List Char
  | [] => (m, taken, [])
  | d :: ds =>
    let next := m * 10 + Text.ofDigits [d]
    if UInt64.size ≤ next then (m, taken, d :: ds) else gather next (taken + 1) ds

/-- Whether the number lies beyond what binary64 can hold. -/
def Spelling.tooLarge (n : Spelling) : Bool :=
  let (m, _, left) := gather 0 0 n.whole
  let (m, taken, _) := gather m 0 n.fraction
  let power : Int := match n.exponent with
    | none => 0
    | some (true, ds) => -(Text.ofDigits ds : Int)
    | some (false, ds) => Text.ofDigits ds
  overflowsBinary64 m (power + left.length - taken)

def Spelling.written (n : Spelling) : List Char :=
  (if n.negative then ['-'] else []) ++ n.whole ++
    (if n.fraction = [] then [] else '.' :: n.fraction) ++
    match n.exponent with
    | none => []
    | some (negative, ds) => 'e' :: ((if negative then ['-'] else []) ++ ds)

/-- An integer that 64 bits hold, signed or not, is an integer; a negative zero is none. -/
def Spelling.value (n : Spelling) : Value :=
  let m := Text.ofDigits n.whole
  if n.fraction = [] ∧ n.exponent = none ∧ n.negative = false ∧ m < UInt64.size then .integer m
  else if n.fraction = [] ∧ n.exponent = none ∧ n.negative = true ∧ 0 < m ∧ 2 * m ≤ UInt64.size
    then .integer (-(m : Int))
  else .decimal (String.ofList n.written)

def readDigits (p : Purpose) (cs : List Char) : Except Fault (List Char × List Char) :=
  match cs with
  | [] => .error p.cutNumber
  | c :: _ =>
    if Text.isDigit c then .ok (cs.takeWhile Text.isDigit, cs.dropWhile Text.isDigit)
    else .error .malformed

def readFraction (p : Purpose) : List Char → Except Fault (List Char × List Char)
  | '.' :: cs => readDigits p cs
  | cs => .ok ([], cs)

def readExponent (p : Purpose) :
    List Char → Except Fault (Option (Bool × List Char) × List Char)
  | [] => .ok (none, [])
  | c :: cs =>
    if c = 'e' ∨ c = 'E' then do
      let (negative, cs) := match cs with
        | '-' :: cs => (true, cs)
        | '+' :: cs => (false, cs)
        | cs => (false, cs)
      let (ds, cs) ← readDigits p cs
      return (some (negative, ds), cs)
    else .ok (none, c :: cs)

def readSpelling (p : Purpose) (cs : List Char) : Except Fault (Spelling × List Char) := do
  let (negative, cs) := match cs with
    | '-' :: cs => (true, cs)
    | cs => (false, cs)
  let (whole, cs) ← readDigits p cs
  if whole.head? = some '0' ∧ 1 < whole.length then throw .malformed
  let (fraction, cs) ← readFraction p cs
  let (exponent, cs) ← readExponent p cs
  return (⟨negative, whole, fraction, exponent⟩, cs)

/-- A number; one that is kept must not be too large. -/
def readNumber (p : Purpose) : Reader Value := fun cs => do
  let (n, cs) ← readSpelling p cs
  if p = .keep ∧ n.tooLarge then throw .malformed
  return (n.value, cs)

/-! Strings -/

def hexValue? (c : Char) : Option Nat :=
  if '0' ≤ c ∧ c ≤ '9' then some (c.toNat - 48)
  else if 'a' ≤ c ∧ c ≤ 'f' then some (c.toNat - 87)
  else if 'A' ≤ c ∧ c ≤ 'F' then some (c.toNat - 55)
  else none

def hexQuad? (a b c d : Char) : Option Nat := do
  return ((← hexValue? a) * 16 + (← hexValue? b)) * 256 + ((← hexValue? c) * 16 + (← hexValue? d))

def isLeading (n : Nat) : Bool := 0xD800 ≤ n && n ≤ 0xDBFF

def isTrailing (n : Nat) : Bool := 0xDC00 ≤ n && n ≤ 0xDFFF

def joinPair (lead trail : Nat) : Char :=
  Char.ofNat ((lead - 0xD800) * 1024 + (trail - 0xDC00) + 0x10000)

/-- Fewer than four characters follow an escape's `u`: the text ends too early when they take
fewer than four bytes as well. -/
def shortEscape (cs : List Char) : Fault :=
  if (String.ofList cs).utf8ByteSize < 4 then .truncated else .malformed

def escaped? (c : Char) : Option Char :=
  if c = '\x22' ∨ c = '\\' ∨ c = '/' then some c
  else if c = 'b' then some '\x08'
  else if c = 'f' then some '\x0c'
  else if c = 'n' then some '\n'
  else if c = 'r' then some '\r'
  else if c = 't' then some '\t'
  else none

def withChar (c : Char) (r : Except Fault (List Char × List Char)) :
    Except Fault (List Char × List Char) :=
  r.map fun (cs, rest) => (c :: cs, rest)

/-- The characters of a string up to its closing quote, after its opening quote. -/
def readChars (p : Purpose) : List Char → Except Fault (List Char × List Char)
  | [] => .error .truncated
  | '\\' :: 'u' :: a :: b :: c :: d :: rest =>
    match hexQuad? a b c d with
    | none => .error .malformed
    | some n =>
      if p = .skip then withChar (Char.ofNat n) (readChars p rest)
      else if isTrailing n then .error .malformed
      else if isLeading n then
        match rest with
        | '\\' :: 'u' :: a :: b :: c :: d :: rest =>
          match hexQuad? a b c d with
          | none => .error .malformed
          | some m =>
            if isTrailing m then withChar (joinPair n m) (readChars p rest)
            else .error .malformed
        | '\\' :: 'u' :: rest => .error (shortEscape rest)
        | ['\\'] => .error .truncated
        | [] => .error .truncated
        | _ => .error .malformed
      else withChar (Char.ofNat n) (readChars p rest)
  | '\\' :: 'u' :: rest => .error (shortEscape rest)
  | ['\\'] => .error .truncated
  | '\\' :: c :: rest =>
    match escaped? c with
    | none => .error .malformed
    | some e => withChar e (readChars p rest)
  | c :: rest =>
    if c = '\x22' then .ok ([], rest)
    else if c.toNat < 32 then .error .malformed
    else withChar c (readChars p rest)

def readString (p : Purpose) : Reader String := fun cs => do
  let (s, cs) ← readChars p cs
  return (String.ofList s, cs)

def readColon (cs : List Char) : Except Fault (List Char) :=
  match skipBlank cs with
  | [] => .error .truncated
  | c :: cs => if c = ':' then .ok cs else .error .malformed

/-! Values -/

/-- How deep arrays and objects may stand in each other, the outermost one counted. -/
def depthLimit : Nat := 127

mutual

/-- A value below which `depth` more levels may stand. -/
def readNested (p : Purpose) : Nat → Nat → Reader Value
  | 0, _ => fun _ => .error .malformed
  | fuel + 1, depth => fun cs =>
    match skipBlank cs with
    | [] => .error .truncated
    | c :: rest =>
      if c = '\x22' then do
        let (s, rest) ← readString p rest
        return (.text s, rest)
      else if c = '[' then
        if p = .keep ∧ depth = 0 then .error .malformed
        else do
          let (items, rest) ← readItems p fuel (depth - 1) true rest
          return (.array items, rest)
      else if c = '\x7b' then
        if p = .keep ∧ depth = 0 then .error .malformed
        else do
          let (members, rest) ← readMembers p fuel (depth - 1) true rest
          return (.object members, rest)
      else if c = '-' ∨ Text.isDigit c then readNumber p (c :: rest)
      else if c = 'n' then do
        return (.null, ← readWord ['u', 'l', 'l'] rest)
      else if c = 't' then do
        return (.bool true, ← readWord ['r', 'u', 'e'] rest)
      else if c = 'f' then do
        return (.bool false, ← readWord ['a', 'l', 's', 'e'] rest)
      else .error .malformed

/-- The items of an array up to its end; `first` before the first of them. -/
def readItems (p : Purpose) : Nat → Nat → Bool → Reader (List Value)
  | 0, _, _ => fun _ => .error .malformed
  | fuel + 1, depth, first => fun cs =>
    match skipBlank cs with
    | [] => .error .truncated
    | c :: rest =>
      if c = ']' then .ok ([], rest)
      else if !first && c ≠ ',' then .error .malformed
      else do
        let (v, rest) ← readNested p fuel depth (if first then c :: rest else rest)
        let (vs, rest) ← readItems p fuel depth false rest
        return (v :: vs, rest)

/-- The members of an object up to its end; `first` before the first of them. -/
def readMembers (p : Purpose) : Nat → Nat → Bool → Reader (List (String × Value))
  | 0, _, _ => fun _ => .error .malformed
  | fuel + 1, depth, first => fun cs =>
    match skipBlank cs with
    | [] => .error .truncated
    | c :: rest =>
      if c = '\x7d' then .ok ([], rest)
      else if !first && c ≠ ',' then .error .malformed
      else
        match skipBlank (if first then c :: rest else rest) with
        | [] => .error .truncated
        | c :: rest =>
          if c = '\x22' then do
            let (k, rest) ← readString p rest
            let rest ← readColon rest
            let (v, rest) ← readNested p fuel depth rest
            let (ms, rest) ← readMembers p fuel depth false rest
            return ((k, v) :: ms, rest)
          else .error .malformed

end

/-- Steps that suffice for any value in the text: each character opens at most two. -/
def enough (cs : List Char) : Nat := 2 * cs.length + 2

def readValue (p : Purpose) (depth : Nat) : Reader Value := fun cs =>
  readNested p (enough cs) depth cs

def skipValue (cs : List Char) : Except Fault (List Char) :=
  Prod.snd <$> readValue .skip 0 cs

/-- Reads the whole of a text: only blanks may follow the value. -/
def readAll {α : Type} (r : Reader α) (cs : List Char) : Except Fault α := do
  let (a, rest) ← r cs
  if skipBlank rest = [] then return a else throw .malformed

end CorrelatedInput.Json
