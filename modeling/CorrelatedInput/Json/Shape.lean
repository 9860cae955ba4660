import CorrelatedInput.Json.Reader
/-!
The form that a JSON value must have to stand for something, and two ways to hold a value to it.

`Shape.read` goes through a text from left to right and stops at the first character that breaks
either JSON or the form. `Shape.conform?` judges a value that has been read already. Both give the
same result: a record as the list of its fields in their order, absent ones by default, and a
name as a plain string.
-/
namespace CorrelatedInput.Json

mutual

inductive Shape where
  /-- An integer, written as one, between two bounds, both included. -/
  | integer (low high : Int)
  | flag
  | text
  /-- One of several names, compared exactly. -/
  | name (choices : List String)
  /-- Null, or a value of the given shape. -/
  | optional (shape : Shape)
  | list (shape : Shape)
  /-- An object with known members, in any order and among others. If `positional` is set, an array
  of the fields in their order will do. -/
  | record (positional : Bool) (fields : Fields)

/-- The fields of a record, each with the value that stands for an absent one, if it may be. -/
inductive Fields where
  | nil
  | cons (name : String) (shape : Shape) (default? : Option Value) (rest : Fields)

end

def word32 : Shape := .integer 0 4294967295

def word64 : Shape := .integer 0 18446744073709551615

def signed32 : Shape := .integer (-2147483648) 2147483647

/-! Left to right -/

/-- The fault of a value that is not of the type asked for: a string, a number or a word is read
to its end first, and an array or an object is refused at sight. -/
def mistyped (cs : List Char) : Fault :=
  let orFault {α : Type} : Except Fault α → Fault
    | .error f => f
    | .ok _ => .unfit
  match skipBlank cs with
  | [] => .truncated
  | c :: rest =>
    if c = '\x22' then orFault (readString .keep rest)
    else if c = '[' ∨ c = '\x7b' then .unfit
    else if c = '-' ∨ Text.isDigit c then orFault (readNumber .keep (c :: rest))
    else if c = 'n' then orFault (readWord ['u', 'l', 'l'] rest)
    else if c = 't' then orFault (readWord ['r', 'u', 'e'] rest)
    else if c = 'f' then orFault (readWord ['a', 'l', 's', 'e'] rest)
    else .malformed

def readInteger (low high : Int) : Reader Value := fun cs =>
  match skipBlank cs with
  | c :: rest =>
    if c = '-' ∨ Text.isDigit c then do
      match ← readNumber .keep (c :: rest) with
      | (.integer n, rest) =>
        if low ≤ n ∧ n ≤ high then return (.integer n, rest) else throw .unfit
      | _ => throw .unfit
    else .error (mistyped cs)
  | [] => .error .truncated

def readFlag : Reader Value := fun cs =>
  match skipBlank cs with
  | 't' :: rest => do return (.bool true, ← readWord ['r', 'u', 'e'] rest)
  | 'f' :: rest => do return (.bool false, ← readWord ['a', 'l', 's', 'e'] rest)
  | _ => .error (mistyped cs)

def readText : Reader Value := fun cs =>
  match skipBlank cs with
  | c :: rest =>
    if c = '\x22' then do
      let (s, rest) ← readString .keep rest
      return (.text s, rest)
    else .error (mistyped cs)
  | [] => .error .truncated

def readChoice (choices : List String) : Reader Value := fun cs => do
  match ← readText cs with
  | (.text s, rest) => if s ∈ choices then return (.text s, rest) else throw .unfit
  | _ => throw .unfit

/-- The key of an object that stands for a choice. What is no string is no key. -/
def readNameKey (choices : List String) : Reader Value := fun cs =>
  match skipBlank cs with
  | [] => .error .truncated
  | c :: rest =>
    if c = '\x22' then readChoice choices (c :: rest) else .error .malformed

/-- A choice, or an object with a choice as its only key and null under it. -/
def readName (choices : List String) : Reader Value := fun cs =>
  match skipBlank cs with
  | [] => .error .truncated
  | c :: rest =>
    if c = '\x22' then readChoice choices (c :: rest)
    else if c = '\x7b' then do
      let (name, rest) ← readNameKey choices rest
      let rest ← readColon rest
      let rest ← match skipBlank rest with
        | 'n' :: rest => readWord ['u', 'l', 'l'] rest
        | rest => .error (mistyped rest)
      match skipBlank rest with
      | [] => throw .truncated
      | c :: rest => if c = '\x7d' then return (name, rest) else throw .malformed
    else .error .malformed

def readOptional (r : Reader Value) : Reader Value := fun cs =>
  match skipBlank cs with
  | 'n' :: rest => do return (.null, ← readWord ['u', 'l', 'l'] rest)
  | cs => r cs

/-- The items of an array, each by the same reader. -/
def readListFrom (r : Reader Value) : Nat → Bool → Reader (List Value)
  | 0, _ => fun _ => .error .malformed
  | fuel + 1, first => fun cs =>
    match skipBlank cs with
    | [] => .error .truncated
    | c :: rest =>
      if c = ']' then .ok ([], rest)
      else if !first && c ≠ ',' then .error .malformed
      else do
        let (v, rest) ← r (if first then c :: rest else rest)
        let (vs, rest) ← readListFrom r fuel false rest
        return (v :: vs, rest)

def readList (r : Reader Value) : Reader Value := fun cs =>
  match skipBlank cs with
  | '[' :: rest => do
    let (items, rest) ← readListFrom r (enough rest) true rest
    return (.array items, rest)
  | _ => .error (mistyped cs)

/-- How one field of a record is read, and what stands for it when it is absent. -/
structure FieldReader where
  name : String
  read : Reader Value
  default? : Option Value

/-- The values of the fields among `seen`, in the order of the fields. -/
def settle (fields : List FieldReader) (seen : List (String × Value)) :
    Except Fault (List Value) :=
  fields.mapM fun f =>
    match (seen.lookup f.name).or f.default? with
    | some v => .ok v
    | none => .error .unfit

/-- The fields of a record written as an array, and the end of the array. -/
def readPositions : List FieldReader → Bool → Reader (List Value)
  | [], _ => fun cs =>
    match skipBlank cs with
    | [] => .error .truncated
    | c :: rest => if c = ']' then .ok ([], rest) else .error .malformed
  | f :: fields, first => fun cs =>
    match skipBlank cs with
    | [] => .error .truncated
    | c :: rest =>
      if c = ']' then do return (← settle (f :: fields) [], rest)
      else if !first && c ≠ ',' then .error .malformed
      else
        match skipBlank (if first then c :: rest else rest) with
        | ']' :: _ => .error .malformed
        | rest => do
          let (v, rest) ← f.read rest
          let (vs, rest) ← readPositions fields false rest
          return (v :: vs, rest)

/-- The members of a record written as an object, and the end of the object. A known member twice
is refused at its second key; an unknown one is passed over. -/
def readFields (fields : List FieldReader) :
    Nat → Bool → List (String × Value) → Reader (List Value)
  | 0, _, _ => fun _ => .error .malformed
  | fuel + 1, first, seen => fun cs =>
    match skipBlank cs with
    | [] => .error .truncated
    | c :: rest =>
      if c = '\x7d' then do return (← settle fields seen, rest)
      else if !first && c ≠ ',' then .error .malformed
      else
        match skipBlank (if first then c :: rest else rest) with
        | [] => .error .truncated
        | c :: rest =>
          if c = '\x22' then do
            let (key, rest) ← readString .keep rest
            match fields.find? (fun f => f.name = key) with
            | some f =>
              if (seen.lookup key).isSome then throw .unfit
              let (v, rest) ← f.read (← readColon rest)
              readFields fields fuel false ((key, v) :: seen) rest
            | none =>
              let rest ← skipValue (← readColon rest)
              readFields fields fuel false seen rest
          else .error .malformed

def readRecord (positional : Bool) (fields : List FieldReader) : Reader Value := fun cs =>
  match skipBlank cs with
  | [] => .error .truncated
  | c :: rest =>
    if c = '[' ∧ positional then do
      let (vs, rest) ← readPositions fields true rest
      return (.array vs, rest)
    else if c = '\x7b' then do
      let (vs, rest) ← readFields fields (enough rest) true [] rest
      return (.array vs, rest)
    else .error (mistyped cs)

mutual

def Shape.read : Shape → Reader Value
  | .integer low high => readInteger low high
  | .flag => readFlag
  | .text => readText
  | .name choices => readName choices
  | .optional shape => readOptional shape.read
  | .list shape => readList shape.read
  | .record positional fields => readRecord positional fields.readers

def Fields.readers : Fields → List FieldReader
  | .nil => []
  | .cons name shape default? rest => ⟨name, shape.read, default?⟩ :: rest.readers

end

/-! Values read before -/

mutual

/-- The value in the form of the shape, if it fits. A name may also be the only key of an object
that holds null or nothing. -/
def Shape.conform? : Shape → Value → Option Value
  | .integer low high, .integer n => if low ≤ n ∧ n ≤ high then some (.integer n) else none
  | .flag, .bool b => some (.bool b)
  | .text, .text s => some (.text s)
  | .name choices, .text s => if s ∈ choices then some (.text s) else none
  | .name choices, .object [(s, .null)] => if s ∈ choices then some (.text s) else none
  | .name choices, .object [(s, .object [])] => if s ∈ choices then some (.text s) else none
  | .optional _, .null => some .null
  | .optional shape, v => shape.conform? v
  | .list shape, .array items => .array <$> items.mapM shape.conform?
  | .record true fields, .array items => .array <$> fields.conformPositions? items
  | .record _ fields, .object members => .array <$> fields.conformMembers? members
  | _, _ => none

/-- The fields from an array: too many items do not fit, and the last fields may be absent. -/
def Fields.conformPositions? : Fields → List Value → Option (List Value)
  | .nil, [] => some []
  | .nil, _ :: _ => none
  | .cons _ _ default? rest, [] => do return (← default?) :: (← rest.conformPositions? [])
  | .cons _ shape _ rest, v :: vs => do
    return (← shape.conform? v) :: (← rest.conformPositions? vs)

/-- The fields from the members of an object, where none may stand twice. -/
def Fields.conformMembers? : Fields → List (String × Value) → Option (List Value)
  | .nil, _ => some []
  | .cons name shape default? rest, members =>
    match members.filter (fun m => m.1 = name) with
    | [] => do return (← default?) :: (← rest.conformMembers? members)
    | [(_, v)] => do return (← shape.conform? v) :: (← rest.conformMembers? members)
    | _ => none

end

/-! Tagged values -/

/-- The members of an object up to its end, the tag apart. The tag must be a plain choice, and
must not stand twice. -/
def readTaggedMembers (tag : String) (choices : List String) :
    Nat → Bool → Option String → Reader (String × List (String × Value))
  | 0, _, _ => fun _ => .error .malformed
  | fuel + 1, first, found => fun cs =>
    match skipBlank cs with
    | [] => .error .truncated
    | c :: rest =>
      if c = '\x7d' then
        match found with
        | some name => .ok ((name, []), rest)
        | none => .error .unfit
      else if !first && c ≠ ',' then .error .malformed
      else
        match skipBlank (if first then c :: rest else rest) with
        | [] => .error .truncated
        | c :: rest =>
          if c = '\x22' then do
            let (key, rest) ← readString .keep rest
            if key = tag then
              if found.isSome then throw .unfit
              match ← readChoice choices (← readColon rest) with
              | (.text name, rest) =>
                readTaggedMembers tag choices fuel false (some name) rest
              | _ => throw .unfit
            else
              let (v, rest) ← readValue .keep (depthLimit - 1) (← readColon rest)
              let ((name, members), rest) ←
                readTaggedMembers tag choices fuel false found rest
              return ((name, (key, v) :: members), rest)
          else .error .malformed

/-- A value that names its own kind: an object with the kind under the key `tag`, or an array that
begins with it. The rest of it is read as JSON to its end and judged by nobody yet. -/
def readTagged (tag : String) (choices : List String) : Reader (String × Value) := fun cs =>
  match skipBlank cs with
  | [] => .error .truncated
  | c :: rest =>
    if c = '\x7b' then do
      let ((name, members), rest) ←
        readTaggedMembers tag choices (enough rest) true none rest
      return ((name, .object members), rest)
    else if c = '[' then
      match skipBlank rest with
      | ']' :: _ => .error .unfit
      | rest => do
        match ← readChoice choices rest with
        | (.text name, rest) =>
          let (items, rest) ← readItems .keep (enough rest) (depthLimit - 1) false rest
          return ((name, .array items), rest)
        | _ => throw .unfit
    else .error (mistyped cs)

end CorrelatedInput.Json
