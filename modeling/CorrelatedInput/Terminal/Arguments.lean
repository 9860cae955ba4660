import CorrelatedInput.Terminal.Value
/-!
Command lines: commands within commands, each with its options and the values it takes by position.

Arguments are taken one by one. The values of an option or of a position are judged when the next
option or position is met, or at the end, so the first fault on the line decides; what a command
lacks is told after what is wrong in it, and an inner command is judged before an outer one.
-/
namespace CorrelatedInput.Terminal

inductive Role where
  | help
  | version
  | flag
  | value (form : Form)
deriving DecidableEq, Repr

/-- An option, by its long name and perhaps by one letter. -/
structure Switch where
  long : String
  short : Option Char
  role : Role
deriving DecidableEq, Repr

/-- A value by position, or any number of them from one position on. -/
structure Operand where
  name : String
  form : Form
  many : Bool
deriving DecidableEq, Repr

/-- A command that takes values, or needs one of several commands within it. -/
inductive Command where
  | mk (name : String) (switches : List Switch) (operands : List Operand)
      (commands : List Command)

namespace Command

def name : Command → String
  | mk name _ _ _ => name

def switches : Command → List Switch
  | mk _ switches _ _ => switches

def operands : Command → List Operand
  | mk _ _ operands _ => operands

def commands : Command → List Command
  | mk _ _ _ commands => commands

def find? (name : String) (c : Command) : Option Command :=
  c.commands.find? fun inner => inner.name = name

def hasHelp (c : Command) : Bool := !c.commands.isEmpty

/-- The answer to a request for help on a command within commands. -/
def helpOn (c : Command) : List String → Refusal
  | [] => .help
  | name :: rest =>
    match c.find? name with
    | some inner => inner.helpOn rest
    | none => if name = "help" ∧ c.hasHelp ∧ rest = [] then .help else .unknownCommand

end Command

/-- Where values go whose option or position was met last. -/
inductive Slot where
  | switch (name : String) (form : Form)
  | operand (o : Operand)
deriving DecidableEq, Repr

/-- What a command was given, in order. -/
abbrev Given := List (String × List Datum)

/-- How far the arguments of one command have been taken. -/
structure Level where
  given : Given
  /-- Values that nobody has judged yet. -/
  pending : Option (Slot × List String)
  /-- How many positions are filled. -/
  filled : Nat
  /-- Two dashes have passed: all that follows is values. -/
  trailing : Bool
deriving DecidableEq, Repr

namespace Level

def fresh : Level := ⟨[], none, 0, false⟩

def has (name : String) (l : Level) : Bool := l.given.any fun g => g.1 = name

def resolve (l : Level) : Except Refusal Level :=
  match l.pending with
  | none => .ok l
  | some (.switch _ _, []) => .error .missingValue
  | some (.switch name form, values) =>
    if l.has name then .error .repeated
    else do
      let data ← values.mapM form.read
      return { l with given := l.given ++ [(name, data)], pending := none }
  | some (.operand o, values) => do
    let data ← values.mapM o.form.read
    return { l with given := l.given ++ [(o.name, data)], pending := none }

def awaits (l : Level) : Bool :=
  match l.pending with
  | some (.switch _ _, []) => true
  | _ => false

def supply (arg : String) (l : Level) : Level :=
  { l with pending := l.pending.map fun (slot, values) => (slot, values ++ [arg]) }

def mark (name : String) (l : Level) : Except Refusal Level := do
  let l ← l.resolve
  if l.has name then .error .repeated
  else return { l with given := l.given ++ [(name, [])] }

/-- An option that takes a value, which may be attached to it. -/
def open? (name : String) (form : Form) (attached : Option String) (l : Level) :
    Except Refusal Level := do
  let l := { ← l.resolve with pending := some (.switch name form, attached.toList) }
  match attached with
  | some _ => l.resolve
  | none => return l

def takeLong (c : Command) (name : String) (attached : Option String) (l : Level) :
    Except Refusal Level :=
  match c.switches.find? fun s => s.long = name with
  | none => .error .unknownArgument
  | some s =>
    match s.role, attached with
    | .value form, _ => l.open? s.long form attached
    | _, some _ => .error .unneededValue
    | .flag, none => l.mark s.long
    | .help, none => do let _ ← l.resolve; .error .help
    | .version, none => do let _ ← l.resolve; .error .version

/-- Options by their letters. What follows the letter of an option that takes a value is its value,
an equals sign in front of it apart. -/
def takeShort (c : Command) : List Char → Level → Except Refusal Level
  | [], l => .ok l
  | letter :: rest, l =>
    match c.switches.find? fun s => s.short = some letter with
    | none => .error .unknownArgument
    | some s =>
      match s.role, rest with
      | .value form, [] => l.open? s.long form none
      | .value form, '=' :: value => l.open? s.long form (some (String.ofList value))
      | .value form, value => l.open? s.long form (some (String.ofList value))
      | .flag, rest => do takeShort c rest (← l.mark s.long)
      | .help, _ => do let _ ← l.resolve; .error .help
      | .version, _ => do let _ ← l.resolve; .error .version

def fill (o : Operand) (arg : String) (l : Level) : Except Refusal Level := do
  let l ← l.resolve
  return { l with
    pending := some (.operand o, [arg])
    filled := if o.many then l.filled else l.filled + 1 }

def takeOperand (c : Command) (arg : String) (l : Level) : Except Refusal Level :=
  match c.operands[l.filled]? with
  | none =>
    if c.commands.isEmpty then .error .unknownArgument
    else if l.trailing ∧ ((c.find? arg).isSome ∨ arg = "help") then .error .unknownArgument
    else .error .unknownCommand
  | some o =>
    match l.pending with
    | some (.operand p, values) =>
      if p = o then .ok { l with pending := some (.operand o, values ++ [arg]) }
      else l.fill o arg
    | _ => l.fill o arg

/-- The end of a command line: what was given, if nothing is missing. -/
def finish (c : Command) (l : Level) : Except Refusal Given := do
  let l ← l.resolve
  if !c.commands.isEmpty then
    .error (if l.given.isEmpty then .helpForMissing else .missingCommand)
  else if c.operands.all fun o => l.has o.name then return l.given
  else .error .missingArgument

end Level

/-- An argument that begins with a dash and says more, and thus is no value. -/
def isOption (arg : String) : Bool :=
  match arg.toList with
  | '-' :: _ :: _ => true
  | _ => false

/-- An argument as an option by its long name, with the value after an equals sign. -/
def asLong? : List Char → Option (String × Option String)
  | '-' :: '-' :: cs =>
    let name := String.ofList (cs.takeWhile (· ≠ '='))
    some (name, (cs.dropWhile (· ≠ '=')).tail?.map String.ofList)
  | _ => none

def asShort? : List Char → Option (List Char)
  | '-' :: c :: cs => some (c :: cs)
  | _ => none

/-- Takes the arguments of a command: what it and the commands within it were given, the outermost
first, each with its name. -/
def parse (c : Command) (l : Level) : List String → Except Refusal (List (String × Given))
  | [] => do return [(c.name, ← l.finish c)]
  | arg :: rest => do
    if l.trailing then parse c (← l.takeOperand c arg) rest
    else if l.awaits && !isOption arg then parse c (l.supply arg) rest
    else if arg = "help" ∧ c.hasHelp then .error (c.helpOn rest)
    else
      match c.find? arg with
      | some inner =>
        let found ← parse inner .fresh rest
        let l ← l.resolve
        return (c.name, l.given) :: found
      | none =>
        if arg = "--" then parse c { l with trailing := true } rest
        else match asLong? arg.toList, asShort? arg.toList with
          | some (name, attached), _ => parse c (← l.takeLong c name attached) rest
          | none, some letters => parse c (← l.takeShort c letters) rest
          | none, none => parse c (← l.takeOperand c arg) rest

end CorrelatedInput.Terminal
