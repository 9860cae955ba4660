/-!
Paths as texts: names with slashes between them. One dot is the directory one is in, two dots are
the directory above it, and an empty name says nothing.
-/
namespace CorrelatedInput

/-- Where a file is: the names that lead to it from the directory where the program runs or, after
a first name `/`, from the root. A directory above the first one is named by two dots. -/
abbrev Place := List String

namespace Place

/-- The directory above. Nothing is above the root. -/
def up (place : Place) : Place :=
  match place.getLast? with
  | none => [".."]
  | some last =>
    if last = ".." then place ++ [last]
    else if last = "/" then place
    else place.dropLast

/-- A place that needs no store to be there: the first directory, the root, or one above. -/
def isGiven (place : Place) : Bool := place = ["/"] || place.all fun name => name = ".."

end Place

inductive Step where
  | here
  | up
  | down (name : String)
deriving DecidableEq, Repr

/-- A name with a zero character in it cannot be handed to a file system. -/
def Step.isBroken : Step → Bool
  | .down name => name.toList.contains '\x00'
  | _ => false

def Place.after (place : Place) : Step → Place
  | .here => place
  | .up => place.up
  | .down name => place ++ [name]

structure Path where
  start : Place
  steps : List Step
  /-- It ends in a slash, and so can only name a directory. -/
  slashed : Bool
  /-- How many bytes its text has. -/
  size : Nat
deriving DecidableEq, Repr

namespace Path

def parts : List Char → List (List Char)
  | [] => [[]]
  | c :: rest =>
    if c = '/' then [] :: parts rest
    else match parts rest with
      | [] => [[c]]
      | part :: others => (c :: part) :: others

def step? (name : List Char) : Option Step :=
  if name = [] then none
  else if name = ['.'] then some .here
  else if name = ['.', '.'] then some .up
  else some (.down (String.ofList name))

/-- The steps of parts that begin `offset` bytes into the text, each with the offset of its end. -/
def stepsFrom (offset : Nat) : List (List Char) → List (Step × Nat)
  | [] => []
  | name :: rest =>
    let stop := offset + (name.map Char.utf8Size).sum
    ((step? name).map fun s => (s, stop)).toList ++ stepsFrom (stop + 1) rest

def endsInSlash (path : String) : Bool := path.toList.getLast? = some '/'

def startOf (path : String) : Place := if path.toList.head? = some '/' then ["/"] else []

def ofText (path : String) : Path :=
  { start := startOf path
    steps := (stepsFrom 0 (parts path.toList)).map Prod.fst
    slashed := endsInSlash path
    size := path.utf8ByteSize }

/-- The directory that a path lies in: the path without the last step that leads somewhere, and
without the dots and slashes before that. -/
def parentOf (path : String) : Path :=
  let moves := (stepsFrom 0 (parts path.toList)).filter fun s => s.1 ≠ .here
  let kept := moves.dropLast
  { start := startOf path
    steps := kept.map Prod.fst
    slashed := false
    size := (kept.getLast?.map Prod.snd).getD 0 }

/-- The path without a name names nothing. -/
def isEmpty (p : Path) : Bool := p.start.isEmpty && p.steps.isEmpty

/-- A path inside a directory: one slash is added, unless there is one already or the directory has
no name. -/
def join (directory name : String) : String :=
  if directory = "" ∨ endsInSlash directory then directory ++ name
  else directory ++ "/" ++ name

end Path

end CorrelatedInput
