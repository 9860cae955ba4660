import CorrelatedInput.Failure
import CorrelatedInput.Storage.Tree
/-!
A store of files. A path is followed name by name, and every directory on the way must be there,
even if two dots lead out of it again.

What fails may leave something behind: directories that were made before it failed.
-/
namespace CorrelatedInput

structure Store where
  root : Tree

inductive Found where
  | nothing
  | directory
  | file (bytes : ByteArray)

def Found.isSame : Found → Found → Bool
  | .nothing, .nothing => true
  | .directory, .directory => true
  | .file a, .file b => a.data == b.data
  | _, _ => false

abbrev Access (α : Type) := ExceptT StorageFault (StateM Store) α

/-- Does it in a store: what came of it, and the store after it. -/
def Access.perform {α : Type} (s : Store) (a : Access α) : Except StorageFault α × Store :=
  a.run.run s

/-- Finds something out, which changes nothing. -/
def Access.inspect {α : Type} (look : Store → Except StorageFault α) : Access α :=
  ExceptT.mk fun s => (look s, s)

def longestName : Nat := 255

def longestPath : Nat := 4095

/-- Why nobody looks where a path leads. -/
def Path.fault? (p : Path) : Option StorageFault :=
  if p.steps.any Step.isBroken then some .brokenName
  else if longestPath < p.size then some .nameTooLong
  else none

namespace Store

def empty : Store := ⟨.directory []⟩

def found (place : Place) (s : Store) : Found :=
  if place.isGiven then .directory
  else match s.root.get? place with
    | none => .nothing
    | some (.directory _) => .directory
    | some (.file bytes) => .file bytes

def putFile (place : Place) (bytes : ByteArray) (s : Store) : Store :=
  ⟨Tree.put (.file bytes) place s.root⟩

def putDirectory (place : Place) (s : Store) : Store := ⟨Tree.put (.directory []) place s.root⟩

def enter (s : Store) (place : Place) (name : String) : Except StorageFault (Place × Found) :=
  if longestName < name.utf8ByteSize then .error .nameTooLong
  else .ok (place ++ [name], s.found (place ++ [name]))

/-- Follows steps from a directory through others: where they end. -/
def walk (s : Store) (place : Place) : List Step → Except StorageFault Place
  | [] => .ok place
  | .here :: rest => s.walk place rest
  | .up :: rest => s.walk place.up rest
  | .down name :: rest => do
    match ← s.enter place name with
    | (_, .nothing) => .error .notFound
    | (_, .file _) => .error .notDirectory
    | (inner, .directory) => s.walk inner rest

/-- Where a path leads, and what is there. A file that is to be `written` is not even looked for
behind a slash. -/
def find (p : Path) (written : Bool) (s : Store) : Except StorageFault (Place × Found) :=
  match p.fault? with
  | some fault => .error fault
  | none =>
    if p.isEmpty then .error .notFound
    else match p.steps.getLast? with
      | some (.down name) => do
        let place ← s.walk p.start p.steps.dropLast
        if written && p.slashed then .error .isDirectory else s.enter place name
      | _ => do return (← s.walk p.start p.steps, .directory)

def look (path : String) (s : Store) : Except StorageFault Found := do
  let p := Path.ofText path
  match ← s.find p false with
  | (_, .nothing) => .error .notFound
  | (_, .directory) => .ok .directory
  | (_, .file bytes) => if p.slashed then .error .notDirectory else .ok (.file bytes)

def contains (path : String) (s : Store) : Bool := (s.look path).isOk

def readText (path : String) (s : Store) : Except StorageFault String := do
  match ← s.look path with
  | .nothing => .error .notFound
  | .directory => .error .isDirectory
  | .file bytes =>
    match String.fromUTF8? bytes with
    | some text => .ok text
    | none => .error .notText

/-- Where a file is that is to be written, and whether it is there already. -/
def fileAt (path : String) (s : Store) : Except StorageFault (Place × Bool) := do
  match ← s.find (Path.ofText path) true with
  | (place, .nothing) => .ok (place, false)
  | (_, .directory) => .error .isDirectory
  | (place, .file _) => .ok (place, true)

/-- Bytes with a piece written over them from an offset on. A gap before it is filled with zeros. -/
def overwritten (bytes : ByteArray) (offset : Nat) (piece : ByteArray) : ByteArray :=
  bytes.extract 0 offset ++ (List.replicate (offset - bytes.size) 0).toByteArray ++ piece
    ++ bytes.extract (offset + piece.size) bytes.size

/-- Writes a piece into the file at a place. No piece at all leaves everything as it is. -/
def writeAt (place : Place) (offset : Nat) (piece : ByteArray) (s : Store) : Store :=
  match s.found place with
  | .file bytes =>
    if piece.isEmpty then s else s.putFile place (overwritten bytes offset piece)
  | _ => s

end Store

namespace Access

/-- Follows steps from a directory and makes the directories that are not there. `made` is whether
one of them was made before. -/
def makeOnward (made : Bool) (place : Place) : List Step → Access Unit
  | [] => return ()
  | .here :: rest => makeOnward made place rest
  | .up :: rest => makeOnward made place.up rest
  | .down name :: rest => do
    match ← inspect fun s => s.enter place name with
    | (inner, .directory) => makeOnward made inner rest
    | (_, .file _) => throw (if made ∨ rest = [] then .alreadyExists else .notDirectory)
    | (inner, .nothing) =>
      modify (Store.putDirectory inner)
      makeOnward true inner rest

/-- Makes a directory and the ones it lies in, as far as they are not there. -/
def makeDirectories (p : Path) : Access Unit :=
  match p.fault? with
  | some fault => throw fault
  | none => makeOnward false p.start p.steps

def createDirectories (path : String) : Access Unit := makeDirectories (Path.ofText path)

def createParents (path : String) : Access Unit := makeDirectories (Path.parentOf path)

/-- Makes a file of the given bytes, or replaces those of one: the place of it. -/
def writeBytes (path : String) (bytes : ByteArray) : Access Place := do
  let (place, _) ← inspect (Store.fileAt path)
  modify (Store.putFile place bytes)
  return place

def writeText (path text : String) : Access Unit := do
  let _ ← writeBytes path text.toUTF8

/-- Makes an empty file, unless there is a file already. -/
def touch (path : String) : Access Unit := do
  let (place, present) ← inspect (Store.fileAt path)
  if !present then modify (Store.putFile place .empty)

end Access

end CorrelatedInput
