import CorrelatedInput.Json.Reader
/-!
What can go wrong, by cause, and the text that tells it.
-/
namespace CorrelatedInput

/-- A request that breaks a rule its caller could have kept. -/
inductive Misuse where
  | noKinds
  | noWaypoints
  | tooFewPointers
  | emptyPath (pointer : Nat)
  | described (text : String)
deriving DecidableEq, Repr

def Misuse.message : Misuse → String
  | .noKinds => "events mask cannot be zero"
  | .noWaypoints => "swipe path needs at least one point"
  | .tooFewPointers => "Must provide coordinates for at least 2 pointers"
  | .emptyPath pointer => "Pointer " ++ pointer.repr ++ " has an empty path"
  | .described text => text

inductive StorageFault where
  | isDirectory
  | notDirectory
  | alreadyExists
  | notFound
  | nameTooLong
  /-- A name has a zero character in it. -/
  | brokenName
  /-- The bytes of the file are no UTF-8. -/
  | notText
deriving DecidableEq, Repr

def StorageFault.message : StorageFault → String
  | .isDirectory => "Is a directory (os error 21)"
  | .notDirectory => "Not a directory (os error 20)"
  | .alreadyExists => "File exists (os error 17)"
  | .notFound => "No such file or directory (os error 2)"
  | .nameTooLong => "File name too long (os error 36)"
  | .brokenName => "file name contained an unexpected NUL byte"
  | .notText => "stream did not contain valid UTF-8"

inductive Failure where
  | invalidArgument (misuse : Misuse)
  | injection (text : String)
  | configuration (text : String)
  | fileNotFound (path : String)
  | storage (fault : StorageFault)
  | json (fault : Json.Fault)
  | other (text : String)
deriving DecidableEq, Repr

namespace Failure

def recordingFinished (path : String) : Failure :=
  .injection ("Recording " ++ path ++ " is already finished")

def unreadableSettings (path : String) : Failure := .configuration (path ++ ": ")

def message : Failure → String
  | .invalidArgument misuse => "Invalid argument: " ++ misuse.message
  | .injection text => "Injection error: " ++ text
  | .configuration text => "Configuration error: " ++ text
  | .fileNotFound path => "File not found: " ++ path
  | .storage fault => fault.message
  | .json .truncated => "the JSON text ends too early"
  | .json .malformed => "the text is not JSON"
  | .json .unfit => "the JSON text does not fit"
  | .other text => text

def isInvalidArgument : Failure → Bool
  | .invalidArgument _ => true
  | _ => false

end Failure

end CorrelatedInput
