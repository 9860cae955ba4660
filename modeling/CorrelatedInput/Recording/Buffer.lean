/-!
A text on its way into a file. What is written waits until there is more of it than the buffer
holds, or until it is asked for; a piece as large as the buffer does not wait.
-/
namespace CorrelatedInput

structure Buffer where
  /-- What the file holds. -/
  saved : String
  /-- What waits. -/
  pending : String
deriving DecidableEq, Repr

namespace Buffer

/-- How many bytes may wait. -/
def capacity : Nat := 8192

def empty : Buffer := ⟨"", ""⟩

def text (b : Buffer) : String := b.saved ++ b.pending

def flush (b : Buffer) : Buffer := ⟨b.text, ""⟩

def write (piece : String) (b : Buffer) : Buffer :=
  let total := b.pending.utf8ByteSize + piece.utf8ByteSize
  if total < capacity then { b with pending := b.pending ++ piece }
  else
    let b := if capacity < total then b.flush else b
    if capacity ≤ piece.utf8ByteSize then { b with saved := b.saved ++ piece }
    else { b with pending := b.pending ++ piece }

/-- The bytes that have left the buffer since it was `before`. -/
def sentSince (before b : Buffer) : ByteArray :=
  b.saved.toUTF8.extract before.saved.utf8ByteSize b.saved.utf8ByteSize

end Buffer

end CorrelatedInput
