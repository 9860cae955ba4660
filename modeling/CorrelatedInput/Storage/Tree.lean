import CorrelatedInput.Storage.Path
/-!
Files in directories, as a tree.
-/
namespace CorrelatedInput

inductive Tree where
  | file (bytes : ByteArray)
  | directory (entries : List (String × Tree))

namespace Tree

/-- What is in a directory. A file has nothing in it. -/
def entries : Tree → List (String × Tree)
  | .file _ => []
  | .directory entries => entries

def get? : Place → Tree → Option Tree
  | [], t => some t
  | name :: rest, t => (t.entries.lookup name).bind (get? rest)

/-- Puts something at a place, with the directories on the way to it. -/
def put (new : Tree) : Place → Tree → Tree
  | [], _ => new
  | name :: rest, t =>
    let inner := (t.entries.lookup name).getD (.directory [])
    .directory ((name, put new rest inner) :: t.entries.filter fun e => e.1 ≠ name)

end Tree

end CorrelatedInput
