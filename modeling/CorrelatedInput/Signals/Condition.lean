import CorrelatedInput.Failure
import CorrelatedInput.Signals.Notification
/-!
When a stream of notifications has brought what somebody waits for: any of several kinds, or all
of them at least once in any order. A set with nothing in it is no condition.
-/
namespace CorrelatedInput

inductive WaitMode where
  | any
  | all
deriving DecidableEq, Repr

/-- What is waited for, and for the mode `all` what is still missing. -/
inductive Condition where
  | any (kinds : KindSet)
  | all (kinds remaining : KindSet)
deriving DecidableEq, Repr

namespace Condition

def make (mode : WaitMode) (kinds : KindSet) : Except Failure Condition :=
  if kinds.isEmpty then .error (.invalidArgument .noKinds)
  else match mode with
    | .any => .ok (.any kinds)
    | .all => .ok (.all kinds kinds)

def mode : Condition → WaitMode
  | .any _ => .any
  | .all _ _ => .all

def kinds : Condition → KindSet
  | .any kinds => kinds
  | .all kinds _ => kinds

/-- What has to come before the condition holds. -/
def remaining : Condition → KindSet
  | .any kinds => kinds
  | .all _ remaining => remaining

/-- Takes note of one kind, and says whether the condition holds now. A kind that nobody waits for
changes nothing. -/
def observe (c : Condition) (k : Kind) : Condition × Bool :=
  match c with
  | .any kinds => (c, kinds.contains k)
  | .all kinds remaining =>
    if kinds.contains k then
      let left := remaining.erase k
      (.all kinds left, left.isEmpty)
    else (c, false)

/-- Takes note of notifications in order up to the first one at which the condition holds. -/
def feed (c : Condition) : List Notification → Condition × Option Notification
  | [] => (c, none)
  | n :: rest =>
    match c.observe n.kind with
    | (c, true) => (c, some n)
    | (c, false) => c.feed rest

end Condition

end CorrelatedInput
