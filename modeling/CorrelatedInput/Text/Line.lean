/-!
A text as lines. A line ends at a line feed, and a carriage return right before the line feed
belongs to the ending; the last line may lack its ending and then keeps a carriage return.
-/
namespace CorrelatedInput.Text

/-- A line read backwards, without the carriage return of its ending. -/
def unended : List Char → List Char
  | '\r' :: held => held.reverse
  | held => held.reverse

/-- The lines of a text whose first line begins with `held`, given backwards. -/
def linesFrom : List Char → List Char → List (List Char)
  | [], [] => []
  | held, [] => [held.reverse]
  | held, c :: rest =>
    if c = '\n' then unended held :: linesFrom [] rest else linesFrom (c :: held) rest

def lines (text : List Char) : List (List Char) := linesFrom [] text

/-- What follows `start` in a text that begins with it. -/
def after? : List Char → List Char → Option (List Char)
  | [], text => some text
  | _ :: _, [] => none
  | a :: start, b :: text => if a = b then after? start text else none

end CorrelatedInput.Text
