/-!
Kinds of user-interface notifications, and sets of them.

A set is a 32-bit word with one flag for each kind. Bits that name no kind may stand in it: they
count for its size and its emptiness, and no notification ever answers to them.
-/
namespace CorrelatedInput

inductive Kind where
  | viewClicked
  | viewLongClicked
  | viewSelected
  | viewFocused
  | viewTextChanged
  | windowStateChanged
  | notificationStateChanged
  | viewHoverEnter
  | viewHoverExit
  | windowContentChanged
  | viewScrolled
  | viewTextSelectionChanged
  | announcement
deriving DecidableEq, Repr

namespace Kind

def all : List Kind :=
  [.viewClicked, .viewLongClicked, .viewSelected, .viewFocused, .viewTextChanged,
    .windowStateChanged, .notificationStateChanged, .viewHoverEnter, .viewHoverExit,
    .windowContentChanged, .viewScrolled, .viewTextSelectionChanged, .announcement]

/-- The name in a written notification. -/
def name : Kind → String
  | .viewClicked => "view_clicked"
  | .viewLongClicked => "view_long_clicked"
  | .viewSelected => "view_selected"
  | .viewFocused => "view_focused"
  | .viewTextChanged => "view_text_changed"
  | .windowStateChanged => "window_state_changed"
  | .notificationStateChanged => "notification_state_changed"
  | .viewHoverEnter => "view_hover_enter"
  | .viewHoverExit => "view_hover_exit"
  | .windowContentChanged => "window_content_changed"
  | .viewScrolled => "view_scrolled"
  | .viewTextSelectionChanged => "view_text_selection_changed"
  | .announcement => "announcement"

/-- The name in a displayed set. -/
def title : Kind → String
  | .viewClicked => "ViewClicked"
  | .viewLongClicked => "ViewLongClicked"
  | .viewSelected => "ViewSelected"
  | .viewFocused => "ViewFocused"
  | .viewTextChanged => "ViewTextChanged"
  | .windowStateChanged => "WindowStateChanged"
  | .notificationStateChanged => "NotificationStateChanged"
  | .viewHoverEnter => "ViewHoverEnter"
  | .viewHoverExit => "ViewHoverExit"
  | .windowContentChanged => "WindowContentChanged"
  | .viewScrolled => "ViewScrolled"
  | .viewTextSelectionChanged => "ViewTextSelectionChanged"
  | .announcement => "Announcement"

def flag : Kind → UInt32
  | .viewClicked => 0x1
  | .viewLongClicked => 0x2
  | .viewSelected => 0x4
  | .viewFocused => 0x8
  | .viewTextChanged => 0x10
  | .windowStateChanged => 0x20
  | .notificationStateChanged => 0x40
  | .viewHoverEnter => 0x80
  | .viewHoverExit => 0x100
  | .windowContentChanged => 0x800
  | .viewScrolled => 0x1000
  | .viewTextSelectionChanged => 0x2000
  | .announcement => 0x4000

end Kind

structure KindSet where
  bits : UInt32
deriving DecidableEq, Repr

namespace KindSet

def empty : KindSet := ⟨0⟩

def singleton (k : Kind) : KindSet := ⟨k.flag⟩

instance : Coe Kind KindSet := ⟨singleton⟩

def union (s t : KindSet) : KindSet := ⟨s.bits ||| t.bits⟩

def inter (s t : KindSet) : KindSet := ⟨s.bits &&& t.bits⟩

def diff (s t : KindSet) : KindSet := ⟨s.bits &&& ~~~t.bits⟩

def symmDiff (s t : KindSet) : KindSet := ⟨s.bits ^^^ t.bits⟩

def insert (k : Kind) (s : KindSet) : KindSet := s.union (singleton k)

def erase (k : Kind) (s : KindSet) : KindSet := s.diff (singleton k)

def ofList (ks : List Kind) : KindSet := ks.foldl (fun s k => s.insert k) empty

def every : KindSet := ofList Kind.all

/-- The set with these bits, if every one of them names a kind. -/
def ofBits? (bits : UInt32) : Option KindSet :=
  if bits &&& ~~~every.bits = 0 then some ⟨bits⟩ else none

/-- The set of those bits that name a kind. -/
def ofKnownBits (bits : UInt32) : KindSet := ⟨bits &&& every.bits⟩

def complement (s : KindSet) : KindSet := ofKnownBits (~~~s.bits)

def isEmpty (s : KindSet) : Bool := s.bits = 0

def includes (s t : KindSet) : Bool := s.bits &&& t.bits = t.bits

def meets (s t : KindSet) : Bool := s.bits &&& t.bits ≠ 0

def contains (s : KindSet) (k : Kind) : Bool := s.includes (singleton k)

def isEvery (s : KindSet) : Bool := s.includes every

/-- The kinds in the set, in the order of their declaration. -/
def toList (s : KindSet) : List Kind := Kind.all.filter s.contains

/-- How many bits are set. -/
def size (s : KindSet) : Nat := (List.range 32).countP fun i => s.bits.toNat.testBit i

/-- The kinds by title, between braces. -/
def display (s : KindSet) : String :=
  "\x7b" ++ ", ".intercalate (s.toList.map Kind.title) ++ "\x7d"

end KindSet

end CorrelatedInput
