import CorrelatedInput.Signals.Notification
/-!
A hub hands every published notification to every subscriber. A subscriber that does not keep up
loses its oldest unread notifications and is told, once, how many.
-/
namespace CorrelatedInput

structure Subscriber where
  id : Nat
  /-- How many notifications had been published when it began, or when it read last. -/
  next : Nat
deriving DecidableEq, Repr

inductive Reception where
  | received (n : Notification)
  | lagged (lost : Nat)
  | pending
  | closed
deriving DecidableEq, Repr

structure Hub where
  /-- How many unread notifications each subscriber keeps. -/
  limit : Nat
  /-- All that was ever published, oldest first. -/
  published : Array Notification
  subscribers : List Subscriber
  nextId : Nat
  isOpen : Bool
deriving DecidableEq, Repr

namespace Hub

/-- A hub whose subscribers keep `capacity` notifications, rounded up to a power of two. -/
def ofCapacity (capacity : Nat) : Hub := ⟨(max capacity 1).nextPowerOfTwo, #[], [], 0, true⟩

def defaultCapacity : Nat := 256

def count (h : Hub) : Nat := h.subscribers.length

/-- The hub after a notification, and how many subscribers it reached. Nobody hears of what is
published when the hub is closed. -/
def publish (n : Notification) (h : Hub) : Nat × Hub :=
  if h.isOpen then (h.count, { h with published := h.published.push n }) else (0, h)

def publishAll (ns : List Notification) (h : Hub) : Hub :=
  ns.foldl (fun h n => (h.publish n).2) h

/-- Adds a subscriber, which sees only what is published from now on. -/
def subscribe (h : Hub) : Nat × Hub :=
  (h.nextId, { h with
    subscribers := h.subscribers ++ [⟨h.nextId, h.published.size⟩]
    nextId := h.nextId + 1 })

def unsubscribe (id : Nat) (h : Hub) : Hub :=
  { h with subscribers := h.subscribers.filter fun s => s.id ≠ id }

def find? (id : Nat) (h : Hub) : Option Subscriber := h.subscribers.find? fun s => s.id = id

def modify (id : Nat) (f : Subscriber → Subscriber) (h : Hub) : Hub :=
  { h with subscribers := h.subscribers.map fun s => if s.id = id then f s else s }

/-- Nothing more will be published; what is unread stays to be read. -/
def close (h : Hub) : Hub := { h with isOpen := false }

/-- The oldest notification that a subscriber can still read, by its ordinal. -/
def oldest (h : Hub) : Nat := h.published.size - h.limit

def advance (id next : Nat) (h : Hub) : Hub := h.modify id fun s => { s with next }

/-- Reads one notification. Losses are told before what is left. -/
def receive (id : Nat) (h : Hub) : Reception × Hub :=
  match h.find? id with
  | none => (.closed, h)
  | some s =>
    if s.next < h.oldest then (.lagged (h.oldest - s.next), h.advance id h.oldest)
    else match h.published[s.next]? with
      | some n => (.received n, h.advance id (s.next + 1))
      | none => (if h.isOpen then .pending else .closed, h)

def unread (s : Subscriber) (h : Hub) : List Notification :=
  (h.published.extract (max s.next h.oldest) h.published.size).toList

/-- Takes all that a subscriber can read, losses set aside. -/
def drain (id : Nat) (h : Hub) : List Notification × Hub :=
  ((h.find? id).elim [] fun s => h.unread s, h.advance id h.published.size)

end Hub

end CorrelatedInput
