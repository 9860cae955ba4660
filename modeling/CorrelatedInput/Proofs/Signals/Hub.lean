import CorrelatedInput.Signals.Hub
/-!
What a subscriber of a hub gets to read: everything published since it read last while the hub was
open, and of more than the hub keeps for it only the newest. When it has read that, it is told
whether there will be more. Other subscribers make no difference to it.
-/
namespace CorrelatedInput

/-- The newest notifications, as many as there is room for. -/
def newest (room : Nat) (ns : List Notification) : List Notification := ns.drop (ns.length - room)

@[simp] theorem newest_nil (room : Nat) : newest room [] = [] := by simp [newest]

namespace Hub

/-- What is heard of notifications that are published. -/
def heard (h : Hub) (ns : List Notification) : List Notification := if h.isOpen then ns else []

theorem heard_eq {h : Hub} (isOpen : h.isOpen = true) (ns : List Notification) :
    h.heard ns = ns := by
  simp [heard, isOpen]

theorem publish_eq (h : Hub) (n : Notification) :
    (h.publish n).2 = { h with published := h.published ++ (h.heard [n]).toArray } := by
  unfold publish heard
  split <;> simp

theorem publishAll_eq (h : Hub) (ns : List Notification) :
    h.publishAll ns = { h with published := h.published ++ (h.heard ns).toArray } := by
  induction ns generalizing h with
  | nil => simp [publishAll, heard]
  | cons n ns ih =>
    have step : h.publishAll (n :: ns) = (h.publish n).2.publishAll ns := rfl
    rw [step, ih, publish_eq]
    unfold heard
    cases h.isOpen <;> simp

@[simp] theorem publishAll_limit (h : Hub) (ns : List Notification) :
    (h.publishAll ns).limit = h.limit := by rw [publishAll_eq]

@[simp] theorem publishAll_subscribers (h : Hub) (ns : List Notification) :
    (h.publishAll ns).subscribers = h.subscribers := by rw [publishAll_eq]

@[simp] theorem publishAll_isOpen (h : Hub) (ns : List Notification) :
    (h.publishAll ns).isOpen = h.isOpen := by rw [publishAll_eq]

@[simp] theorem publishAll_published (h : Hub) (ns : List Notification) :
    (h.publishAll ns).published.toList = h.published.toList ++ h.heard ns := by
  rw [publishAll_eq]
  simp

theorem unread_eq (h : Hub) (s : Subscriber) :
    h.unread s = newest h.limit (h.published.toList.drop s.next) := by
  have start : max s.next h.oldest = s.next + (h.published.size - s.next - h.limit) := by
    simp only [oldest]
    omega
  simp only [unread, newest, Array.toList_extract, List.extract_eq_take_drop, start,
    List.drop_drop, List.length_drop, Array.length_toList]
  rw [List.take_of_length_le]
  simp

section Last

variable {h : Hub} {others : List Subscriber} {id next : Nat}

theorem find?_last (last : h.subscribers = others ++ [⟨id, next⟩])
    (apart : ∀ s ∈ others, s.id ≠ id) : h.find? id = some ⟨id, next⟩ := by
  have missing : others.find? (fun s => s.id = id) = none := by simpa using apart
  simp [find?, last, List.find?_append, missing]

theorem drain_last (last : h.subscribers = others ++ [⟨id, next⟩])
    (apart : ∀ s ∈ others, s.id ≠ id) :
    h.drain id = (newest h.limit (h.published.toList.drop next),
      { h with subscribers := others ++ [⟨id, h.published.size⟩] }) := by
  have kept : others.map (fun s => if s.id = id then { s with next := h.published.size } else s) =
      others := by
    rw [← List.map_id others, List.map_map]
    apply List.map_congr_left
    intro s hs
    simp [apart s hs]
  simp [drain, find?_last last apart, unread_eq, advance, modify, last, kept]

/-- A subscriber that has read all there is waits for more, or learns that the hub is closed. -/
theorem receive_last (last : h.subscribers = others ++ [⟨id, h.published.size⟩])
    (apart : ∀ s ∈ others, s.id ≠ id) :
    h.receive id = (if h.isOpen then .pending else .closed, h) := by
  have kept : ¬ h.published.size < h.oldest := by simp [oldest]
  simp [receive, find?_last last apart, kept]

theorem unsubscribe_last (last : h.subscribers = others ++ [⟨id, next⟩])
    (apart : ∀ s ∈ others, s.id ≠ id) : (h.unsubscribe id).subscribers = others := by
  simpa [unsubscribe, last] using apart

end Last

end Hub

end CorrelatedInput
