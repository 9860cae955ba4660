import CorrelatedInput.Json.Shape
import CorrelatedInput.Proofs.Json.Number
/-!
Values that have the form that is asked for: words in their range, and names among their choices.
-/
namespace CorrelatedInput.Json

theorem isWord_natCast {n : Nat} (h : n < UInt64.size) : IsWord n := by
  simp only [IsWord]
  omega

theorem isWord_uint32 (n : UInt32) : IsWord n.toNat :=
  isWord_natCast (Nat.lt_trans n.toNat_lt_size (by decide))

theorem isWord_uint64 (n : UInt64) : IsWord n.toNat := isWord_natCast n.toNat_lt_size

theorem isWord_int32 (n : Int32) : IsWord n.toInt := by
  have low := n.le_toInt
  have high := n.toInt_lt
  simp only [IsWord, UInt64.size]
  omega

@[simp] theorem conform?_word32 (n : UInt32) :
    word32.conform? (.integer n.toNat) = some (.integer n.toNat) := by
  have high := n.toNat_lt
  simp only [word32, Shape.conform?]
  exact if_pos (by omega)

@[simp] theorem conform?_word64 (n : UInt64) :
    word64.conform? (.integer n.toNat) = some (.integer n.toNat) := by
  have high := n.toNat_lt
  simp only [word64, Shape.conform?]
  exact if_pos (by omega)

@[simp] theorem conform?_signed32 (n : Int32) :
    signed32.conform? (.integer n.toInt) = some (.integer n.toInt) := by
  have low := n.le_toInt
  have high := n.toInt_lt
  simp only [signed32, Shape.conform?]
  exact if_pos (by omega)

theorem conform?_name {choices : List String} {s : String} (h : s ∈ choices) :
    (Shape.name choices).conform? (.text s) = some (.text s) := by
  simp [Shape.conform?, h]

theorem mapM_map_eq {α β γ : Type} {f : β → Option γ} {g : α → β} {h : α → γ} (l : List α)
    (each : ∀ a ∈ l, f (g a) = some (h a)) : (l.map g).mapM f = some (l.map h) := by
  induction l with
  | nil => rfl
  | cons a l ih =>
    have more := ih fun b hb => each b (List.mem_cons_of_mem a hb)
    simp [each a List.mem_cons_self, more]

end CorrelatedInput.Json
