import CorrelatedInput.Signals.Kind
import Mathlib.Data.List.Induction
/-!
Sets of kinds by their bits. Each kind has a bit of its own. Bits that name no kind are moved about
like all others, and no kind ever touches them.
-/
namespace CorrelatedInput

namespace Kind

/-- Which bit of a set stands for the kind. -/
def place (k : Kind) : Nat := k.flag.toNat.log2

theorem flag_eq (k : Kind) : k.flag.toBitVec = BitVec.twoPow 32 k.place := by cases k <;> decide

theorem place_lt (k : Kind) : k.place < 32 := by cases k <;> decide

@[simp] theorem place_inj {k j : Kind} : k.place = j.place ↔ k = j := by
  cases k <;> cases j <;> decide

theorem mem_all (k : Kind) : k ∈ all := by cases k <;> decide

end Kind

namespace KindSet

/-- Whether a bit is set, whatever it stands for. -/
def bit (s : KindSet) (i : Nat) : Bool := s.bits.toBitVec.getLsbD i

variable {s t u : KindSet} {k : Kind} {i : Nat}

theorem ext_bit (h : ∀ i, s.bit i = t.bit i) : s = t := by
  obtain ⟨⟨x⟩⟩ := s
  obtain ⟨⟨y⟩⟩ := t
  have same : x = y := BitVec.eq_of_getLsbD_eq fun i _ => h i
  rw [same]

@[simp] theorem bit_empty : empty.bit i = false := by simp [empty, bit]

@[simp] theorem bit_singleton : (singleton k).bit i = decide (k.place = i) := by
  have inside := k.place_lt
  simp [singleton, bit, Kind.flag_eq, inside]

@[simp] theorem bit_union : (s.union t).bit i = (s.bit i || t.bit i) := by simp [union, bit]

@[simp] theorem bit_inter : (s.inter t).bit i = (s.bit i && t.bit i) := by simp [inter, bit]

@[simp] theorem bit_symmDiff : (s.symmDiff t).bit i = (s.bit i ^^ t.bit i) := by
  simp [symmDiff, bit]

@[simp] theorem bit_diff : (s.diff t).bit i = (s.bit i && !t.bit i) := by
  have inside : s.bits.toBitVec.getLsbD i = true → i < 32 := BitVec.lt_of_getLsbD
  cases here : s.bits.toBitVec.getLsbD i <;> simp_all [diff, bit]

@[simp] theorem bit_insert : (s.insert k).bit i = (s.bit i || decide (k.place = i)) := by
  simp [insert]

@[simp] theorem bit_erase : (s.erase k).bit i = (s.bit i && !decide (k.place = i)) := by
  simp [erase]

theorem ofList_concat (ks : List Kind) (k : Kind) : ofList (ks ++ [k]) = (ofList ks).insert k := by
  simp [ofList]

@[simp] theorem bit_ofList (ks : List Kind) :
    (ofList ks).bit i = ks.any fun k => decide (k.place = i) := by
  induction ks using List.reverseRecOn with
  | nil => exact bit_empty
  | append_singleton ks k ih => simp [ofList_concat, ih]

theorem isEmpty_iff : s.isEmpty = true ↔ ∀ i, s.bit i = false := by
  constructor
  · intro none i
    have zero : s = empty := congrArg KindSet.mk (by simpa [isEmpty] using none)
    rw [zero, bit_empty]
  · intro none
    have zero : s = empty := ext_bit fun i => by rw [none i, bit_empty]
    rw [zero]
    rfl

theorem isEmpty_eq_false_iff : s.isEmpty = false ↔ ∃ i, s.bit i = true := by
  rw [← Bool.not_eq_true, isEmpty_iff]
  simp

theorem includes_iff : s.includes t = true ↔ ∀ i, t.bit i = true → s.bit i = true := by
  have bits : s.includes t = true ↔ ∀ i, (s.bit i && t.bit i) = t.bit i := by
    constructor
    · intro h i
      have same : s.bits &&& t.bits = t.bits := by simpa [includes] using h
      simpa [bit] using congrArg (fun b : UInt32 => b.toBitVec.getLsbD i) same
    · intro h
      have same : KindSet.mk (s.bits &&& t.bits) = t := ext_bit fun i => by simpa [bit] using h i
      simpa [includes] using congrArg KindSet.bits same
  rw [bits]
  apply forall_congr'
  intro i
  cases t.bit i <;> simp

theorem contains_eq_bit : s.contains k = s.bit k.place := by
  rw [Bool.eq_iff_iff, contains, includes_iff]
  simp

@[simp] theorem contains_singleton {j : Kind} : (singleton j).contains k = decide (j = k) := by
  simp [contains_eq_bit]

theorem contains_of_includes (h : s.includes t) (found : t.contains k) : s.contains k := by
  rw [contains_eq_bit] at found ⊢
  exact includes_iff.mp h _ found

theorem diff_insert : s.diff (t.insert k) = (s.diff t).erase k := by
  apply ext_bit
  intro i
  simp [Bool.and_assoc]

theorem erase_of_not_contains (absent : s.contains k = false) : s.erase k = s := by
  apply ext_bit
  intro i
  rw [contains_eq_bit] at absent
  by_cases here : k.place = i
  · simp [← here, absent]
  · simp [here]

theorem ofList_congr {ks js : List Kind} (h : ∀ k, k ∈ ks ↔ k ∈ js) : ofList ks = ofList js := by
  apply ext_bit
  intro i
  rw [Bool.eq_iff_iff]
  simp [h]

end KindSet

end CorrelatedInput
