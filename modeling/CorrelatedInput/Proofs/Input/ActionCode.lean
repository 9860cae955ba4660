import CorrelatedInput.Input.ActionCode
import CorrelatedInput.Proofs.Motion.Interpolation
/-!
Codes of touch actions as numbers. A code is the kind and, on top of it, 256 times the pointer index
as far as a code keeps it, which is the number that its low 24 bits stand for with a sign. So what a
code keeps is read off it by division, and no code changes when it is unpacked and packed again.
-/
namespace CorrelatedInput

/-! Octets of a word -/

theorem and_octet_toInt (word : Int32) : (word &&& 0xff).toInt = word.toInt % 256 := by
  have low : (word &&& 0xff).toBitVec.toNat = word.toBitVec.toNat % 256 :=
    Nat.and_two_pow_sub_one_eq_mod word.toBitVec.toNat 8
  simp only [Int32.toInt, BitVec.toInt_eq_toNat_cond, low]
  omega

theorem shiftRight_octet_toInt (word : Int32) : (word >>> 8).toInt = word.toInt / 256 := by
  change (word.toBitVec.sshiftRight 8).toInt = _
  rw [BitVec.toInt_sshiftRight, Int.shiftRight_eq_div_pow]
  rfl

theorem toInt_toInt32_inj {a b : UInt32} : a.toInt32.toInt = b.toInt32.toInt ↔ a = b := by
  rw [Int32.toInt_inj]
  constructor
  · intro same
    exact congrArg Int32.toUInt32 same
  · rintro rfl
    rfl

namespace MotionAction

/-- An index as a code keeps it: its low 24 bits, with the highest of them repeated above. -/
def signExtended (index : UInt32) : UInt32 := ⟨(index.toBitVec.setWidth 24).signExtend 32⟩

/-- The number that the low 24 bits of an index stand for, the highest of them being its sign. -/
def signed (index : UInt32) : Int := Int.bmod index.toNat (2 ^ 24)

section Index

variable (index other : UInt32)

theorem signed_eq : signed index = if index.toNat % 2 ^ 24 < 2 ^ 23 then
    (index.toNat % 2 ^ 24 : Int) else index.toNat % 2 ^ 24 - 2 ^ 24 := by
  unfold signed
  rw [Int.bmod_def]
  omega

theorem shiftLeft_octet_toInt : (index.toInt32 <<< 8).toInt = 256 * signed index := by
  change (index.toBitVec <<< 8).toInt = _
  rw [BitVec.toInt_shiftLeft, Nat.shiftLeft_eq, signed_eq, Int.bmod_def, UInt32.toNat_toBitVec]
  omega

theorem signExtended_toInt : (signExtended index).toInt32.toInt = signed index := by
  change ((index.toBitVec.setWidth 24).signExtend 32).toInt = _
  rw [BitVec.toInt_signExtend_of_le (by decide), BitVec.toInt_setWidth]
  rfl

theorem signed_bounds : -(2 ^ 23) ≤ signed index ∧ signed index < 2 ^ 23 := by
  rw [signed_eq]
  omega

/-- An index that is small in either direction is kept whole. -/
theorem signExtended_eq_self_iff :
    signExtended index = index ↔ index.toNat < 2 ^ 23 ∨ 2 ^ 32 - 2 ^ 23 ≤ index.toNat := by
  have word : index.toInt32.toInt = if 2 * index.toNat < 2 ^ 32 then (index.toNat : Int)
      else index.toNat - 2 ^ 32 := BitVec.toInt_eq_toNat_cond index.toBitVec
  have range := index.toNat_lt
  rw [← toInt_toInt32_inj, signExtended_toInt, signed_eq, word]
  omega

theorem signExtended_eq_iff :
    signExtended index = signExtended other ↔ index.toNat % 2 ^ 24 = other.toNat % 2 ^ 24 := by
  rw [← toInt_toInt32_inj, signExtended_toInt, signExtended_toInt, signed_eq, signed_eq]
  omega

end Index

/-! Kinds -/

theorem kind_octet (kind : MotionKind) : 0 ≤ kind.code.toInt ∧ kind.code.toInt < 256 := by
  cases kind <;> decide

theorem ofCode?_eq_some_iff {code : Int32} {kind : MotionKind} :
    MotionKind.ofCode? code = some kind ↔ kind.code = code := by
  constructor
  · intro found
    unfold MotionKind.ofCode? at found
    split_ifs at found <;> cases found <;> simp_all [MotionKind.code]
  · rintro rfl
    cases kind <;> rfl

/-! Packing and unpacking -/

/-- Both parts have their place in a word, so nothing is carried out of it. -/
theorem plus_encoded (a : MotionAction) :
    plus a.kind.code (a.pointerIndex.toInt32 <<< 8) = .ok a.encoded := by
  have kind := kind_octet a.kind
  have index := signed_bounds a.pointerIndex
  have fits : FitsInt32 (a.kind.code.toInt + (a.pointerIndex.toInt32 <<< 8).toInt) := by
    rw [shiftLeft_octet_toInt]
    constructor <;> omega
  rw [plus, narrow_ok _ fits, Int32.ofInt_add, Int32.ofInt_toInt, Int32.ofInt_toInt, encoded]

theorem encoded_toInt (a : MotionAction) :
    a.encoded.toInt = a.kind.code.toInt + 256 * signed a.pointerIndex := by
  have kind := kind_octet a.kind
  have index := signed_bounds a.pointerIndex
  rw [encoded, Int32.toInt_add, shiftLeft_octet_toInt]
  exact Int.bmod_eq_of_le (by omega) (by omega)

theorem encoded_of_decode? {code : Int32} {a : MotionAction} (decoded : decode? code = some a) :
    a.encoded = code := by
  obtain ⟨kind, found, rfl⟩ := Option.map_eq_some_iff.mp decoded
  rw [ofCode?_eq_some_iff] at found
  -- the index is read off the shifted code as a word, whose sign is that of the code
  have word : (code >>> 8).toInt = _ := BitVec.toInt_eq_toNat_cond (code >>> 8).toBitVec
  have index : (code >>> 8).toUInt32.toNat = (code >>> 8).toBitVec.toNat := rfl
  obtain ⟨low, high⟩ := fits_toInt code
  rw [shiftRight_octet_toInt] at word
  rw [← Int32.toInt_inj, encoded_toInt, found, and_octet_toInt, signed_eq, index]
  omega

theorem decode?_encoded (a : MotionAction) :
    decode? a.encoded = some ⟨a.kind, signExtended a.pointerIndex⟩ := by
  have kind := kind_octet a.kind
  have octet : a.kind.code = a.encoded &&& 0xff := by
    rw [← Int32.toInt_inj, and_octet_toInt, encoded_toInt]
    omega
  have above : a.encoded >>> 8 = (signExtended a.pointerIndex).toInt32 := by
    rw [← Int32.toInt_inj, shiftRight_octet_toInt, encoded_toInt, signExtended_toInt]
    omega
  rw [decode?, ofCode?_eq_some_iff.mpr octet, above]
  rfl

theorem encoded_eq_iff (a b : MotionAction) :
    a.encoded = b.encoded ↔
      a.kind = b.kind ∧ signExtended a.pointerIndex = signExtended b.pointerIndex := by
  constructor
  · intro same
    have kept := decode?_encoded a
    rw [same, decode?_encoded] at kept
    simpa [eq_comm] using kept
  · -- what two codes are unpacked to is packed to either of them
    rintro ⟨kind, index⟩
    have kept := decode?_encoded b
    rw [← kind, ← index] at kept
    rw [← encoded_of_decode? kept, encoded_of_decode? (decode?_encoded a)]

/-- What the codes of touch actions keep. A code that stands for an action is the code of that
action. Every action has a code, and the sum that makes it up is exact; the code stands for an
action of the same kind, with the low 24 bits of the index and their sign, which is the action
itself exactly if the index is small in either direction. And two actions share a code exactly if
they are of one kind and their indices agree in their low 24 bits. -/
theorem codes_keep_actions :
    (∀ code a, decode? code = some a → a.encoded = code) ∧
    (∀ a : MotionAction,
      plus a.kind.code (a.pointerIndex.toInt32 <<< 8) = .ok a.encoded ∧
      decode? a.encoded = some ⟨a.kind, signExtended a.pointerIndex⟩ ∧
      (decode? a.encoded = some a ↔
        a.pointerIndex.toNat < 2 ^ 23 ∨ 2 ^ 32 - 2 ^ 23 ≤ a.pointerIndex.toNat)) ∧
    ∀ a b : MotionAction, a.encoded = b.encoded ↔
      a.kind = b.kind ∧ a.pointerIndex.toNat % 2 ^ 24 = b.pointerIndex.toNat % 2 ^ 24 := by
  refine ⟨fun _ _ => encoded_of_decode?, ?_, ?_⟩
  · intro a
    refine ⟨plus_encoded a, decode?_encoded a, ?_⟩
    obtain ⟨kind, index⟩ := a
    rw [decode?_encoded, ← signExtended_eq_self_iff]
    simp
  · intro a b
    rw [encoded_eq_iff, signExtended_eq_iff]

/-- The first index that is not kept, beside the last one that is: it comes back as the one that
its code has belonged to all along. -/
theorem codes_keep_actions_at_sign :
    let last : MotionAction := ⟨.pointerDown, 0x7fffff⟩
    let next : MotionAction := ⟨.pointerDown, 0x800000⟩
    let negative : MotionAction := ⟨.pointerDown, 0xff800000⟩
    decode? last.encoded = some last ∧ decode? next.encoded = some negative ∧
      negative.encoded = next.encoded := by
  intro last next negative
  have back : decode? next.encoded = some negative := by decide
  refine ⟨((codes_keep_actions.2.1 last).2.2).mpr (by decide), back, ?_⟩
  exact codes_keep_actions.1 _ _ back

end MotionAction

end CorrelatedInput
