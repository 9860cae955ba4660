import CorrelatedInput.Proofs.Signals.Kind
import Mathlib.Data.List.Dedup
import Mathlib.Data.List.Perm.Basic
import Mathlib.Data.Set.Insert
/-!
Sets of kinds as sets. A word stands for the kinds whose flags are in it, and what is done to words
is done to the sets they stand for. A bit that names no kind counts for the size of a word, but comes
into one only with such bits from outside.
-/
namespace CorrelatedInput.KindSet

variable {s t : KindSet} {k : Kind} {i : Nat}

/-! Bits that name a kind -/

/-- Every bit of the set names a kind. -/
def Known (s : KindSet) : Prop := every.includes s = true

instance (s : KindSet) : Decidable s.Known := inferInstanceAs (Decidable (_ = true))

theorem known_iff : s.Known ↔ ∀ i, s.bit i = true → every.bit i = true := includes_iff

theorem every_bit_place (k : Kind) : every.bit k.place = true := by
  rw [every, bit_ofList, List.any_eq_true]
  exact ⟨k, k.mem_all, by simp⟩

theorem ofKnownBits_eq (b : UInt32) : ofKnownBits b = (KindSet.mk b).inter every := rfl

theorem complement_eq : s.complement = every.diff s := by
  have swapped : ~~~s.bits &&& every.bits = every.bits &&& ~~~s.bits := UInt32.and_comm _ _
  exact congrArg KindSet.mk swapped

theorem ofBits?_eq (b : UInt32) :
    ofBits? b = if (KindSet.mk b).Known then some ⟨b⟩ else none := by
  have known : (KindSet.mk b).Known ↔ b &&& ~~~every.bits = 0 := by
    have none : ((KindSet.mk b).diff every).isEmpty = true ↔ b &&& ~~~every.bits = 0 :=
      decide_eq_true_iff
    rw [known_iff, ← none, isEmpty_iff]
    apply forall_congr'
    intro i
    rw [bit_diff]
    cases (KindSet.mk b).bit i <;> simp
  simp only [ofBits?, known]

theorem known_ofList (ks : List Kind) : (ofList ks).Known := by
  rw [known_iff]
  intro i here
  obtain ⟨k, _, same⟩ := List.any_eq_true.mp (bit_ofList ks ▸ here)
  rw [← of_decide_eq_true same]
  exact every_bit_place k

theorem known_every : every.Known := known_ofList Kind.all

theorem known_singleton (k : Kind) : (singleton k).Known := by
  rw [known_iff]
  intro i here
  rw [bit_singleton, decide_eq_true_iff] at here
  exact here ▸ every_bit_place k

theorem known_inter_every (s : KindSet) : (s.inter every).Known := by
  simp_all [known_iff]

theorem Known.union (known : s.Known) (known' : t.Known) : (s.union t).Known := by
  rw [known_iff] at known known' ⊢
  intro i here
  rw [bit_union, Bool.or_eq_true] at here
  exact here.elim (known i) (known' i)

theorem Known.symmDiff (known : s.Known) (known' : t.Known) : (s.symmDiff t).Known := by
  rw [known_iff] at known known' ⊢
  intro i here
  rw [bit_symmDiff] at here
  cases one : s.bit i with
  | true => exact known i one
  | false => exact known' i (by simpa [one] using here)

theorem Known.inter (known : s.Known) (t : KindSet) : (s.inter t).Known := by
  rw [known_iff] at known ⊢
  intro i here
  rw [bit_inter, Bool.and_eq_true] at here
  exact known i here.1

theorem Known.diff (known : s.Known) (t : KindSet) : (s.diff t).Known := by
  rw [known_iff] at known ⊢
  intro i here
  rw [bit_diff, Bool.and_eq_true] at here
  exact known i here.1

/-! Kinds listed -/

theorem contains_ofList (ks : List Kind) : (ofList ks).contains k = decide (k ∈ ks) := by
  rw [contains_eq_bit, bit_ofList, Bool.eq_iff_iff]
  simp

theorem mem_toList : k ∈ s.toList ↔ s.contains k = true := by
  rw [toList, List.mem_filter]
  exact and_iff_right k.mem_all

theorem toList_nodup (s : KindSet) : s.toList.Nodup := by
  have distinct : Kind.all.Nodup := by decide
  exact distinct.filter _

theorem ofList_toList (s : KindSet) : ofList s.toList = s.inter every := by
  apply ext_bit
  intro i
  rw [bit_ofList, bit_inter, every, bit_ofList, Bool.eq_iff_iff]
  simp only [List.any_eq_true, mem_toList, contains_eq_bit, Bool.and_eq_true, decide_eq_true_eq]
  constructor
  · rintro ⟨k, here, rfl⟩
    exact ⟨here, k, k.mem_all, rfl⟩
  · rintro ⟨here, k, _, rfl⟩
    exact ⟨k, here, rfl⟩

/-! Bits counted -/

theorem size_eq_countP : s.size = (List.range 32).countP s.bit := rfl

theorem size_inter_add_size_diff : (s.inter t).size + (s.diff t).size = s.size := by
  have both : (s.inter t).bit = fun i => s.bit i && t.bit i := funext fun i => bit_inter
  have apart : (s.diff t).bit = fun i => s.bit i && !t.bit i := funext fun i => bit_diff
  rw [size_eq_countP, size_eq_countP, size_eq_countP, both, apart,
    List.countP_eq_countP_filter_add _ s.bit t.bit, List.countP_filter, List.countP_filter]

/-- Among the bits that name kinds there is one for each kind that is listed. -/
theorem size_inter_every : (s.inter every).size = s.toList.length := by
  have places : (List.range 32).filter every.bit = Kind.all.map Kind.place := by decide
  have both : (s.inter every).bit = fun i => s.bit i && every.bit i := funext fun i => bit_inter
  have here : s.contains = s.bit ∘ Kind.place := funext fun k => contains_eq_bit
  rw [size_eq_countP, both, ← List.countP_filter, places, List.countP_map, toList,
    ← List.countP_eq_length_filter, here]

theorem size_eq (s : KindSet) : s.size = s.toList.length + (s.diff every).size := by
  rw [← size_inter_every, size_inter_add_size_diff]

theorem Known.size (known : s.Known) : s.size = s.toList.length := by
  have none : s.diff every = empty := by
    apply ext_bit
    intro i
    have here := known_iff.mp known i
    cases there : s.bit i <;> simp_all
  rw [size_eq, none]
  rfl

/-- A set that is collected has one bit for each kind in the list, however often it stands there. -/
theorem size_ofList (ks : List Kind) : (ofList ks).size = ks.dedup.length := by
  rw [(known_ofList ks).size]
  apply List.Perm.length_eq
  rw [List.perm_ext_iff_of_nodup (toList_nodup _) ks.nodup_dedup]
  intro k
  rw [mem_toList, contains_ofList, List.mem_dedup, decide_eq_true_iff]

/-! Sets made step by step -/

/-- The kinds in a set. -/
def members (s : KindSet) : Set Kind := {k | s.contains k = true}

@[simp] theorem mem_members : k ∈ s.members ↔ s.bit k.place = true := by
  rw [← contains_eq_bit]
  rfl

section Members

variable (s t : KindSet) (k j : Kind)

theorem members_empty : empty.members = ∅ := by
  ext k
  simp

theorem members_singleton : (singleton k).members = {k} := by
  ext j
  rw [mem_members, bit_singleton, decide_eq_true_iff, Kind.place_inj, Set.mem_singleton_iff]
  exact eq_comm

theorem members_union : (s.union t).members = s.members ∪ t.members := by
  ext k
  simp

theorem members_inter : (s.inter t).members = s.members ∩ t.members := by
  ext k
  simp

theorem members_diff : (s.diff t).members = s.members \ t.members := by
  ext k
  simp

theorem members_symmDiff :
    (s.symmDiff t).members = s.members \ t.members ∪ t.members \ s.members := by
  ext k
  simp only [mem_members, bit_symmDiff, Set.mem_union, Set.mem_sdiff]
  cases s.bit k.place <;> cases t.bit k.place <;> decide

theorem members_insert : (s.insert k).members = s.members ∪ {k} := by
  rw [← members_singleton, ← members_union]
  rfl

theorem members_pair : ((singleton k).union (singleton j)).members = {k, j} := by
  rw [members_union, members_singleton, members_singleton]
  rfl

theorem members_complement : s.complement.members = s.membersᶜ := by
  ext k
  simp [complement_eq, every_bit_place]

theorem members_inter_every : (s.inter every).members = s.members := by
  ext k
  simp [every_bit_place]

theorem members_ofList (ks : List Kind) : (ofList ks).members = {k | k ∈ ks} := by
  ext k
  simp [members, contains_ofList]

end Members

/-- What may be done to a set. A set that brings its bits into another one has none but those of
kinds. -/
inductive Edit where
  /-- The kinds of a list, in place of what there was; and so the next one. -/
  | collect (ks : List Kind)
  | pair (k j : Kind)
  | add (k : Kind)
  | insert (t : KindSet) (known : t.Known)
  | toggle (t : KindSet) (known : t.Known)
  | remove (t : KindSet)
  | intersect (t : KindSet)
  | complement
  /-- The set with these bits, unless one of them names no kind. -/
  | bits (b : UInt32)
  | knownBits (b : UInt32)

namespace Edit

def apply (s : KindSet) : Edit → KindSet
  | collect ks => ofList ks
  | pair k j => (singleton k).union (singleton j)
  | add k => s.insert k
  | insert t _ => s.union t
  | toggle t _ => s.symmDiff t
  | remove t => s.diff t
  | intersect t => s.inter t
  | complement => s.complement
  | bits b => (ofBits? b).getD s
  | knownBits b => ofKnownBits b

/-- The same to a set of kinds. -/
def onSet (among : Set Kind) : Edit → Set Kind
  | collect ks => {k | k ∈ ks}
  | pair k j => {k, j}
  | add k => among ∪ {k}
  | insert t _ => among ∪ t.members
  | toggle t _ => among \ t.members ∪ t.members \ among
  | remove t => among \ t.members
  | intersect t => among ∩ t.members
  | complement => amongᶜ
  | bits b => if (KindSet.mk b).Known then (KindSet.mk b).members else among
  | knownBits b => (KindSet.mk b).members

theorem apply_known (known : s.Known) (e : Edit) : (e.apply s).Known := by
  cases e with
  | collect ks => exact known_ofList ks
  | pair k j => exact (known_singleton k).union (known_singleton j)
  | add k => exact known.union (known_singleton k)
  | insert t known' => exact known.union known'
  | toggle t known' => exact known.symmDiff known'
  | remove t => exact known.diff t
  | intersect t => exact known.inter t
  | complement =>
    rw [apply, complement_eq]
    exact known_every.diff s
  | bits b =>
    rw [apply, ofBits?_eq]
    split
    · assumption
    · exact known
  | knownBits b =>
    rw [apply, ofKnownBits_eq]
    exact known_inter_every _

theorem apply_members (s : KindSet) (e : Edit) : (e.apply s).members = e.onSet s.members := by
  cases e with
  | collect ks => exact members_ofList ks
  | pair k j => exact members_pair k j
  | add k => exact members_insert s k
  | insert t => exact members_union s t
  | toggle t => exact members_symmDiff s t
  | remove t => exact members_diff s t
  | intersect t => exact members_inter s t
  | complement => exact members_complement s
  | bits b =>
    rw [apply, onSet, ofBits?_eq]
    split <;> rfl
  | knownBits b =>
    rw [apply, ofKnownBits_eq]
    exact members_inter_every _

/-- The set that is there after some edits of an empty one. -/
def made (edits : List Edit) : KindSet := edits.foldl apply empty

def madeOnSet (edits : List Edit) : Set Kind := edits.foldl onSet ∅

theorem made_known (edits : List Edit) : (made edits).Known := by
  induction edits using List.reverseRecOn with
  | nil => exact known_ofList []
  | append_singleton edits e ih =>
    simp only [made, List.foldl_append, List.foldl_cons, List.foldl_nil]
    exact apply_known ih e

theorem made_members (edits : List Edit) : (made edits).members = madeOnSet edits := by
  induction edits using List.reverseRecOn with
  | nil => exact members_empty
  | append_singleton edits e ih =>
    simp only [made, madeOnSet, List.foldl_append, List.foldl_cons, List.foldl_nil] at ih ⊢
    rw [← ih]
    exact apply_members _ e

end Edit

/-- Words with flags are sets of kinds. A list of kinds is collected to the word that has just these
kinds, lists each of them once, in the order of their declaration, and counts the different ones.
What any word lists is collected to the word without the bits that name no kind, and these are what
it counts beyond its list. And a word that is made step by step from the empty one never has such a
bit, counts just what it lists, and stands for the set that the same steps make. -/
theorem words_are_sets :
    (∀ ks : List Kind,
      (∀ k, (ofList ks).contains k = true ↔ k ∈ ks) ∧
      (ofList ks).toList = Kind.all.filter (· ∈ ks) ∧ (ofList ks).toList.Nodup ∧
      (ofList ks).size = ks.dedup.length) ∧
    (∀ s : KindSet,
      ofList s.toList = s.inter every ∧ s.size = s.toList.length + (s.diff every).size) ∧
    ∀ edits : List Edit,
      let s := Edit.made edits
      s.Known ∧ s.size = s.toList.length ∧ s.members = Edit.madeOnSet edits := by
  refine ⟨?_, fun s => ⟨ofList_toList s, size_eq s⟩, ?_⟩
  · intro ks
    refine ⟨fun k => ?_, ?_, toList_nodup _, size_ofList ks⟩
    · rw [contains_ofList, decide_eq_true_iff]
    · exact List.filter_congr fun k _ => contains_ofList ks
  · intro edits
    have known := Edit.made_known edits
    exact ⟨known, known.size, Edit.made_members edits⟩

end CorrelatedInput.KindSet
