import CorrelatedInput.Proofs.Json.Reading
/-!
The compact form: it is a layout, so it is read as the value it was written for, and it stands on
one line.
-/
namespace CorrelatedInput.Json

section Laid

variable {depth : Nat}

theorem laid_items (first : Bool) {vs : List Value} (some : vs ≠ [])
    (h : ∀ v ∈ vs, Laid depth (.value v) v.write) :
    Laid depth (.items first vs) (comma first ++ (writeItems vs ++ [']'])) := by
  induction vs generalizing first with
  | nil => exact absurd rfl some
  | cons v rest ih =>
    have laid := h v List.mem_cons_self
    cases rest with
    | nil => exact .item first laid (.lastItem false)
    | cons w rest =>
      have more := ih false (List.cons_ne_nil w rest) fun u hu => h u (List.mem_cons_of_mem v hu)
      have both := Laid.item first laid more
      simpa [comma, writeItems] using both

theorem laid_members (first : Bool) {ms : List (String × Value)} (some : ms ≠ [])
    (h : ∀ m ∈ ms, Laid depth (.value m.2) m.2.write) :
    Laid depth (.members first ms) (comma first ++ (writeMembers ms ++ ['\x7d'])) := by
  induction ms generalizing first with
  | nil => exact absurd rfl some
  | cons m rest ih =>
    obtain ⟨key, v⟩ := m
    have laid := h (key, v) List.mem_cons_self
    have none : ([] : List Char).all isBlank = true := rfl
    have spelled := spells_escape key.toList
    cases rest with
    | nil =>
      have last := Laid.member first none spelled none laid (.lastMember false)
      simpa [writeMembers, quote_eq] using last
    | cons k rest =>
      have more := ih false (List.cons_ne_nil k rest) fun u hu => h u (List.mem_cons_of_mem _ hu)
      have both := Laid.member first none spelled none laid more
      simpa [comma, writeMembers, quote_eq] using both

/-- The compact form lays out the value. -/
theorem Value.Fits.laid {v : Value} (h : v.Fits depth) : Laid depth (.value v) v.write := by
  induction h with
  | null => exact .null
  | bool b => exact .bool b
  | integer word => exact .integer word
  | text s => exact .text (spells_escape s.toList)
  | @array _ items _ ih =>
    apply Laid.array
    cases items with
    | nil => exact .lastItem true
    | cons v rest => exact laid_items true (List.cons_ne_nil v rest) ih
  | @object _ members _ ih =>
    apply Laid.object
    cases members with
    | nil => exact .lastMember true
    | cons m rest => exact laid_members true (List.cons_ne_nil m rest) ih

end Laid

theorem Value.write_object (ms : List (String × Value)) :
    (Value.object ms).write = '\x7b' :: (writeMembers ms ++ ['\x7d']) := by rw [write]

/-! Control characters -/

theorem writeInt_plain (n : Int) : ∀ c ∈ Text.writeInt n, ¬ IsControl c := by
  have digits (m : Nat) : ∀ c ∈ Text.writeNat m, ¬ IsControl c := by
    intro c hc
    have digit := Text.isDigit_of_mem_writeNat hc
    simp only [Text.isDigit, Bool.and_eq_true, decide_eq_true_eq, Char.le_def] at digit
    have low : '0'.val.toNat ≤ c.val.toNat := digit.1
    have : '0'.val.toNat = 48 := rfl
    simp only [IsControl, Char.toNat]
    omega
  cases n with
  | ofNat m => exact digits m
  | negSucc m =>
    intro c hc
    rcases List.mem_cons.mp hc with rfl | hc
    · simp [IsControl]
    · exact digits _ c hc

section Plain

variable {depth : Nat}

theorem writeItems_plain {vs : List Value} (h : ∀ v ∈ vs, ∀ c ∈ v.write, ¬ IsControl c) :
    ∀ c ∈ writeItems vs, ¬ IsControl c := by
  have mark : ¬ IsControl ',' := by simp [IsControl]
  induction vs with
  | nil => simp [writeItems]
  | cons v rest ih =>
    have first := h v List.mem_cons_self
    have more := ih fun u hu => h u (List.mem_cons_of_mem v hu)
    cases rest with
    | nil => exact first
    | cons w rest =>
      intro c hc
      rcases List.mem_append.mp hc with hc | hc
      · exact first c hc
      · rcases List.mem_cons.mp hc with rfl | hc
        · exact mark
        · exact more c hc

theorem writeMembers_plain {ms : List (String × Value)}
    (h : ∀ m ∈ ms, ∀ c ∈ m.2.write, ¬ IsControl c) : ∀ c ∈ writeMembers ms, ¬ IsControl c := by
  have colon : ¬ IsControl ':' := by simp [IsControl]
  have mark : ¬ IsControl ',' := by simp [IsControl]
  induction ms with
  | nil => simp [writeMembers]
  | cons m rest ih =>
    obtain ⟨key, v⟩ := m
    have first := h (key, v) List.mem_cons_self
    have more := ih fun u hu => h u (List.mem_cons_of_mem _ hu)
    have quoted := quote_plain key
    intro c hc
    cases rest with
    | nil =>
      simp only [writeMembers, List.mem_append, List.mem_cons] at hc
      rcases hc with hc | rfl | hc
      · exact quoted c hc
      · exact colon
      · exact first c hc
    | cons k rest =>
      simp only [writeMembers, List.mem_append, List.mem_cons] at hc
      rcases hc with hc | rfl | hc | rfl | hc
      · exact quoted c hc
      · exact colon
      · exact first c hc
      · exact mark
      · exact more c hc

theorem Value.Fits.plain {v : Value} (h : v.Fits depth) : ∀ c ∈ v.write, ¬ IsControl c := by
  induction h with
  | null => simp [Value.write, IsControl]
  | bool b => cases b <;> simp [Value.write, IsControl]
  | integer => exact writeInt_plain _
  | text s => exact quote_plain s
  | array _ ih =>
    intro c hc
    simp only [Value.write, List.mem_cons, List.mem_append, List.not_mem_nil, or_false] at hc
    rcases hc with rfl | hc | rfl
    · simp [IsControl]
    · exact writeItems_plain ih c hc
    · simp [IsControl]
  | object _ ih =>
    intro c hc
    simp only [Value.write, List.mem_cons, List.mem_append, List.not_mem_nil, or_false] at hc
    rcases hc with rfl | hc | rfl
    · simp [IsControl]
    · exact writeMembers_plain ih c hc
    · simp [IsControl]

theorem Value.Fits.object_line {ms : List (String × Value)} (h : (Value.object ms).Fits depth) :
    '\n' ∉ (Value.object ms).write ∧ (Value.object ms).write.head? = some '\x7b' ∧
      (Value.object ms).write.getLast? = some '\x7d' := by
  refine ⟨?_, ?_, ?_⟩
  · intro feed
    exact h.plain '\n' feed (by simp [IsControl])
  · rw [write]
    rfl
  · rw [write, ← List.cons_append, List.getLast?_concat]

end Plain

end CorrelatedInput.Json
