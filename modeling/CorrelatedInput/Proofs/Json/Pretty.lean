import CorrelatedInput.Proofs.Json.Compact
/-!
The form over several lines: it is a layout as well, at whatever level it begins.
-/
namespace CorrelatedInput.Json

section Laid

variable {depth : Nat} {part : Part}

theorem Laid.prepend {blanks cs : List Char} (blank : blanks.all isBlank = true)
    (h : Laid depth part cs) : Laid depth part (blanks ++ cs) := by
  induction blanks with
  | nil => exact h
  | cons b blanks ih =>
    rw [List.all_cons, Bool.and_eq_true] at blank
    exact .blank blank.1 (ih blank.2)

theorem newline_blank (level : Nat) : (newline level).all isBlank = true := by
  rw [newline, List.all_cons, List.all_replicate]
  split <;> decide

theorem laidOut_items (first : Bool) {vs : List Value} (some : vs ≠ []) (level outer : Nat)
    (h : ∀ v ∈ vs, Laid depth (.value v) (v.layOut level)) :
    Laid depth (.items first vs)
      (comma first ++ (layOutItems level vs ++ (newline outer ++ [']']))) := by
  induction vs generalizing first with
  | nil => exact absurd rfl some
  | cons v rest ih =>
    have laid := (h v List.mem_cons_self).prepend (newline_blank level)
    cases rest with
    | nil =>
      have last := Laid.item first laid ((Laid.lastItem false).prepend (newline_blank outer))
      simpa [layOutItems] using last
    | cons w rest =>
      have more := ih false (List.cons_ne_nil w rest) fun u hu => h u (List.mem_cons_of_mem v hu)
      have both := Laid.item first laid more
      simpa [comma, layOutItems] using both

theorem laidOut_members (first : Bool) {ms : List (String × Value)} (some : ms ≠ [])
    (level outer : Nat) (h : ∀ m ∈ ms, Laid depth (.value m.2) (m.2.layOut level)) :
    Laid depth (.members first ms)
      (comma first ++ (layOutMembers level ms ++ (newline outer ++ ['\x7d']))) := by
  induction ms generalizing first with
  | nil => exact absurd rfl some
  | cons m rest ih =>
    obtain ⟨key, v⟩ := m
    have laid : Laid depth (.value v) (' ' :: v.layOut level) :=
      .blank rfl (h (key, v) List.mem_cons_self)
    have none : ([] : List Char).all isBlank = true := rfl
    have spelled := spells_escape key.toList
    cases rest with
    | nil =>
      have last := Laid.member first (newline_blank level) spelled none laid
        ((Laid.lastMember false).prepend (newline_blank outer))
      simpa [layOutMembers, quote_eq] using last
    | cons k rest =>
      have more := ih false (List.cons_ne_nil k rest) fun u hu => h u (List.mem_cons_of_mem _ hu)
      have both := Laid.member first (newline_blank level) spelled none laid more
      simpa [comma, layOutMembers, quote_eq] using both

/-- The form over several lines lays out the value. -/
theorem Value.Fits.laidOut {v : Value} (h : v.Fits depth) (level : Nat) :
    Laid depth (.value v) (v.layOut level) := by
  induction h generalizing level with
  | null =>
    rw [layOut]
    exact .null
  | bool b =>
    rw [layOut]
    exact .bool b
  | integer word =>
    rw [layOut]
    exact .integer word
  | text s =>
    rw [layOut]
    exact .text (spells_escape s.toList)
  | @array _ items _ ih =>
    cases items with
    | nil => exact .array (.lastItem true)
    | cons v rest =>
      rw [layOut]
      · apply Laid.array
        rw [List.append_assoc]
        exact laidOut_items true (List.cons_ne_nil v rest) _ _ fun u hu => ih u hu (level + 1)
      · exact nofun
  | @object _ members _ ih =>
    cases members with
    | nil => exact .object (.lastMember true)
    | cons m rest =>
      rw [layOut]
      · apply Laid.object
        rw [List.append_assoc]
        exact laidOut_members true (List.cons_ne_nil m rest) _ _ fun u hu => ih u hu (level + 1)
      · exact nofun

end Laid

end CorrelatedInput.Json
